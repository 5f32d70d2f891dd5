import CommandWiring.Proofs.RelativePaths

/-!
# Staying below a root

A relative path should not lead out of the root that it is seen from. It does not if the root and
the path exist, because then it consists of names. But paths that do not exist are compared as they
are given, and what is left of such a path may go up more often than down.
-/

namespace CommandWiring
namespace Path

variable {N : Type} {below : List N} {components rest : List (Component N)}

/-!
# Going up and down
-/

/-- The names below a root to which `components` lead from the place `below`, read from left to
right. There are none if the way goes above the root, or to the top. -/
def landing? : List N -> List (Component N) -> Option (List N)
  | below, [] => some below
  | _, .root :: _ => none
  | below, .current :: rest => landing? below rest
  | below, .parent :: rest => if below.isEmpty then none else landing? below.dropLast rest
  | below, .name name :: rest => landing? (below ++ [name]) rest

def Component.isName : Component N -> Bool
  | name _ => true
  | _ => false

def Component.isParent : Component N -> Bool
  | parent => true
  | _ => false

/-- In some beginning of `components`, the steps up outnumber the names by more than `levels`. -/
def Climbs (levels : Nat) (components : List (Component N)) : Prop :=
  ∃ front, front <+: components ∧
    levels + front.countP Component.isName < front.countP Component.isParent

theorem climbs_nil {levels : Nat} : ¬ Climbs levels ([] : List (Component N)) := by
  rintro ⟨front, isFront, climbs⟩
  rw [List.prefix_nil.mp isFront] at climbs
  exact absurd climbs (Nat.not_lt_zero _)

theorem climbs_cons {levels : Nat} {component : Component N} :
    Climbs levels (component :: rest) ↔ ∃ front, front <+: rest ∧
      levels + (component :: front).countP Component.isName <
        (component :: front).countP Component.isParent := by
  constructor
  · rintro ⟨front, isFront, climbs⟩
    rcases List.prefix_cons_iff.mp isFront with rfl | ⟨more, rfl, isMore⟩
    · exact absurd climbs (Nat.not_lt_zero _)
    · exact ⟨more, isMore, climbs⟩
  · rintro ⟨front, isFront, climbs⟩
    exact ⟨component :: front, List.cons_prefix_cons.mpr ⟨rfl, isFront⟩, climbs⟩

theorem climbs_current {levels : Nat} : Climbs levels (.current :: rest) ↔ Climbs levels rest := by
  rw [climbs_cons]
  simp [Climbs, Component.isName, Component.isParent]

theorem climbs_name {levels : Nat} {name : N} :
    Climbs levels (.name name :: rest) ↔ Climbs (levels + 1) rest := by
  rw [climbs_cons]
  simp [Climbs, List.countP_cons, Component.isName, Component.isParent, Nat.add_assoc,
    Nat.add_comm 1]

theorem climbs_parent {levels : Nat} :
    Climbs (levels + 1) (.parent :: rest) ↔ Climbs levels rest := by
  rw [climbs_cons]
  refine exists_congr fun front => and_congr_right fun _ => ?_
  rw [List.countP_cons_of_neg Bool.false_ne_true, List.countP_cons_of_pos (by rfl)]
  omega

/-- A way that does not go to the top leads above the root exactly if it climbs. -/
theorem landing?_eq_none_iff (notTop : .root ∉ components) :
    landing? below components = none ↔ Climbs below.length components := by
  induction components generalizing below with
  | nil => exact iff_of_false nofun climbs_nil
  | cons component rest ih =>
      rw [List.mem_cons, not_or] at notTop
      rcases notTop with ⟨notRoot, notTop⟩
      cases component with
      | root => exact absurd rfl notRoot
      | current => rw [landing?, ih notTop, climbs_current]
      | name name =>
          rw [landing?, ih notTop, climbs_name, List.length_append, List.length_singleton]
      | parent =>
          -- from the root itself one step up is too many
          rw [landing?]
          cases below with
          | nil =>
              refine iff_of_true rfl ⟨[.parent], ?_, Nat.zero_lt_one⟩
              exact List.cons_prefix_cons.mpr ⟨rfl, List.nil_prefix⟩
          | cons first more =>
              change landing? (first :: more).dropLast rest = none ↔ _
              rw [ih notTop, List.length_dropLast, List.length_cons, Nat.add_sub_cancel,
                climbs_parent]

theorem landing?_names (below names : List N) :
    landing? below (names.map .name) = some (below ++ names) := by
  induction names generalizing below with
  | nil => rw [List.append_nil]; rfl
  | cons name rest ih => rw [List.map_cons, landing?, ih, List.append_assoc, List.singleton_append]

theorem landing?_eq_none_congr {first : List (Component Name)} {parts : List (Component String)}
    (writes : List.Forall₂ Component.Writes first parts) {below : List Name} {other : List String}
    (level : below.length = other.length) :
    landing? below first = none ↔ landing? other parts = none := by
  induction writes generalizing below other with
  | nil => exact iff_of_false nofun nofun
  | cons isFirst _ ih =>
      cases isFirst with
      | root => exact iff_of_true rfl rfl
      | current => exact ih level
      | name isEntry =>
          apply ih
          rw [List.length_append, List.length_append, level]
          rfl
      | parent =>
          have same : below.isEmpty = other.isEmpty := by
            rw [Bool.eq_iff_iff, List.isEmpty_iff_length_eq_zero, level,
              List.isEmpty_iff_length_eq_zero]
          rw [landing?, landing?, same]
          split
          · exact iff_of_true rfl rfl
          · apply ih
            rw [List.length_dropLast, List.length_dropLast, level]

/-!
# Components of what is left
-/

theorem isInner_of_writes {component : Component Name} {part : Component String}
    (writes : component.Writes part) (notRoot : component ≠ .root)
    (notCurrent : component ≠ .current) : part.IsInner := by
  cases writes with
  | root => exact absurd rfl notRoot
  | current => exact absurd rfl notCurrent
  | parent => exact ⟨by decide, rfl⟩
  | name isEntry => exact isInner_name isEntry

theorem forall_isInner {components : List (Component Name)} {parts : List (Component String)}
    (writes : List.Forall₂ Component.Writes components parts)
    (inner : ∀ component ∈ components, component ≠ .root ∧ component ≠ .current) :
    ∀ part ∈ parts, part.IsInner := by
  induction writes with
  | nil => exact nofun
  | cons isFirst _ ih =>
      rcases List.forall_mem_cons.mp inner with ⟨⟨notRoot, notCurrent⟩, areInner⟩
      exact List.forall_mem_cons.mpr ⟨isInner_of_writes isFirst notRoot notCurrent, ih areInner⟩

theorem components_joinSegments_of_writes {path root : OsPath} {rest : List (Component Name)}
    {parts : List (Component String)} (isPath : path.components = root.components ++ rest)
    (writes : List.Forall₂ Component.Writes rest parts) :
    Path.components (joinSegments (parts.map Component.text)) = parts := by
  by_cases isEmpty : root.bytes = []
  · have noComponents : root.components = [] := by
      rw [OsPath.components, isEmpty]
      rfl
    rw [noComponents, List.nil_append, OsPath.components, Script.components] at isPath
    rw [← isPath] at writes
    cases isLead : inBytes.lead? path.bytes with
    | none =>
        rw [isLead] at writes
        exact components_joinSegments_text (forall_isInner writes
          fun _ member => Script.ne_lead_of_mem_inner member)
    | some lead =>
        rw [isLead] at writes
        cases writes with
        | @cons _ first _ others isFirst areOthers =>
            have isAlone : first = .root ∨ first = .current := by
              rcases Script.eq_lead_of_lead? isLead with rfl | rfl
              · cases isFirst
                exact .inl rfl
              · cases isFirst
                exact .inr rfl
            have areInner := forall_isInner areOthers
              fun _ member => Script.ne_lead_of_mem_inner member
            have whole : Path.components (joinSegments
                (((some first).toList ++ others).map Component.text)) =
                  (some first).toList ++ others :=
              components_joinSegments_lead (fun _ same => Option.some.inj same ▸ isAlone) areInner
            exact whole
  · apply components_joinSegments_text
    refine forall_isInner writes ?_
    intro component member
    exact Script.ne_lead_of_mem_inner
      (total_inBytes.mem_inner_of_components_eq isEmpty isPath member)

/-- Only a path from the top that is seen from the empty path can lead to the top. -/
theorem root_notMem_rest {path root : OsPath} {rest : List (Component Name)}
    (apart : root.bytes ≠ [] ∨ path.bytes.head? ≠ some slash)
    (isPath : path.components = root.components ++ rest) : Component.root ∉ rest := by
  intro member
  rcases apart with notEmpty | notRooted
  · exact (Script.ne_lead_of_mem_inner
      (total_inBytes.mem_inner_of_components_eq notEmpty isPath member)).1 rfl
  · have isTop : Component.root ∈ inBytes.components path.bytes := by
      change Component.root ∈ path.components
      rw [isPath]
      exact List.mem_append_right _ member
    exact notRooted (Script.root_mem_components_iff.mp isTop)

theorem root_notMem_of_writes {components : List (Component Name)}
    {parts : List (Component String)} (writes : List.Forall₂ Component.Writes components parts)
    (notTop : Component.root ∉ components) : Component.root ∉ parts := by
  induction writes with
  | nil => exact nofun
  | cons isFirst _ ih =>
      rw [List.mem_cons, not_or] at notTop ⊢
      refine ⟨?_, ih notTop.2⟩
      rintro rfl
      cases isFirst
      exact notTop.1 rfl

theorem head?_ne_slash {text : String} (notTop : Component.root ∉ Path.components text) :
    text.toList.head? ≠ some '/' :=
  fun isRooted => notTop (Script.root_mem_components_iff.mpr isRooted)

/-!
# Relative paths
-/

/-- The relative path of a place below another one, if both are there: it is made of the names that
lead down, and there is none if one of them is no text or if the place is not below the other. -/
structure StaysBelow (relative : Except RelativeError String) (location base : Location) :
    Prop where
  leadsDown : ∀ names texts, location = base ++ names -> names.mapM Name.text? = some texts ->
    ∃ text, relative = .ok text ∧ text.toList.head? ≠ some '/' ∧
      landing? [] (Path.components text) = some texts
  noText : ∀ names, location = base ++ names -> names.mapM Name.text? = none ->
    relative = .error .invalidName
  outside : ¬ base <+: location -> relative =
    .error (.outside { path := location.path.shown, root := base.path.shown })

/-- The relative path of a path as it is given: it is made of what is left of the path behind the
root, and there is none if a name in it is no text or if the path does not begin with the root. It
leads above the root exactly if what is left goes up more often than down. -/
structure TakenAsGiven (relative : Except RelativeError String) (path root : OsPath) : Prop where
  isLeft : ∀ rest texts, path.components = root.components ++ rest ->
    rest.mapM Component.text? = some texts -> relative = .ok (joinSegments texts)
  noText : ∀ rest, path.components = root.components ++ rest ->
    rest.mapM Component.text? = none -> relative = .error .invalidName
  outside : ¬ root.components <+: path.components -> relative =
    .error (.outside { path := path.shown, root := root.shown })
  leads : ∀ text, root.bytes ≠ [] ∨ path.bytes.head? ≠ some slash -> relative = .ok text ->
    text.toList.head? ≠ some '/' ∧
      (landing? [] (Path.components text) = none ↔
        ∃ rest, path.components = root.components ++ rest ∧ Climbs 0 rest)

theorem components_path_prefix_iff {location base : Location} :
    base.path.components <+: location.path.components ↔ base <+: location := by
  rw [Location.components_path, Location.components_path, List.cons_prefix_cons]
  constructor
  · intro given
    exact (List.prefix_map_iff_of_injective fun _ _ => Component.name.inj).mp given.2
  · intro isBelow
    exact ⟨rfl, isBelow.map _⟩

theorem staysBelow (location base : Location) :
    StaysBelow (stripped location.path base.path) location base where
  leadsDown := by
    rintro names texts rfl areTexts
    have areNames := areEntryNames_of_mapM areTexts
    have areComponents := components_joinSegments areNames
    refine ⟨joinSegments texts, ?_, ?_, ?_⟩
    · rw [stripped_path, areTexts]
    · apply head?_ne_slash
      rw [areComponents]
      simp
    · rw [areComponents, landing?_names, List.nil_append]
  noText := by
    rintro names rfl noTexts
    rw [stripped_path, noTexts]
  outside := by
    intro notBelow
    exact stripped_eq_outside (components_path_prefix_iff.not.mpr notBelow)

theorem takenAsGiven (path root : OsPath) : TakenAsGiven (stripped path root) path root where
  isLeft := by
    intro rest texts isPath areTexts
    rw [stripped_of_components isPath, areTexts]
  noText := by
    intro rest isPath noTexts
    rw [stripped_of_components isPath, noTexts]
  outside := stripped_eq_outside
  leads := by
    intro text apart isText
    rcases exists_rest_of_stripped isText with ⟨rest, texts, isPath, areTexts, rfl⟩
    rcases exists_writes_of_mapM areTexts with ⟨parts, writes, rfl⟩
    have notTop := root_notMem_rest apart isPath
    have areComponents := components_joinSegments_of_writes isPath writes
    refine ⟨head?_ne_slash ?_, ?_⟩
    · rw [areComponents]
      exact root_notMem_of_writes writes notTop
    · have same : landing? [] rest = none ↔ landing? [] parts = none :=
        landing?_eq_none_congr writes rfl
      rw [areComponents, ← same, landing?_eq_none_iff notTop, List.length_nil]
      constructor
      · intro climbs
        exact ⟨rest, isPath, climbs⟩
      · rintro ⟨other, isOther, climbs⟩
        rwa [List.append_cancel_left (isPath.symm.trans isOther)]

/-- However it is found out where paths lead: if the path and the root both lead somewhere, the
relative path consists of the names that lead from the one place to the other, and there is none if
the place is not below the root. If one of them leads nowhere, both are taken as given. -/
theorem relative_below_root (canonical? : OsPath -> Option Location) (path root : OsPath) :
    (∀ location base, canonical? path = some location -> canonical? root = some base ->
      StaysBelow (relativeFrom canonical? path root) location base) ∧
    (canonical? path = none ∨ canonical? root = none ->
      TakenAsGiven (relativeFrom canonical? path root) path root) := by
  constructor
  · intro location base pathLeads rootLeads
    rw [relativeFrom, pathLeads, rootLeads]
    exact staysBelow location base
  · intro absent
    rw [relativeFrom_of_absent absent]
    exact takenAsGiven path root

/-- Below `/w`, which does not exist, `/w/a/../B.java` is `a/../B.java`, which goes up no more than
it has come down. -/
theorem relative_below_root_up_again :
    FileSystem.empty.relative (.ofText "/w/a/../B.java") (.ofText "/w") = .ok "a/../B.java" ∧
      ¬ ∃ rest, (OsPath.ofText "/w/a/../B.java").components =
        (OsPath.ofText "/w").components ++ rest ∧ Climbs 0 rest := by
  have isRelative : FileSystem.empty.relative (.ofText "/w/a/../B.java") (.ofText "/w") =
      .ok "a/../B.java" := by
    decide +kernel
  have stays : landing? [] (Path.components "a/../B.java") ≠ none := by decide +kernel
  have absent := (relative_below_root FileSystem.empty.resolve? (.ofText "/w/a/../B.java")
    (.ofText "/w")).2 (by decide +kernel)
  have leads := absent.leads _ (.inl (by decide +kernel)) isRelative
  exact ⟨isRelative, fun climbs => stays (leads.2.mpr climbs)⟩

/-- Neither `/qq/../etc/passwd` nor the root `/qq` exists in an empty file system, and the relative
path leads above the root. Seen from the empty root, `/etc/passwd` begins at the top. -/
theorem relative_leaves_root :
    (FileSystem.empty.relative (.ofText "/qq/../etc/passwd") (.ofText "/qq") =
        .ok "../etc/passwd" ∧
      landing? [] (Path.components "../etc/passwd") = none) ∧
      FileSystem.empty.relative (.ofText "/etc/passwd") (.ofText "") = .ok "//etc/passwd" := by
  decide +kernel

end Path
end CommandWiring
