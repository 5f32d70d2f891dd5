import CommandWiring.Java.Reader.Skeleton
import CommandWiring.Java.Reader.Tokens

/-!
# Laid trees

A skeleton is laid over the tokens of a text, which gives the tree of the text.
-/

namespace CommandWiring
namespace Java

/-!
# Laying a skeleton over tokens

A comment between two tokens stands in the smallest node that has both of them. So the comments
before the first token of a node are handed up to the node around it.
-/

/-- A tree, the comments before its first token, and the tokens behind it. -/
structure Laid where
  comments : List Span
  tree : Tree
  rest : List Token
  /-- Where the last token ends. -/
  stop : Nat

/-- The trees of several siblings. The comments before the first of them are kept apart. -/
structure LaidList where
  comments : List Span
  trees : List Tree
  rest : List Token
  stop : Nat

def hull (stop : Nat) (trees : List Tree) : Span :=
  match trees.head?, trees.getLast? with
  | some first, some last => ⟨first.span.start, last.span.stop⟩
  | _, _ => ⟨stop, stop⟩

mutual

/-- Lays `skeleton` over `tokens`; the last token before them ends at `stop`. -/
def lay (stop : Nat) (tokens : List Token) : Skeleton -> Laid
  | .leaf =>
      match tokens with
      | [] => { comments := [], tree := .token ⟨stop, stop⟩, rest := [], stop := stop }
      | token :: rest =>
          { comments := token.comments, tree := .token token.span, rest := rest
            stop := token.span.stop }
  | .gap => { comments := [], tree := .token ⟨stop, stop⟩, rest := tokens, stop := stop }
  | .node slot construct children =>
      let laid := layAll stop tokens children
      { comments := laid.comments
        tree := .node slot construct (hull stop laid.trees) laid.trees
        rest := laid.rest
        stop := laid.stop }

def layAll (stop : Nat) (tokens : List Token) : List Skeleton -> LaidList
  | [] => { comments := [], trees := [], rest := tokens, stop := stop }
  | first :: more =>
      let head := lay stop tokens first
      let tail := layAll head.stop head.rest more
      { comments := head.comments
        trees := head.tree :: (tail.comments.map .comment ++ tail.trees)
        rest := tail.rest
        stop := tail.stop }

end

/-- The tree of a whole text of `length` bytes. It has all comments at its ends, begins with the
first token or comment, and ends with the text. -/
def layUnit (length : Nat) (list : TokenList) (construct : Construct) (children : List Skeleton) :
    Tree :=
  let laid := layAll 0 list.tokens children
  let trees := laid.comments.map .comment ++ laid.trees ++ list.trailing.map .comment
  let start := match trees.head? with
    | some first => first.span.start
    | none => length
  .node .plain construct ⟨start, length⟩ trees

/-!
# Order
-/

namespace Tree

theorem ordered_token {span : Span} (forward : span.start ≤ span.stop) : (token span).Ordered :=
  .intro forward fun _ member => absurd member List.not_mem_nil

theorem ordered_comment {span : Span} (forward : span.start ≤ span.stop) :
    (comment span).Ordered :=
  .intro forward nofun

theorem ordered_node {slot : Slot} {construct : Construct} {span : Span} {children : List Tree}
    (between : Between span.start span.stop (children.map Tree.span))
    (below : ∀ child ∈ children, child.Ordered) : (node slot construct span children).Ordered :=
  .intro between below

end Tree

/-- What a laid tree takes up: the offsets from `stop` to its own end, the rest staying behind it.
-/
structure Laid.Fits (stop upper : Nat) (trailing : List Span) (laid : Laid) : Prop where
  before : Between stop laid.stop (laid.comments ++ [laid.tree.span])
  ends : laid.tree.span.stop = laid.stop
  after : Between laid.stop upper (laid.rest.flatMap Token.spans ++ trailing)
  ordered : laid.tree.Ordered

structure LaidList.Fits (stop upper : Nat) (trailing : List Span) (laid : LaidList) : Prop where
  before : Between stop laid.stop (laid.comments ++ laid.trees.map Tree.span)
  ends : ∀ last ∈ laid.trees.getLast?, last.span.stop = laid.stop
  nothing : laid.trees = [] -> laid.comments = [] ∧ laid.stop = stop
  after : Between laid.stop upper (laid.rest.flatMap Token.spans ++ trailing)
  ordered : ∀ tree ∈ laid.trees, tree.Ordered

theorem LaidList.Fits.node {stop upper : Nat} {trailing : List Span} {laid : LaidList}
    (fits : laid.Fits stop upper trailing) (slot : Slot) (construct : Construct) :
    Laid.Fits stop upper trailing
      { comments := laid.comments
        tree := .node slot construct (hull stop laid.trees) laid.trees
        rest := laid.rest
        stop := laid.stop } := by
  rcases laid with ⟨comments, trees, rest, laidStop⟩
  rcases fits with ⟨before, ends, nothing, after, ordered⟩
  dsimp only at *
  cases trees with
  | nil =>
      rcases nothing rfl with ⟨rfl, rfl⟩
      refine ⟨?_, rfl, after, Tree.ordered_node ?_ ordered⟩
      · exact ⟨Nat.le_refl _, Nat.le_refl _, Nat.le_refl _⟩
      · exact Nat.le_refl _
  | cons first more =>
      obtain ⟨last, isLast⟩ : ∃ last, (first :: more).getLast? = some last :=
        Option.isSome_iff_exists.mp (by simp)
      have lastStop : last.span.stop = laidStop := ends last isLast
      have isHull : hull stop (first :: more) = ⟨first.span.start, laidStop⟩ := by
        simp [hull, isLast, lastStop]
      rcases between_append.mp before with ⟨middle, inFront, inside⟩
      have covered : Between first.span.start laidStop ((first :: more).map Tree.span) :=
        ⟨Nat.le_refl _, inside.2⟩
      refine ⟨?_, ?_, after, ?_⟩
      · rw [isHull]
        refine between_append.mpr ⟨middle, inFront, inside.1, covered.le, Nat.le_refl _⟩
      · rw [isHull]
        rfl
      · rw [isHull]
        exact Tree.ordered_node covered ordered

theorem LaidList.Fits.cons {stop upper : Nat} {trailing : List Span} {head : Laid} {tail : LaidList}
    (first : head.Fits stop upper trailing) (more : tail.Fits head.stop upper trailing) :
    LaidList.Fits stop upper trailing
      { comments := head.comments
        trees := head.tree :: (tail.comments.map .comment ++ tail.trees)
        rest := tail.rest
        stop := tail.stop } where
  before := by
    have joined := between_append.mpr ⟨head.stop, first.before, more.before⟩
    have isSpan : Tree.span ∘ Tree.comment = id := rfl
    simpa [isSpan] using joined
  ends := by
    intro last isLast
    cases htrees : tail.trees with
    | nil =>
        rcases more.nothing htrees with ⟨noComments, sameStop⟩
        obtain rfl : head.tree = last := by simpa [htrees, noComments] using isLast
        exact first.ends.trans sameStop.symm
    | cons next others =>
        apply more.ends
        simpa [htrees, List.getLast?_cons, List.getLast?_append] using isLast
  nothing := by
    intro isEmpty
    cases isEmpty
  after := more.after
  ordered := by
    intro tree member
    rcases List.mem_cons.mp member with rfl | member
    · exact first.ordered
    · rcases List.mem_append.mp member with isComment | isTree
      · rcases List.mem_map.mp isComment with ⟨span, isSpan, rfl⟩
        rcases between_append.mp more.before with ⟨middle, comments, _⟩
        exact Tree.ordered_comment (comments.forward isSpan).2.1
      · exact more.ordered tree isTree

mutual

theorem fits_lay {upper : Nat} {trailing : List Span} :
    ∀ (skeleton : Skeleton) (stop : Nat) (tokens : List Token),
      Between stop upper (tokens.flatMap Token.spans ++ trailing) ->
      (lay stop tokens skeleton).Fits stop upper trailing
  | .leaf, stop, [], h =>
      ⟨⟨Nat.le_refl _, Nat.le_refl _, Nat.le_refl _⟩, rfl, h, Tree.ordered_token (Nat.le_refl _)⟩
  | .leaf, stop, token :: rest, h => by
      rw [List.flatMap_cons, List.append_assoc] at h
      rcases between_append.mp h with ⟨middle, before, after⟩
      rcases between_append.mp before with ⟨inner, comments, start, forward, stops⟩
      refine ⟨?_, rfl, after.lower stops, Tree.ordered_token forward⟩
      exact between_append.mpr ⟨inner, comments, start, forward, Nat.le_refl _⟩
  | .gap, stop, tokens, h =>
      ⟨⟨Nat.le_refl _, Nat.le_refl _, Nat.le_refl _⟩, rfl, h, Tree.ordered_token (Nat.le_refl _)⟩
  | .node slot construct children, stop, tokens, h => by
      rw [lay]
      exact (fits_layAll children stop tokens h).node slot construct

theorem fits_layAll {upper : Nat} {trailing : List Span} :
    ∀ (skeletons : List Skeleton) (stop : Nat) (tokens : List Token),
      Between stop upper (tokens.flatMap Token.spans ++ trailing) ->
      (layAll stop tokens skeletons).Fits stop upper trailing
  | [], stop, tokens, h =>
      { before := Nat.le_refl _
        ends := by simp [layAll]
        nothing := fun _ => ⟨rfl, rfl⟩
        after := h
        ordered := by simp [layAll] }
  | first :: more, stop, tokens, h => by
      have head := fits_lay first stop tokens h
      rw [layAll]
      exact LaidList.Fits.cons head (fits_layAll more _ _ head.after)

end

/-!
# Completeness

A skeleton takes as many tokens as it has leaves.
-/

mutual

theorem rest_lay : ∀ (skeleton : Skeleton) (stop : Nat) (tokens : List Token),
    (lay stop tokens skeleton).rest = tokens.drop skeleton.leafCount
  | .leaf, _, [] => rfl
  | .leaf, _, _ :: _ => rfl
  | .gap, _, _ => rfl
  | .node _ _ children, stop, tokens => by
      rw [lay, Skeleton.leafCount]
      exact rest_layAll children stop tokens

theorem rest_layAll : ∀ (skeletons : List Skeleton) (stop : Nat) (tokens : List Token),
    (layAll stop tokens skeletons).rest = tokens.drop (Skeleton.leafCounts skeletons)
  | [], _, _ => rfl
  | first :: more, stop, tokens => by
      rw [layAll, Skeleton.leafCounts]
      rw [rest_layAll more, rest_lay first, List.drop_drop]

end

/-!
# Shapes
-/

theorem seat?_lay (skeleton : Skeleton) (stop : Nat) (tokens : List Token) :
    (lay stop tokens skeleton).tree.seat? = skeleton.seat? := by
  cases skeleton with
  | leaf => cases tokens <;> rfl
  | gap => rfl
  | node slot construct children =>
      rw [lay]
      rfl

theorem seats_comments (spans : List Span) :
    (spans.map Tree.comment).filterMap Tree.seat? = [] := by
  simp [Tree.seat?, Tree.comment]

theorem seats_layAll (skeletons : List Skeleton) (stop : Nat) (tokens : List Token) :
    (layAll stop tokens skeletons).trees.filterMap Tree.seat? =
      skeletons.filterMap Skeleton.seat? := by
  induction skeletons generalizing stop tokens with
  | nil => rfl
  | cons first more ih =>
      rw [layAll, List.filterMap_cons, List.filterMap_append, seats_comments, ih, seat?_lay,
        List.filterMap_cons, List.nil_append]

namespace Tree

theorem shaped_token (span : Span) : (token span).Shaped :=
  .intro nofun fun _ member => absurd member List.not_mem_nil

theorem shaped_comment (span : Span) : (comment span).Shaped :=
  .intro nofun nofun

theorem shaped_node {slot : Slot} {construct : Construct} {span : Span} {children : List Tree}
    (hasShape : (node slot construct span children).HasShape construct)
    (below : ∀ child ∈ children, child.Shaped) : (node slot construct span children).Shaped := by
  refine .intro ?_ below
  intro other isNode
  rcases Option.some.inj isNode with rfl
  exact hasShape

theorem hasShape_of_isUnit {construct : Construct} {tree : Tree} (isUnit : construct.isUnit = true)
    (admits : Shape.admits construct (tree.children.filterMap seat?) = true) :
    tree.HasShape construct where
  admits := admits
  full := by cases construct <;> cases isUnit <;> nofun
  late := by
    intro notUnit
    rw [isUnit] at notUnit
    cases notUnit
  stops := by
    intro notUnit
    rw [isUnit] at notUnit
    cases notUnit
  word := by cases construct <;> cases isUnit <;> nofun

theorem hasShape_of_front {slot : Slot} {construct : Construct} {front : Tree} {more : List Tree}
    {span : Span}
    (ordered : (node slot construct span (front :: more)).InOrder)
    (admits : Shape.admits construct ((front :: more).filterMap seat?) = true)
    (filled : front.IsFilled) (notLate : front.construct?.any Construct.isLate = false)
    (starts : front.span.start = span.start)
    (stops : ∀ last ∈ (front :: more).getLast?, last.span.stop = span.stop)
    (word : construct.isWord = true -> front :: more = [token span]) :
    (node slot construct span (front :: more)).HasShape construct where
  admits := admits
  full := by
    intro _
    have inside := ordered.forward (List.mem_map_of_mem (f := Tree.span) List.mem_cons_self)
    unfold IsFilled at *
    exact Nat.lt_of_le_of_lt inside.1 (Nat.lt_of_lt_of_le filled inside.2.2)
  late := by
    intro _ child member isLate
    rcases List.mem_cons.mp member with rfl | behind
    · rw [notLate] at isLate
      cases isLate
    · have apart := (List.pairwise_cons.mp ordered.pairwise).1 _
        (List.mem_map_of_mem (f := Tree.span) behind)
      exact starts ▸ Nat.lt_of_lt_of_le filled apart
  stops := fun _ => stops
  word := word

end Tree

theorem hull_of_ends {stop : Nat} {trees : List Tree} {first last : Tree}
    (isFirst : trees.head? = some first) (isLast : trees.getLast? = some last) :
    hull stop trees = ⟨first.span.start, last.span.stop⟩ := by
  rw [hull, isFirst, isLast]

theorem hull_start {stop : Nat} {trees : List Tree} {first : Tree} (isFirst : first ∈ trees.head?) :
    first.span.start = (hull stop trees).start := by
  have nonempty : trees ≠ [] := List.ne_nil_of_mem (List.mem_of_mem_head? isFirst)
  rw [hull_of_ends isFirst (List.getLast?_eq_some_getLast nonempty)]

theorem hull_stop {stop : Nat} {trees : List Tree} {last : Tree} (isLast : last ∈ trees.getLast?) :
    last.span.stop = (hull stop trees).stop := by
  have nonempty : trees ≠ [] := List.ne_nil_of_mem (List.mem_of_getLast? isLast)
  rw [hull_of_ends (List.head?_eq_some_head nonempty) isLast]

/-- What the tokens of a text have in common. -/
structure Supplied (upper : Nat) (trailing : List Span) (stop : Nat) (tokens : List Token) :
    Prop where
  between : Between stop upper (tokens.flatMap Token.spans ++ trailing)
  filled : ∀ token ∈ tokens, token.IsFilled

theorem Supplied.rest {upper stop : Nat} {trailing : List Span} {tokens : List Token}
    (supplied : Supplied upper trailing stop tokens) (skeleton : Skeleton) :
    Supplied upper trailing (lay stop tokens skeleton).stop (lay stop tokens skeleton).rest where
  between := (fits_lay skeleton stop tokens supplied.between).after
  filled := by
    intro token member
    rw [rest_lay] at member
    exact supplied.filled token (List.mem_of_mem_drop member)

/-- Whether what is laid down for a skeleton covers anything for certain. -/
def Skeleton.covers : Skeleton -> Bool
  | leaf => true
  | gap => false
  | node _ construct _ => !construct.isUnit

theorem covers_of_opens {construct : Construct} {first : Skeleton} {more : List Skeleton}
    (notUnit : construct.isUnit = false)
    (opens : Shape.opens construct (first :: more).head? = true)
    (units : ∀ seat ∈ (first :: more).filterMap Skeleton.seat?, Shape.seatsUnit seat = true) :
    first.covers = true ∧ (first.seat?.map Seat.construct).any Construct.isLate = false := by
  unfold Shape.opens at opens
  rw [notUnit, Bool.false_or] at opens
  cases first with
  | leaf => exact ⟨rfl, rfl⟩
  | gap => cases opens
  | node slot front children =>
      have unit := units ⟨slot, front⟩ List.mem_cons_self
      refine ⟨unit, ?_⟩
      simpa [Skeleton.seat?] using opens

theorem construct?_lay (skeleton : Skeleton) (stop : Nat) (tokens : List Token) :
    (lay stop tokens skeleton).tree.construct? = skeleton.seat?.map Seat.construct := by
  rw [← seat?_lay skeleton stop tokens]
  cases (lay stop tokens skeleton).tree <;> rfl

mutual

theorem shaped_lay {upper : Nat} {trailing : List Span} :
    ∀ (skeleton : Skeleton) (stop : Nat) (tokens : List Token),
      Supplied upper trailing stop tokens -> skeleton.leafCount ≤ tokens.length ->
      skeleton.isShaped = true -> (lay stop tokens skeleton).tree.Shaped ∧
        (skeleton.covers = true -> (lay stop tokens skeleton).tree.IsFilled)
  | .leaf, _, [], _, enough, _ => by cases enough
  | .leaf, _, token :: _, supplied, _, _ =>
      ⟨Tree.shaped_token _, fun _ => supplied.filled token List.mem_cons_self⟩
  | .gap, _, _, _, _, _ => ⟨Tree.shaped_token _, nofun⟩
  | .node slot construct children, stop, tokens, supplied, enough, isShaped => by
      simp only [Skeleton.isShaped, Bool.and_eq_true] at isShaped
      rcases isShaped with ⟨⟨⟨admits, opens⟩, spells⟩, areShaped⟩
      have below := shaped_layAll children stop tokens supplied enough areShaped
      have ordered := (fits_lay (.node slot construct children) stop tokens
        supplied.between).ordered.here
      have word : construct.isWord = true ->
          (layAll stop tokens children).trees =
            [.token (hull stop (layAll stop tokens children).trees)] := by
        intro isWord
        unfold Shape.spells at spells
        split at spells
        · cases tokens with
          | nil => rfl
          | cons token rest => rfl
        · rw [isWord] at spells
          cases spells
      have seats := seats_layAll children stop tokens
      rw [lay] at ordered ⊢
      rw [← seats] at admits
      cases isUnit : construct.isUnit with
      | true =>
          refine ⟨Tree.shaped_node (Tree.hasShape_of_isUnit isUnit admits) below, ?_⟩
          intro covers
          rw [Skeleton.covers, isUnit] at covers
          cases covers
      | false =>
          cases children with
          | nil =>
              unfold Shape.opens at opens
              rw [isUnit] at opens
              cases opens
          | cons first more =>
              have units := (Shape.admits_iff.mp admits).2.1
              rw [seats] at units
              rcases covers_of_opens isUnit opens units with ⟨covers, notLate⟩
              simp only [Skeleton.leafCount, Skeleton.leafCounts] at enough
              simp only [Skeleton.areShaped, Bool.and_eq_true] at areShaped
              have filled := (shaped_lay first stop tokens supplied (by omega) areShaped.1).2 covers
              have isFront : (lay stop tokens first).tree ∈
                  (layAll stop tokens (first :: more)).trees.head? := rfl
              have hasShape : Tree.HasShape construct
                  (.node slot construct (hull stop (layAll stop tokens (first :: more)).trees)
                    (layAll stop tokens (first :: more)).trees) :=
                Tree.hasShape_of_front ordered admits filled
                  (by rw [construct?_lay]; exact notLate) (hull_start isFront)
                  (fun _ => hull_stop) word
              refine ⟨Tree.shaped_node hasShape below, fun _ => ?_⟩
              have inside := ordered.forward
                (List.mem_map_of_mem (f := Tree.span) (List.mem_of_mem_head? isFront))
              unfold Tree.IsFilled at *
              exact Nat.lt_of_le_of_lt inside.1 (Nat.lt_of_lt_of_le filled inside.2.2)

theorem shaped_layAll {upper : Nat} {trailing : List Span} :
    ∀ (skeletons : List Skeleton) (stop : Nat) (tokens : List Token),
      Supplied upper trailing stop tokens -> Skeleton.leafCounts skeletons ≤ tokens.length ->
      Skeleton.areShaped skeletons = true ->
      ∀ tree ∈ (layAll stop tokens skeletons).trees, tree.Shaped
  | [], _, _, _, _, _ => by simp [layAll]
  | first :: more, stop, tokens, supplied, enough, areShaped => by
      simp only [Skeleton.areShaped, Bool.and_eq_true] at areShaped
      simp only [Skeleton.leafCounts] at enough
      have head := shaped_lay first stop tokens supplied (by omega) areShaped.1
      have restEnough : Skeleton.leafCounts more ≤ (lay stop tokens first).rest.length := by
        rw [rest_lay, List.length_drop]
        omega
      have tail := shaped_layAll more _ _ (supplied.rest first) restEnough areShaped.2
      rw [layAll]
      intro tree member
      rcases List.mem_cons.mp member with rfl | member
      · exact head.1
      · rcases List.mem_append.mp member with isComment | isTree
        · rcases List.mem_map.mp isComment with ⟨span, _, rfl⟩
          exact Tree.shaped_comment span
        · exact tail tree isTree

end

/-!
# Leaves
-/

namespace Tree

theorem leavesOf_comments (spans : List Span) : leavesOf (spans.map comment) = spans := by
  induction spans with
  | nil => rfl
  | cons span rest ih =>
      rw [List.map_cons, leavesOf, ih]
      rfl

end Tree

theorem leaves_gap (stop : Nat) : (Tree.token ⟨stop, stop⟩).leaves = [] := by
  rw [Tree.leaves, if_neg (Nat.lt_irrefl stop)]

mutual

/-- Laying puts the tokens and their comments into the tree in order, and leaves the others over. -/
theorem leaves_lay : ∀ (skeleton : Skeleton) (stop : Nat) (tokens : List Token),
    (∀ token ∈ tokens, token.IsFilled) ->
    (lay stop tokens skeleton).comments ++ (lay stop tokens skeleton).tree.leaves ++
      (lay stop tokens skeleton).rest.flatMap Token.spans = tokens.flatMap Token.spans
  | .leaf, stop, [], _ => by rw [lay, leaves_gap]; rfl
  | .leaf, _, token :: rest, filled => by
      rw [lay, Tree.leaves_token_of_lt (filled token List.mem_cons_self), List.flatMap_cons]
      rfl
  | .gap, stop, tokens, _ => by rw [lay, leaves_gap]; rfl
  | .node slot construct children, stop, tokens, filled => by
      rw [lay, Tree.leaves]
      exact leavesOf_layAll children stop tokens filled

theorem leavesOf_layAll : ∀ (skeletons : List Skeleton) (stop : Nat) (tokens : List Token),
    (∀ token ∈ tokens, token.IsFilled) ->
    (layAll stop tokens skeletons).comments ++ Tree.leavesOf (layAll stop tokens skeletons).trees ++
      (layAll stop tokens skeletons).rest.flatMap Token.spans = tokens.flatMap Token.spans
  | [], _, _, _ => rfl
  | first :: more, stop, tokens, filled => by
      have restFilled : ∀ token ∈ (lay stop tokens first).rest, token.IsFilled := by
        intro token member
        rw [rest_lay] at member
        exact filled token (List.mem_of_mem_drop member)
      have head := leaves_lay first stop tokens filled
      have tail := leavesOf_layAll more (lay stop tokens first).stop (lay stop tokens first).rest
        restFilled
      rw [layAll, Tree.leavesOf, Tree.leavesOf_append, Tree.leavesOf_comments]
      simp only [List.append_assoc] at head tail ⊢
      rw [tail, head]

end

/-!
# Boundaries
-/

/-- What a laid tree takes up begins and ends between characters. -/
structure Laid.Bounded (text : List Char) (laid : Laid) : Prop where
  tree : laid.tree.Everywhere (Tree.Bounded text)
  comments : ∀ span ∈ laid.comments, IsBoundary text span.start ∧ IsBoundary text span.stop
  stop : IsBoundary text laid.stop

structure LaidList.Bounded (text : List Char) (laid : LaidList) : Prop where
  trees : ∀ tree ∈ laid.trees, tree.Everywhere (Tree.Bounded text)
  comments : ∀ span ∈ laid.comments, IsBoundary text span.start ∧ IsBoundary text span.stop
  stop : IsBoundary text laid.stop

section

variable {text : List Char}

theorem bounded_comments {spans : List Span}
    (bounded : ∀ span ∈ spans, IsBoundary text span.start ∧ IsBoundary text span.stop) :
    ∀ tree ∈ spans.map Tree.comment, tree.Everywhere (Tree.Bounded text) := by
  intro tree member
  rcases List.mem_map.mp member with ⟨span, isSpan, rfl⟩
  exact .intro ⟨(bounded span isSpan).1, (bounded span isSpan).2⟩ nofun

theorem bounded_hull {stop : Nat} {trees : List Tree} (isStop : IsBoundary text stop)
    (bounded : ∀ tree ∈ trees, tree.Everywhere (Tree.Bounded text)) :
    IsBoundary text (hull stop trees).start ∧ IsBoundary text (hull stop trees).stop := by
  unfold hull
  split
  · next first last isFirst isLast =>
      exact ⟨(bounded first (List.mem_of_mem_head? isFirst)).here.start,
        (bounded last (List.mem_of_getLast? isLast)).here.stop⟩
  · exact ⟨isStop, isStop⟩

mutual

theorem bounded_lay : ∀ (skeleton : Skeleton) (stop : Nat) (tokens : List Token),
    IsBoundary text stop ->
    (∀ span ∈ tokens.flatMap Token.spans, IsBoundary text span.start ∧ IsBoundary text span.stop) ->
    (lay stop tokens skeleton).Bounded text
  | .leaf, stop, [], isStop, _ => ⟨.intro ⟨isStop, isStop⟩ nofun, nofun, isStop⟩
  | .leaf, _, token :: rest, _, bounded => by
      have inFront : ∀ span ∈ token.spans,
          IsBoundary text span.start ∧ IsBoundary text span.stop :=
        fun span member => bounded span (List.mem_append_left _ member)
      have here := inFront token.span (List.mem_append_right _ (List.mem_singleton_self _))
      exact ⟨.intro ⟨here.1, here.2⟩ nofun,
        fun span member => inFront span (List.mem_append_left _ member), here.2⟩
  | .gap, stop, _, isStop, _ => ⟨.intro ⟨isStop, isStop⟩ nofun, nofun, isStop⟩
  | .node slot construct children, stop, tokens, isStop, bounded => by
      have laid := bounded_layAll children stop tokens isStop bounded
      have isHull := bounded_hull isStop laid.trees
      rw [lay]
      exact ⟨.intro ⟨isHull.1, isHull.2⟩ laid.trees, laid.comments, laid.stop⟩

theorem bounded_layAll : ∀ (skeletons : List Skeleton) (stop : Nat) (tokens : List Token),
    IsBoundary text stop ->
    (∀ span ∈ tokens.flatMap Token.spans, IsBoundary text span.start ∧ IsBoundary text span.stop) ->
    (layAll stop tokens skeletons).Bounded text
  | [], _, _, isStop, _ => ⟨nofun, nofun, isStop⟩
  | first :: more, stop, tokens, isStop, bounded => by
      have head := bounded_lay first stop tokens isStop bounded
      have tail := bounded_layAll more (lay stop tokens first).stop (lay stop tokens first).rest
        head.stop (by
          intro span member
          rw [rest_lay] at member
          rcases List.mem_flatMap.mp member with ⟨token, isToken, isSpan⟩
          exact bounded span (List.mem_flatMap.mpr ⟨token, List.mem_of_mem_drop isToken, isSpan⟩))
      rw [layAll]
      refine ⟨?_, head.comments, tail.stop⟩
      intro tree member
      rcases List.mem_cons.mp member with rfl | member
      · exact head.tree
      · rcases List.mem_append.mp member with isComment | isTree
        · exact bounded_comments tail.comments tree isComment
        · exact tail.trees tree isTree

end

end

/-!
# Whole texts
-/

theorem supplied_tokenize (text : String) :
    Supplied text.utf8ByteSize (tokenize text).trailing 0 (tokenize text).tokens where
  between := between_tokenize text
  filled := fun _ member => isFilled_of_mem_tokenize member

section

variable {text : String} {construct : Construct} {skeletons : List Skeleton}
  (complete : Skeleton.leafCounts skeletons = (tokenize text).tokens.length)

/-- The tree of `text` with the children `skeletons`. -/
def layText (text : String) (construct : Construct) (skeletons : List Skeleton) : Tree :=
  layUnit text.utf8ByteSize (tokenize text) construct skeletons

theorem children_layText :
    (layText text construct skeletons).children =
      (layAll 0 (tokenize text).tokens skeletons).comments.map Tree.comment ++
        (layAll 0 (tokenize text).tokens skeletons).trees ++
          (tokenize text).trailing.map Tree.comment :=
  rfl

theorem everywhere_layText {holds : Tree -> Prop} (here : holds (layText text construct skeletons))
    (comments : ∀ span ∈ (layAll 0 (tokenize text).tokens skeletons).comments ++
      (tokenize text).trailing, (Tree.comment span).Everywhere holds)
    (trees : ∀ tree ∈ (layAll 0 (tokenize text).tokens skeletons).trees, tree.Everywhere holds) :
    (layText text construct skeletons).Everywhere holds := by
  refine .intro here ?_
  intro tree member
  rcases List.mem_append.mp member with inFront | isTrailing
  · rcases List.mem_append.mp inFront with isComment | isTree
    · rcases List.mem_map.mp isComment with ⟨span, isSpan, rfl⟩
      exact comments span (List.mem_append_left _ isSpan)
    · exact trees tree isTree
  · rcases List.mem_map.mp isTrailing with ⟨span, isSpan, rfl⟩
    exact comments span (List.mem_append_right _ isSpan)

theorem bounded_layText :
    (layText text construct skeletons).Everywhere (Tree.Bounded text.toList) := by
  have bounded {span : Span} (member : span ∈ (tokenize text).spans) :
      IsBoundary text.toList span.start ∧ IsBoundary text.toList span.stop :=
    ⟨(of_mem_spans_tokenize member).1, (of_mem_spans_tokenize member).2.1⟩
  have atStart : IsBoundary text.toList 0 := ⟨[], text.toList, rfl, rfl⟩
  have atEnd : IsBoundary text.toList text.utf8ByteSize := by
    refine ⟨text.toList, [], (List.append_nil _).symm, ?_⟩
    rw [← utf8ByteSize_ofList, String.ofList_toList]
  have laid := bounded_layAll skeletons 0 (tokenize text).tokens atStart
    fun span member => bounded (List.mem_append_left _ member)
  have comments : ∀ span ∈ (layAll 0 (tokenize text).tokens skeletons).comments ++
      (tokenize text).trailing, (Tree.comment span).Everywhere (Tree.Bounded text.toList) := by
    intro span member
    rcases List.mem_append.mp member with inFront | isTrailing
    · exact bounded_comments laid.comments _ (List.mem_map_of_mem inFront)
    · have isSpan := bounded (List.mem_append_right _ isTrailing)
      exact .intro ⟨isSpan.1, isSpan.2⟩ nofun
  refine everywhere_layText ⟨?_, atEnd⟩ comments laid.trees
  rw [layText, layUnit]
  dsimp only [Tree.span]
  split
  · next first isFirst =>
      have member := List.mem_of_mem_head? isFirst
      rcases List.mem_append.mp member with inFront | isTrailing
      · rcases List.mem_append.mp inFront with isComment | isTree
        · rcases List.mem_map.mp isComment with ⟨span, isSpan, rfl⟩
          exact (comments span (List.mem_append_left _ isSpan)).here.start
        · exact (laid.trees first isTree).here.start
      · rcases List.mem_map.mp isTrailing with ⟨span, isSpan, rfl⟩
        exact (comments span (List.mem_append_right _ isSpan)).here.start
  · exact atEnd

include complete

theorem rest_layText : (layAll 0 (tokenize text).tokens skeletons).rest = [] := by
  rw [rest_layAll, complete, List.drop_length]

theorem between_layText :
    Between 0 text.utf8ByteSize ((layText text construct skeletons).children.map Tree.span) := by
  have fits := fits_layAll skeletons 0 (tokenize text).tokens (between_tokenize text)
  have behind := fits.after
  rw [rest_layText complete] at behind
  have isSpan : Tree.span ∘ Tree.comment = id := rfl
  have joined := between_append.mpr ⟨_, fits.before, behind⟩
  rw [children_layText]
  simpa [isSpan] using joined

theorem ordered_layText : (layText text construct skeletons).Ordered := by
  have fits := fits_layAll skeletons 0 (tokenize text).tokens (between_tokenize text)
  have all : Between 0 text.utf8ByteSize
      ((layText text construct skeletons).children.map Tree.span) := between_layText complete
  refine everywhere_layText ?_ ?_ fits.ordered
  · rw [children_layText] at all
    show Between _ text.utf8ByteSize _
    rw [layText, layUnit]
    dsimp only [Tree.span, Tree.parts]
    generalize (layAll 0 (tokenize text).tokens skeletons).comments.map Tree.comment ++
      (layAll 0 (tokenize text).tokens skeletons).trees ++
        (tokenize text).trailing.map Tree.comment = trees at all ⊢
    cases trees with
    | nil => exact Nat.le_refl _
    | cons first more => exact ⟨Nat.le_refl _, all.2⟩
  · intro span member
    apply Tree.ordered_comment
    have isChild : Tree.comment span ∈ (layText text construct skeletons).children := by
      rw [children_layText]
      rcases List.mem_append.mp member with inFront | isTrailing
      · exact List.mem_append_left _ (List.mem_append_left _ (List.mem_map_of_mem inFront))
      · exact List.mem_append_right _ (List.mem_map_of_mem isTrailing)
    exact (all.forward (List.mem_map_of_mem (f := Tree.span) isChild)).2.1

theorem shaped_layText (isUnit : construct.isUnit = true)
    (isShaped : (Skeleton.node .plain construct skeletons).isShaped = true) :
    (layText text construct skeletons).Shaped := by
  simp only [Skeleton.isShaped, Bool.and_eq_true] at isShaped
  rcases isShaped with ⟨⟨⟨admits, _⟩, _⟩, areShaped⟩
  have shaped := shaped_layAll skeletons 0 (tokenize text).tokens (supplied_tokenize text)
    (Nat.le_of_eq complete) areShaped
  refine everywhere_layText ?_ (fun span _ => Tree.shaped_comment span) shaped
  intro other isNode
  rcases Option.some.inj isNode with rfl
  apply Tree.hasShape_of_isUnit isUnit
  rw [children_layText, List.filterMap_append, List.filterMap_append, seats_comments,
    seats_comments, seats_layAll]
  simpa using admits

theorem leaves_layText :
    (layText text construct skeletons).leaves = (cuttingOf text.toList).spans := by
  have all := leavesOf_layAll skeletons 0 (tokenize text).tokens (supplied_tokenize text).filled
  rw [rest_layText complete, List.flatMap_nil, List.append_nil] at all
  rw [layText, layUnit, Tree.leaves, Tree.leavesOf_append, Tree.leavesOf_append,
    Tree.leavesOf_comments, Tree.leavesOf_comments, all, ← spans_tokenize]
  rfl

end

end Java
end CommandWiring
