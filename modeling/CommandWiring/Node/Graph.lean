import CommandWiring.Node.Basic

/-!
# Graphs of nodes built by hand

A graph lists its nodes with all the answers spelled out. Children and parents are indices into the
same graph, so a graph may be cyclic, share children, or disagree with itself about who is whose
parent.
-/

namespace CommandWiring

structure GraphEntry (size : Nat) where
  kind : NodeKind
  role : NodeRole
  name? : Option String
  text : String
  mentions : List String
  parent? : Option (Fin size)
  children : List (Fin size)

structure Graph where
  size : Nat
  entries : Vector (GraphEntry size) size

namespace Graph

structure Node (graph : Graph) where
  index : Fin graph.size
deriving DecidableEq

def Node.entry {graph : Graph} (node : graph.Node) : GraphEntry graph.size :=
  graph.entries[node.index]

instance (graph : Graph) : SyntaxNode graph.Node where
  kind node := node.entry.kind
  role node := node.entry.role
  parent? node := node.entry.parent?.map Node.mk
  children node := node.entry.children.map Node.mk
  mentions node := node.entry.mentions
  name? node := node.entry.name?
  text node := node.entry.text

def node? (graph : Graph) (index : Nat) : Option graph.Node :=
  if bound : index < graph.size then some { index := ⟨index, bound⟩ } else none

end Graph

/-!
# Runs of equal nodes

A description gives one entry per group of nodes. A group of `count` nodes is a chain: each but the
last has the next one as its only child, and the last has the children of the description.
-/

structure GraphGroup where
  kind : NodeKind
  role : NodeRole
  name? : Option String
  text : String
  mentions : List String
  children : List Nat
  parent? : Option Nat
  count : Nat

namespace Graph

/-- The child lists of the nodes of `groups`, the first of which has index `start`. -/
def childLists : Nat -> List GraphGroup -> List (List Nat)
  | _, [] => []
  | start, group :: rest =>
      (List.range group.count).map (fun offset =>
        if offset + 1 = group.count then group.children else [start + offset + 1]) ++
      childLists (start + group.count) rest

/-- The parents stated by `groups`, each for the first node of its group. -/
def statedParents : Nat -> List GraphGroup -> List (Nat × Nat)
  | _, [] => []
  | start, group :: rest =>
      (match group.parent? with
        | some parent => [(start, parent)]
        | none => []) ++
      statedParents (start + group.count) rest

/-- The pairs of a child and its parent that `lists` give, in the order of the lists. -/
def listedParents (lists : List (List Nat)) : List (Nat × Nat) :=
  lists.zipIdx.flatMap fun (children, parent) => children.map fun child => (child, parent)

def setParents (parents : Array (Option Nat)) (pairs : List (Nat × Nat)) : Array (Option Nat) :=
  pairs.foldl (fun known (child, parent) => known.setIfInBounds child (some parent)) parents

def indexBelow? (size : Nat) (index : Nat) : Option (Fin size) :=
  if bound : index < size then some ⟨index, bound⟩ else none

/-- The graph that `groups` describe. A node's parent is the last node that lists it, unless its
group states another; indices outside the graph are left out. -/
def ofGroups (groups : List GraphGroup) : Graph :=
  let lists := (childLists 0 groups).toArray
  let fields := (groups.flatMap fun group => List.replicate group.count group).toArray
  let size := fields.size
  let parents := setParents
    (setParents (Array.replicate size none) (listedParents lists.toList)) (statedParents 0 groups)
  { size := size
    entries := Vector.ofFn fun index =>
      let group := fields[index]
      { kind := group.kind
        role := group.role
        name? := group.name?
        text := group.text
        mentions := group.mentions
        parent? := (parents.getD index none).bind (indexBelow? size)
        children := (lists.getD index []).filterMap (indexBelow? size) } }

end Graph
end CommandWiring
