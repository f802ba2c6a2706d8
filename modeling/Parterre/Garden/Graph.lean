import Parterre.Garden.Symbol
import Parterre.Table

/-! # The derivation graph

Nodes carry elements, and an edge between two nodes may carry the border of their rectangles.  Ids
are given out in ascending order and never again, so the nodes are in the order in which they came.
Beside the edges the graph keeps for each node the set of its neighbours; removing a node reads the
edges to drop off that set.  A graph can record which nodes were added or changed, for a scheduler
that asks for them. -/
namespace Parterre

abbrev NodeId := Nat

structure Node where
  id : NodeId
  element : Element
  deriving DecidableEq, Inhabited

namespace Node

def symbol (n : Node) : Symbol := n.element.symbol

def shape (n : Node) : Shape := n.element.shape

end Node

/-- The two ends of an edge, lower id first. -/
structure Ends where
  low : NodeId
  high : NodeId
  low_lt_high : low < high
  deriving DecidableEq

namespace Ends

instance : Ord Ends := ⟨compareLex (compareOn Ends.low) (compareOn Ends.high)⟩

instance : Std.TransOrd Ends :=
  inferInstanceAs (Std.TransCmp (compareLex (compareOn Ends.low) (compareOn Ends.high)))

instance : Std.LawfulEqOrd Ends where
  eq_of_compare {x y} h := by
    obtain ⟨hl, hh⟩ := Ordering.then_eq_eq.1 h
    cases x
    cases y
    cases Std.LawfulEqOrd.eq_of_compare hl
    cases Std.LawfulEqOrd.eq_of_compare hh
    rfl

/-- The ends of an edge between two nodes, in either order; no edge joins a node with itself. -/
def of? (a b : NodeId) : Option Ends :=
  if h : a < b then some ⟨a, b, h⟩ else if h : b < a then some ⟨b, a, h⟩ else none

theorem of?_comm (a b : NodeId) : of? a b = of? b a := by
  rcases Nat.lt_trichotomy a b with h | rfl | h
  · simp [of?, h, Nat.lt_asymm h]
  · rfl
  · simp [of?, h, Nat.lt_asymm h]

end Ends

/-- An edge, with the border of its ends if that is long enough to keep. -/
structure Edge where
  ends : Ends
  border : Option Rect
  deriving DecidableEq

/-- The end of an edge opposite to a given one. -/
def Edge.other (e : Edge) (id : NodeId) : Option NodeId :=
  if e.ends.low = id then some e.ends.high
  else if e.ends.high = id then some e.ends.low
  else none

abbrev IdSet := Table NodeId Unit

@[ext] structure Graph where
  elements : Table NodeId Element := ∅
  borders : Table Ends (Option Rect) := ∅
  /-- The neighbours of each node. -/
  incident : Table NodeId IdSet := ∅
  nextId : NodeId := 1
  /-- The nodes added or changed, in that order, if the graph records them. -/
  changes : Option (List NodeId) := none

namespace Graph

def empty : Graph := {}

/-! ### Nodes -/

def element? (g : Graph) (id : NodeId) : Option Element := g.elements.get? id

def node? (g : Graph) (id : NodeId) : Option Node := (g.element? id).map (Node.mk id)

def contains (g : Graph) (id : NodeId) : Bool := g.elements.contains id

def nodes (g : Graph) : List Node := g.elements.entries.map fun e => ⟨e.1, e.2⟩

def nodesWith (g : Graph) (s : Symbol) : List Node := g.nodes.filter fun n => n.symbol = s

def count (g : Graph) (s : Symbol) : Nat := (g.nodesWith s).length

def nodeCount (g : Graph) : Nat := g.nodes.length

def nonterminals (g : Graph) : List Node := g.nodes.filter fun n => n.symbol.isNonterminal

def hasNonterminals (g : Graph) : Bool := g.nodes.any fun n => n.symbol.isNonterminal

def record (g : Graph) (id : NodeId) : Graph :=
  { g with changes := g.changes.map (· ++ [id]) }

/-- Adds a node, whose id is the graph's next one. -/
def add (g : Graph) (e : Element) : Graph :=
  { g with elements := g.elements.insert g.nextId e, nextId := g.nextId + 1 }.record g.nextId

def addAll (g : Graph) (es : List Element) : Graph := es.foldl add g

/-- Gives a node another element; its id and its edges stay. -/
def replace (g : Graph) (id : NodeId) (e : Element) : Graph :=
  if g.contains id then { g with elements := g.elements.insert id e }.record id else g

@[simp] theorem element?_record (g : Graph) (i id : NodeId) :
    (g.record i).element? id = g.element? id := rfl

@[simp] theorem element?_add (g : Graph) (e : Element) (id : NodeId) :
    (g.add e).element? id = if g.nextId = id then some e else g.element? id :=
  Table.get?_insert _ _ _ _

@[simp] theorem nextId_add (g : Graph) (e : Element) : (g.add e).nextId = g.nextId + 1 := rfl

@[simp] theorem element?_replace (g : Graph) (i : NodeId) (e : Element) (id : NodeId) :
    (g.replace i e).element? id = if i = id ∧ g.contains i then some e else g.element? id := by
  unfold replace
  split
  · next h =>
    rw [element?_record]
    simp [element?, Table.get?_insert, h]
  · next h => simp [h]

/-! ### Edges -/

/-- All edges, by their lower and then by their higher end. -/
def edges (g : Graph) : List Edge := g.borders.entries.map fun e => ⟨e.1, e.2⟩

def edgeCount (g : Graph) : Nat := g.edges.length

/-- The edge between two nodes, given in either order. -/
def edge? (g : Graph) (a b : NodeId) : Option Edge :=
  (Ends.of? a b).bind fun ends => (g.borders.get? ends).map (Edge.mk ends)

/-- The ids of the nodes that share an edge with a node, in order. -/
def neighbors (g : Graph) (id : NodeId) : List NodeId :=
  ((g.incident.get? id).getD ∅).keys

/-- Whether an edge between two nodes is possible: both are there, and they differ. -/
def joinable (g : Graph) (a b : NodeId) : Bool := a ≠ b && g.contains a && g.contains b

def attach (incident : Table NodeId IdSet) (a b : NodeId) : Table NodeId IdSet :=
  incident.insert a (((incident.get? a).getD ∅).insert b ())

def detach (incident : Table NodeId IdSet) (a b : NodeId) : Table NodeId IdSet :=
  incident.adjust a (·.erase b)

/-- Joins two nodes by an edge with some border, instead of an earlier one; nodes that cannot be
joined leave the graph as it is. -/
def connect (g : Graph) (a b : NodeId) (border : Option Rect) : Graph :=
  match Ends.of? a b with
  | some ends =>
    if g.joinable a b then
      { g with
        borders := g.borders.insert ends border
        incident := attach (attach g.incident ends.low ends.high) ends.high ends.low }
    else g
  | none => g

def clearEdges (g : Graph) : Graph := { g with borders := ∅, incident := ∅ }

def dropBorder (borders : Table Ends (Option Rect)) (a b : NodeId) : Table Ends (Option Rect) :=
  match Ends.of? a b with
  | some ends => borders.erase ends
  | none => borders

/-- Drops an edge, and what the index has of it. -/
def dropEdge (g : Graph) (e : Edge) : Graph :=
  { g with
    borders := dropBorder g.borders e.ends.low e.ends.high
    incident := detach (detach g.incident e.ends.low e.ends.high) e.ends.high e.ends.low }

/-- Drops the edges one by one, and in the end the nodes without neighbours from the index.  While
the index is in step with the edges this is `clearEdges`. -/
def purge (g : Graph) : Graph :=
  let dropped := g.edges.foldl dropEdge g
  { dropped with incident := dropped.incident.retain fun set => set.size ≠ 0 }

def remove (g : Graph) (id : NodeId) : Graph :=
  if g.contains id then
    let others := g.neighbors id
    { g with
      elements := g.elements.erase id
      borders := others.foldl (fun borders other => dropBorder borders id other) g.borders
      incident :=
        others.foldl (fun incident other => detach incident other id) (g.incident.erase id) }
  else g

@[simp] theorem element?_connect (g : Graph) (a b : NodeId) (border : Option Rect) (id : NodeId) :
    (g.connect a b border).element? id = g.element? id := by
  unfold connect
  split
  · split <;> rfl
  · rfl

@[simp] theorem element?_clearEdges (g : Graph) (id : NodeId) :
    g.clearEdges.element? id = g.element? id :=
  rfl

@[simp] theorem element?_remove (g : Graph) (i id : NodeId) :
    (g.remove i).element? id = if i = id then none else g.element? id := by
  unfold remove
  split
  · exact Table.get?_erase _ _ _
  · next h =>
    split
    · next hi =>
      subst hi
      simpa [contains, Table.contains, element?] using h
    · rfl

/-! ### Changes -/

/-- Begins to record changes. -/
def trackChanges (g : Graph) : Graph := { g with changes := some (g.changes.getD []) }

/-- The changes since they were last forgotten; none while they are not recorded. -/
def recordedChanges (g : Graph) : List NodeId := g.changes.getD []

def forgetChanges (g : Graph) : Graph := { g with changes := g.changes.map fun _ => [] }

/-! ### Layout -/

/-- Whether a node is drawn before another one, or is the same: by layer, then by id. -/
def drawnBefore (m n : Node) : Bool :=
  m.symbol.drawLayer < n.symbol.drawLayer ||
    m.symbol.drawLayer = n.symbol.drawLayer && m.id ≤ n.id

/-- All nodes in the order in which they are drawn. -/
def layout (g : Graph) : List Node := g.nodes.mergeSort drawnBefore

end Graph
end Parterre
