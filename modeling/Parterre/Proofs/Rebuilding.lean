import Parterre.Proofs.GraphStore

/-! # Edges that follow the nodes

Finding the edges anew forgets the old ones, so what comes out depends on the nodes alone: graphs
with the same nodes get the same edges, and to do it once more changes nothing.  `rebuildInPasses`
takes one edge at a time: it drops the old edges through the index, holds each sector against every
later one, and counts the edges that it makes. -/
namespace Parterre

namespace Graph
variable {g : Graph}

/-! ### Making edges one by one -/

/-- A graph in the making, with the number of edges made so far. -/
structure Joining where
  graph : Graph
  made : Nat

namespace Joining

/-- Makes one more edge, which counts unless its ends cannot be joined. -/
def join (s : Joining) (c : Contact) : Joining where
  graph := s.graph.connect c.a c.b c.border
  made := if s.graph.joinable c.a c.b then s.made + 1 else s.made

/-- Holds a sector against the later ones in their order. -/
def joinLater (thickness : Float32) (a : NodeId × Rect) :
    List (NodeId × Rect) → Joining → Joining
  | [], s => s
  | b :: later, s => joinLater thickness a later <|
    match a.2.borderBetween b.2 thickness with
    | none => s
    | some border => s.join ⟨a.1, b.1, border.longBorder?⟩

/-- Holds each sector against the later ones. -/
def joinEach (thickness : Float32) : List (NodeId × Rect) → Joining → Joining
  | [], s => s
  | a :: later, s => joinEach thickness later (joinLater thickness a later s)

variable {thickness : Float32}

private theorem joinLater_eq (a : NodeId × Rect) (later : List (NodeId × Rect)) (s : Joining) :
    joinLater thickness a later s = (later.filterMap (contact? thickness a)).foldl join s := by
  induction later generalizing s with
  | nil => rfl
  | cons b later ih =>
    rw [joinLater, List.filterMap_cons, contact?]
    cases a.2.borderBetween b.2 thickness with
    | none => exact ih s
    | some border => exact ih (s.join ⟨a.1, b.1, border.longBorder?⟩)

theorem joinEach_eq (sectors : List (NodeId × Rect)) (s : Joining) :
    joinEach thickness sectors s = (contactsAmong thickness sectors).foldl join s := by
  induction sectors generalizing s with
  | nil => rfl
  | cons a later ih => rw [joinEach, ih, joinLater_eq, contactsAmong, List.foldl_append]

theorem foldl_join (cs : List Contact) (s : Joining)
    (h : ∀ c ∈ cs, s.graph.joinable c.a c.b = true) :
    cs.foldl join s =
      ⟨cs.foldl (fun g c => g.connect c.a c.b c.border) s.graph, s.made + cs.length⟩ := by
  induction cs generalizing s with
  | nil => rfl
  | cons c cs ih =>
    have hmade : (s.join c).made = s.made + 1 := if_pos (h c List.mem_cons_self)
    have hrest : ∀ d ∈ cs, (s.join c).graph.joinable d.a d.b = true := by
      intro d hd
      simpa only [join, joinable, contains_connect] using h d (List.mem_cons_of_mem c hd)
    rw [List.foldl_cons, ih _ hrest, hmade, List.foldl_cons, List.length_cons, Nat.add_assoc,
      Nat.add_comm 1]
    rfl

end Joining

/-- Drops the old edges and makes the new ones, one by one. -/
def rebuildInPasses (g : Graph) (thickness : Float32) : Joining :=
  Joining.joinEach thickness g.sectors ⟨g.purge, 0⟩

variable {thickness : Float32}

private theorem Implements.rebuildInPasses_eq {p : PlainGraph} (h : g.Implements p)
    (thickness : Float32) : g.rebuildInPasses thickness =
      ⟨g.rebuildAdjacency thickness, (g.rebuildAdjacency thickness).edgeCount⟩ := by
  have hjoinable : ∀ c ∈ g.contacts thickness, g.clearEdges.joinable c.a c.b = true :=
    fun c hc => joinable_of_mem_contacts hc
  have hmade := Joining.foldl_join (g.contacts thickness) ⟨g.clearEdges, 0⟩ hjoinable
  rw [rebuildInPasses, h.purge_eq, Joining.joinEach_eq, edgeCount_rebuildAdjacency,
    ← Nat.zero_add (g.contacts thickness).length]
  exact hmade

/-! ### The nodes decide -/

theorem elements_eq_of_nodes {g g' : Graph} (h : g'.nodes = g.nodes) :
    g'.elements = g.elements := by
  refine Table.ext_get? fun id => Option.ext fun e => ?_
  have hiff : (⟨id, e⟩ : Node) ∈ g'.nodes ↔ ⟨id, e⟩ ∈ g.nodes := by rw [h]
  rwa [mem_nodes_iff, mem_nodes_iff] at hiff

@[simp] theorem elements_rebuildAdjacency (g : Graph) (thickness : Float32) :
    (g.rebuildAdjacency thickness).elements = g.elements :=
  Table.ext_get? (element?_rebuildAdjacency g thickness)

/-- Whether an edge is made depends on the nodes, and where it is held on the edges so far. -/
theorem connect_congr {g g' : Graph} (helements : g'.elements = g.elements)
    (hborders : g'.borders = g.borders) (hincident : g'.incident = g.incident) (a b : NodeId)
    (border : Option Rect) : (g'.connect a b border).borders = (g.connect a b border).borders ∧
      (g'.connect a b border).incident = (g.connect a b border).incident := by
  have hjoinable : g'.joinable a b = g.joinable a b := by
    simp only [joinable, contains, helements]
  unfold connect
  cases Ends.of? a b with
  | none => exact ⟨hborders, hincident⟩
  | some ends =>
    rw [hjoinable]
    cases g.joinable a b with
    | false => exact ⟨hborders, hincident⟩
    | true => simp [hborders, hincident]

private theorem connectAll_congr (cs : List Contact) {g g' : Graph}
    (helements : g'.elements = g.elements)
    (hborders : g'.borders = g.borders) (hincident : g'.incident = g.incident) :
    (cs.foldl (fun g c => g.connect c.a c.b c.border) g').borders =
        (cs.foldl (fun g c => g.connect c.a c.b c.border) g).borders ∧
      (cs.foldl (fun g c => g.connect c.a c.b c.border) g').incident =
        (cs.foldl (fun g c => g.connect c.a c.b c.border) g).incident := by
  induction cs generalizing g g' with
  | nil => exact ⟨hborders, hincident⟩
  | cons c cs ih =>
    have hsame (g : Graph) : (g.connect c.a c.b c.border).elements = g.elements :=
      Table.ext_get? (element?_connect g c.a c.b c.border)
    obtain ⟨hborders', hincident'⟩ :=
      connect_congr helements hborders hincident c.a c.b c.border
    exact ih (by rw [hsame, hsame, helements]) hborders' hincident'

theorem rebuildAdjacency_congr {g g' : Graph} (h : g'.nodes = g.nodes) (thickness : Float32) :
    (g'.rebuildAdjacency thickness).borders = (g.rebuildAdjacency thickness).borders ∧
      (g'.rebuildAdjacency thickness).incident = (g.rebuildAdjacency thickness).incident := by
  have hcontacts : g'.contacts thickness = g.contacts thickness := by
    rw [contacts, contacts, sectors, sectors, h]
  rw [rebuildAdjacency, rebuildAdjacency, hcontacts]
  exact connectAll_congr (g.contacts thickness) (elements_eq_of_nodes h) rfl rfl

@[simp] theorem nodes_rebuildAdjacency (g : Graph) (thickness : Float32) :
    (g.rebuildAdjacency thickness).nodes = g.nodes := by
  rw [nodes, nodes, elements_rebuildAdjacency]

@[simp] theorem rebuildAdjacency_idem (g : Graph) (thickness : Float32) :
    (g.rebuildAdjacency thickness).rebuildAdjacency thickness = g.rebuildAdjacency thickness := by
  obtain ⟨hborders, hincident⟩ :=
    rebuildAdjacency_congr (nodes_rebuildAdjacency g thickness) thickness
  exact Graph.ext (elements_rebuildAdjacency _ thickness) hborders hincident
    (nextId_rebuildAdjacency _ thickness) (changes_rebuildAdjacency _ thickness)

theorem sectorRect?_eq_some_iff {id : NodeId} {rect : Rect} :
    g.sectorRect? id = some rect ↔
      ∃ e, g.element? id = some e ∧ e.symbol.isSector = true ∧ e.rect? = some rect := by
  unfold sectorRect? Element.sectorRect?
  rw [Option.bind_eq_some_iff]
  refine exists_congr fun e => and_congr_right fun _ => ?_
  cases e.symbol.isSector <;> simp

/-- The pair that a sector and a later one make is joined if they share a border. -/
theorem edge?_rebuildAdjacency_iff {a b : NodeId} (hab : a < b) {e : Edge} :
    (g.rebuildAdjacency thickness).edge? a b = some e ↔ ∃ x y ra rb border,
      (g.element? a = some x ∧ x.symbol.isSector = true ∧ x.rect? = some ra) ∧
      (g.element? b = some y ∧ y.symbol.isSector = true ∧ y.rect? = some rb) ∧
      ra.borderBetween rb thickness = some border ∧ e = ⟨⟨a, b, hab⟩, border.longBorder?⟩ := by
  rw [edge?_of_contacts (edges_rebuildAdjacency g thickness) hab]
  simp only [Option.bind_eq_some_iff, Option.map_eq_some_iff, sectorRect?_eq_some_iff]
  constructor
  · rintro ⟨ra, ⟨x, hx⟩, rb, ⟨y, hy⟩, border, hborder, rfl⟩
    exact ⟨x, y, ra, rb, border, hx, hy, hborder, rfl⟩
  · rintro ⟨x, y, ra, rb, border, hx, hy, hborder, rfl⟩
    exact ⟨ra, ⟨x, hx⟩, rb, ⟨y, hy⟩, border, hborder, rfl⟩

/-- The edges that are found anew follow from the nodes alone, whatever was joined before: two nodes
are joined exactly if both are sectors and share a border, which is kept if it is long enough.  The
nodes stay, and the count given back is that of the edges.  Going through all pairs, with the old
edges dropped one by one through the index, comes to the same, as long as the index was in step;
graphs with the same nodes get the same edges; and to do it once more changes nothing. -/
theorem rebuilt_edges_follow_nodes (g : Graph) (thickness : Float32) :
    let r := g.rebuildAdjacency thickness
    (∀ a b, ∀ hab : a < b, ∀ e, r.edge? a b = some e ↔ ∃ x y ra rb border,
      (g.element? a = some x ∧ x.symbol.isSector = true ∧ x.rect? = some ra) ∧
      (g.element? b = some y ∧ y.symbol.isSector = true ∧ y.rect? = some rb) ∧
      ra.borderBetween rb thickness = some border ∧ e = ⟨⟨a, b, hab⟩, border.longBorder?⟩) ∧
    (∀ e, e ∈ r.edges ↔ r.edge? e.ends.low e.ends.high = some e) ∧
    (r.nodes = g.nodes ∧ r.nextId = g.nextId ∧ r.changes = g.changes) ∧
    store.answer g (.rebuild thickness) = .count r.edgeCount ∧
    (∀ p, g.Implements p → g.rebuildInPasses thickness = ⟨r, r.edgeCount⟩) ∧
    (∀ g', g'.nodes = g.nodes → (g'.rebuildAdjacency thickness).edges = r.edges ∧
      (∀ id, (g'.rebuildAdjacency thickness).neighbors id = r.neighbors id) ∧
      store.answer g' (.rebuild thickness) = .count r.edgeCount) ∧
    r.rebuildAdjacency thickness = r ∧
    store.answer r (.rebuild thickness) = .count r.edgeCount := by
  intro r
  have hcount (g' : Graph) (h : g'.nodes = g.nodes) :
      store.answer g' (.rebuild thickness) = .count r.edgeCount := by
    have hedges : (g'.rebuildAdjacency thickness).edges = r.edges := by
      rw [edges, edges, (rebuildAdjacency_congr h thickness).1]
    change Answer.count (g'.contacts thickness).length = _
    rw [← edgeCount_rebuildAdjacency, edgeCount, hedges, edgeCount]
  refine ⟨fun a b hab e => edge?_rebuildAdjacency_iff hab, fun e => ?_,
    ⟨nodes_rebuildAdjacency g thickness, nextId_rebuildAdjacency g thickness,
      changes_rebuildAdjacency g thickness⟩,
    hcount g rfl, fun p h => h.rebuildInPasses_eq thickness, fun g' h => ?_,
    rebuildAdjacency_idem g thickness, hcount r (nodes_rebuildAdjacency g thickness)⟩
  · rw [edge?_eq_some_iff e.ends.low_lt_high]
    exact ⟨fun he => ⟨he, rfl⟩, And.left⟩
  · obtain ⟨hborders, hincident⟩ := rebuildAdjacency_congr h thickness
    refine ⟨?_, fun id => ?_, hcount g' h⟩
    · rw [edges, edges, hborders]
    · rw [neighbors, neighbors, hincident]

/-- Three sectors and a tree, joined as they should not be. -/
def misjoined : List Operation :=
  [.add (.grassRect ⟨0.0, 0.0, 100.0, 100.0⟩), .add (.area ⟨100.0, 0.0, 100.0, 100.0⟩ 2),
    .add (.treeCircle ⟨⟨50.0, 50.0⟩, 20.0⟩), .add (.flowerArea ⟨100.0, 92.0, 100.0, 100.0⟩),
    .connect 3 1 (some ⟨50.0, 50.0, 10.0, 40.0⟩), .connect 2 4 none].map .edit

/-- Both edges go; the first sector is joined with the other two, and its border with the last one
is too short to be kept. -/
theorem rebuilt_edges_follow_nodes_misjoined :
    let g := store.performAll empty misjoined
    let p := PlainGraph.store.performAll .empty misjoined
    let r := g.rebuildAdjacency 10.0
    g.edges.map Edge.ends = [⟨1, 3, by decide⟩, ⟨2, 4, by decide⟩] ∧
    r.edges = [⟨⟨1, 2, by decide⟩, some ⟨100.0, 0.0, 10.0, 100.0⟩⟩, ⟨⟨1, 4, by decide⟩, none⟩] ∧
    (g.Implements p ∧ g.rebuildInPasses 10.0 = ⟨r, 2⟩) ∧
    g.clearEdges.nodes = g.nodes ∧ (g.clearEdges.rebuildAdjacency 10.0).edges = r.edges := by
  intro g p r
  have hedges : r.edges = [⟨⟨1, 2, by decide⟩, some ⟨100.0, 0.0, 10.0, 100.0⟩⟩,
      ⟨⟨1, 4, by decide⟩, none⟩] := by decide +kernel
  have hindex : g.Implements p := (implements_empty.performAll misjoined).2
  obtain ⟨-, -, -, -, hpasses, hcongr, -⟩ := rebuilt_edges_follow_nodes g 10.0
  have hcount : r.edgeCount = 2 := congrArg List.length hedges
  have hmade := hpasses p hindex
  rw [hcount] at hmade
  exact ⟨by decide +kernel, hedges, ⟨hindex, hmade⟩, rfl, (hcongr g.clearEdges rfl).1⟩

end Graph
end Parterre
