import Parterre.Proofs.PlainGraphs

/-! # A graph and its index

Each edge is held three times: under its ends, and in the neighbour sets of both of them.  The
invariant is that the three agree with a plain graph, where nothing is held twice.  Every operation
preserves it, so whatever is asked of a graph, the plain graph answers the same. -/
namespace Parterre

namespace Ends

def pair (ends : Ends) : Sym2 NodeId := s(ends.low, ends.high)

theorem pair_injective : Function.Injective pair := by
  rintro ⟨a, b, hab⟩ ⟨c, d, hcd⟩ h
  rcases Sym2.eq_iff.1 h with ⟨rfl, rfl⟩ | ⟨rfl, rfl⟩
  · rfl
  · exact absurd hab (Nat.lt_asymm hcd)

theorem not_isDiag_pair (ends : Ends) : ¬ends.pair.IsDiag := fun h =>
  Nat.ne_of_lt ends.low_lt_high (Sym2.mk_isDiag_iff.1 h)

theorem of?_eq_some_iff {a b : NodeId} {ends : Ends} :
    of? a b = some ends ↔ s(a, b) = ends.pair := by
  obtain ⟨low, high, hlt⟩ := ends
  unfold of? pair
  rw [Sym2.eq_iff]
  constructor
  · intro h
    split at h
    · cases h
      exact .inl ⟨rfl, rfl⟩
    · split at h
      · cases h
        exact .inr ⟨rfl, rfl⟩
      · cases h
  · rintro (⟨rfl, rfl⟩ | ⟨rfl, rfl⟩)
    · rw [dif_pos hlt]
    · rw [dif_neg (Nat.lt_asymm hlt), dif_pos hlt]

theorem of?_eq_none_iff {a b : NodeId} : of? a b = none ↔ a = b := by
  unfold of?
  constructor
  · intro h
    split at h
    · cases h
    · split at h
      · cases h
      · lia
  · rintro rfl
    simp

theorem mk_eq_pair_iff {a b : NodeId} {ends : Ends} :
    s(a, b) = ends.pair ↔ (ends.high = a ∧ ends.low = b) ∨ (ends.low = a ∧ ends.high = b) := by
  rw [pair, Sym2.eq_iff, or_comm]
  simp only [eq_comm]

theorem pair_cases (pair : Sym2 NodeId) : pair.IsDiag ∨ ∃ ends : Ends, pair = ends.pair := by
  induction pair using Sym2.ind with
  | _ a b =>
    cases h : of? a b with
    | none => exact .inl (Sym2.mk_isDiag_iff.2 (of?_eq_none_iff.1 h))
    | some ends => exact .inr ⟨ends, of?_eq_some_iff.1 h⟩

end Ends

namespace Graph

/-! ### The borders by pairs -/

def borderOf (borders : Table Ends (Option Rect)) : Sym2 NodeId → Option (Option Rect) :=
  Sym2.lift ⟨fun a b => (Ends.of? a b).bind borders.get?, fun a b =>
    congrArg (Option.bind · borders.get?) (Ends.of?_comm a b)⟩

section Borders
variable (borders : Table Ends (Option Rect)) (pair : Sym2 NodeId)

theorem map_border_edge? (g : Graph) (a b : NodeId) :
    (g.edge? a b).map Edge.border = borderOf g.borders s(a, b) := by
  change _ = (Ends.of? a b).bind g.borders.get?
  unfold edge?
  cases Ends.of? a b with
  | none => rfl
  | some ends =>
    rw [Option.bind_some, Option.bind_some, Option.map_map]
    exact Option.map_id_apply

@[simp] theorem borderOf_pair (ends : Ends) : borderOf borders ends.pair = borders.get? ends := by
  change (Ends.of? ends.low ends.high).bind borders.get? = _
  rw [Ends.of?_eq_some_iff.2 rfl]
  rfl

theorem borderOf_isDiag (h : pair.IsDiag) : borderOf borders pair = none := by
  induction pair using Sym2.ind with
  | _ a b =>
    change (Ends.of? a b).bind borders.get? = none
    rw [Ends.of?_eq_none_iff.2 (Sym2.mk_isDiag_iff.1 h)]
    rfl

@[simp] theorem borderOf_insert (ends : Ends) (border : Option Rect) :
    borderOf (borders.insert ends border) pair =
      if pair = ends.pair then some border else borderOf borders pair := by
  rcases Ends.pair_cases pair with hdiag | ⟨other, rfl⟩
  · have hne : pair ≠ ends.pair := fun h => ends.not_isDiag_pair (h ▸ hdiag)
    rw [if_neg hne, borderOf_isDiag _ _ hdiag, borderOf_isDiag _ _ hdiag]
  · rw [borderOf_pair, borderOf_pair, Table.get?_insert]
    simp only [Ends.pair_injective.eq_iff, eq_comm]

theorem borderOf_dropBorder (a b : NodeId) :
    borderOf (dropBorder borders a b) pair =
      if pair = s(a, b) then none else borderOf borders pair := by
  unfold dropBorder
  rcases Ends.pair_cases pair with hdiag | ⟨other, rfl⟩
  · rw [borderOf_isDiag _ _ hdiag, borderOf_isDiag _ _ hdiag, ite_self]
  · rw [borderOf_pair, borderOf_pair]
    split
    · next ends hends =>
      rw [Table.get?_erase, Ends.of?_eq_some_iff.1 hends]
      simp only [Ends.pair_injective.eq_iff, eq_comm]
    · next hends =>
      have hne : other.pair ≠ s(a, b) := fun h =>
        other.not_isDiag_pair (h ▸ Sym2.mk_isDiag_iff.2 (Ends.of?_eq_none_iff.1 hends))
      rw [if_neg hne]

private theorem borderOf_dropAll (id : NodeId) (others : List NodeId) :
    borderOf (others.foldl (fun borders other => dropBorder borders id other) borders) pair =
      if ∃ other ∈ others, pair = s(id, other) then none else borderOf borders pair := by
  induction others generalizing borders with
  | nil => simp
  | cons other others ih =>
    rw [List.foldl_cons, ih, borderOf_dropBorder]
    simp only [List.mem_cons, exists_eq_or_imp, ite_or]
    split <;> split <;> rfl

end Borders

/-! ### The index -/

/-- Whether the index has `b` as a neighbour of `a`. -/
def linked (incident : Table NodeId IdSet) (a b : NodeId) : Bool :=
  ((incident.get? a).getD ∅).contains b

section Index
variable (incident : Table NodeId IdSet) (x y a b : NodeId)

theorem mem_neighbors_iff {g : Graph} {a b : NodeId} :
    b ∈ g.neighbors a ↔ linked g.incident a b = true := by
  rw [linked, Table.contains_iff, neighbors, Table.keys, List.mem_map]
  constructor
  · rintro ⟨entry, hentry, rfl⟩
    exact ⟨entry.2, Table.get?_eq_some_iff.2 hentry⟩
  · rintro ⟨v, hv⟩
    exact ⟨(b, v), Table.get?_eq_some_iff.1 hv, rfl⟩

theorem neighbors_ascending (g : Graph) (id : NodeId) :
    (g.neighbors id).Pairwise (· < ·) := by
  rw [neighbors, Table.keys, List.pairwise_map]
  exact (Table.ascending _).imp Nat.compare_eq_lt.1

theorem linked_attach :
    linked (attach incident x y) a b = (decide (x = a ∧ y = b) || linked incident a b) := by
  unfold linked attach
  rw [Table.get?_insert]
  split
  · next hx =>
    subst hx
    rw [Option.getD_some, Table.contains, Table.get?_insert]
    split <;> simp [Table.contains, *]
  · next hx => simp [hx]

theorem linked_detach :
    linked (detach incident x y) a b = (linked incident a b && !decide (x = a ∧ y = b)) := by
  unfold linked detach
  rw [Table.get?_adjust]
  split
  · next hx =>
    subst hx
    cases incident.get? x with
    | none => simp [Table.contains]
    | some set =>
      rw [Option.map_some, Option.getD_some, Option.getD_some, Table.contains, Table.get?_erase]
      split <;> simp [Table.contains, *]
  · next hx => simp [hx]

@[simp] theorem linked_erase :
    linked (incident.erase x) a b = (linked incident a b && !decide (x = a)) := by
  unfold linked
  rw [Table.get?_erase]
  split
  · next hx => simp [hx, Table.contains]
  · next hx => simp [hx]

private theorem linked_detachAll (id : NodeId) (others : List NodeId) :
    linked (others.foldl (fun incident other => detach incident other id) incident) a b =
      (linked incident a b && !decide (a ∈ others ∧ id = b)) := by
  induction others generalizing incident with
  | nil => simp
  | cons other others ih =>
    rw [List.foldl_cons, ih, linked_detach, Bool.and_assoc, ← Bool.not_or, ← Bool.decide_or]
    simp only [List.mem_cons, or_and_right, eq_comm]

end Index

/-! ### The invariant -/

/-- A graph whose parts all hold what a plain graph says. -/
structure Implements (g : Graph) (p : PlainGraph) : Prop where
  nextId : g.nextId = p.nextId
  element? : ∀ id, g.element? id = p.elements id
  border : ∀ pair, borderOf g.borders pair = p.borders pair
  linked : ∀ a b, linked g.incident a b = (p.borders s(a, b)).isSome

theorem implements_empty : empty.Implements .empty where
  nextId := rfl
  element? _ := Table.get?_empty _
  border pair := by
    rcases Ends.pair_cases pair with hdiag | ⟨ends, rfl⟩
    · exact borderOf_isDiag _ _ hdiag
    · rw [borderOf_pair]
      exact Table.get?_empty _
  linked a b := by
    rw [linked, empty, Table.get?_empty]
    rfl

namespace Implements
variable {g : Graph} {p : PlainGraph}

theorem contains (h : g.Implements p) (id : NodeId) : g.contains id = (p.elements id).isSome :=
  congrArg Option.isSome (h.element? id)

theorem joinable (h : g.Implements p) (a b : NodeId) :
    g.joinable a b = decide (p.Joinable a b) := by
  rw [Bool.eq_iff_iff, decide_eq_true_iff, Graph.joinable, h.contains, h.contains]
  simp [PlainGraph.Joinable, and_assoc]

theorem add (h : g.Implements p) (e : Element) : (g.add e).Implements (p.add e) where
  nextId := congrArg (· + 1) h.nextId
  element? id := by
    rw [element?_add, h.nextId, h.element?]
    simp only [PlainGraph.add, eq_comm]
  border := h.border
  linked := h.linked

theorem replace (h : g.Implements p) (id : NodeId) (e : Element) :
    (g.replace id e).Implements (p.replace id e) := by
  have hparts : (g.replace id e).borders = g.borders ∧
      (g.replace id e).incident = g.incident := by
    unfold Graph.replace
    split <;> exact ⟨rfl, rfl⟩
  constructor
  · rw [nextId_replace]
    exact h.nextId
  · intro i
    rw [element?_replace, h.contains, h.element?]
    by_cases hi : id = i
    · subst hi
      cases hold : p.elements id <;> simp [PlainGraph.replace, hold]
    · cases hold : p.elements i <;> simp [PlainGraph.replace, hold, hi, Ne.symm hi]
  · rw [hparts.1]
    exact h.border
  · rw [hparts.2]
    exact h.linked

private theorem border_eq_none (h : g.Implements p) {id other : NodeId}
    (hother : other ∉ g.neighbors id) : p.borders s(id, other) = none := by
  rw [mem_neighbors_iff, h.linked] at hother
  simpa using hother

theorem remove (h : g.Implements p) (id : NodeId) : (g.remove id).Implements (p.remove id) := by
  cases hthere : g.contains id with
  | false =>
    have hnone : p.elements id = none := by
      rw [h.contains] at hthere
      simpa using hthere
    rw [PlainGraph.remove_eq_self hnone, Graph.remove, if_neg (by simp [hthere])]
    exact h
  | true =>
    constructor
    · rw [nextId_remove]
      exact h.nextId
    · intro i
      rw [element?_remove, h.element?]
      simp only [PlainGraph.remove, eq_comm]
    · intro pair
      rw [Graph.remove, if_pos hthere]
      simp only [borderOf_dropAll, h.border, PlainGraph.remove]
      by_cases hid : id ∈ pair
      · -- a pair that is not dropped was not there
        rw [if_pos hid]
        obtain ⟨other, rfl⟩ := hid
        split
        · rfl
        · next hkept => exact h.border_eq_none fun hother => hkept ⟨other, hother, rfl⟩
      · have hkept : ¬∃ other ∈ g.neighbors id, pair = s(id, other) := by
          rintro ⟨other, -, rfl⟩
          exact hid (Sym2.mem_mk_left id other)
        rw [if_neg hid, if_neg hkept]
    · intro a b
      rw [Graph.remove, if_pos hthere]
      simp only [linked_detachAll, linked_erase, mem_neighbors_iff, h.linked, PlainGraph.remove,
        Sym2.mem_iff]
      by_cases ha : id = a
      · simp [ha]
      · by_cases hb : id = b
        · -- the neighbours' sets forget the node
          subst hb
          rw [Sym2.eq_swap]
          cases (p.borders s(id, a)).isSome <;> simp
        · simp [ha, hb]

theorem connect (h : g.Implements p) (a b : NodeId) (border : Option Rect) :
    (g.connect a b border).Implements (p.connect a b border) := by
  have hjoinable := h.joinable a b
  unfold Graph.connect PlainGraph.connect
  by_cases hp : p.Joinable a b
  · rw [dif_pos hp]
    have hg : g.joinable a b = true := hjoinable.trans (decide_eq_true hp)
    obtain ⟨ends, hends⟩ := Option.ne_none_iff_exists'.1 (mt Ends.of?_eq_none_iff.1 hp.1)
    have hpair := Ends.of?_eq_some_iff.1 hends
    simp only [hends, hg, if_true]
    refine ⟨h.nextId, h.element?, fun pair => ?_, fun c d => ?_⟩
    · change _ = if pair = s(a, b) then some border else p.borders pair
      rw [borderOf_insert, h.border, hpair]
    · change _ = (if s(c, d) = s(a, b) then some border else p.borders s(c, d)).isSome
      rw [linked_attach, linked_attach, h.linked, hpair]
      by_cases hcd : s(c, d) = ends.pair
      · rw [if_pos hcd]
        rcases Ends.mk_eq_pair_iff.1 hcd with hends | hends <;> simp [hends]
      · rw [if_neg hcd]
        obtain ⟨hhigh, hlow⟩ := not_or.1 (mt Ends.mk_eq_pair_iff.2 hcd)
        rw [decide_eq_false hhigh, decide_eq_false hlow, Bool.false_or, Bool.false_or]
  · have hg : g.joinable a b = false := hjoinable.trans (decide_eq_false hp)
    rw [dif_neg hp]
    split
    · rw [hg, if_neg (by simp)]
      exact h
    · exact h

theorem clearEdges (h : g.Implements p) : g.clearEdges.Implements p.clearEdges where
  nextId := h.nextId
  element? := h.element?
  border := implements_empty.border
  linked := implements_empty.linked

theorem edit (h : g.Implements p) (x : Edit) : (g.edit x).Implements (p.edit x) := by
  cases x with
  | add e => exact h.add e
  | replace id e => exact h.replace id e
  | remove id => exact h.remove id
  | connect a b border => exact h.connect a b border
  | clearEdges => exact h.clearEdges

private theorem joinAll (h : g.Implements p) (cs : List Contact) :
    ∃ p', (g.joinAll cs).Implements p' := by
  have hfold : ∀ (g : Graph) (p : PlainGraph), g.Implements p →
      ∃ p', (cs.foldl (fun g c => g.connect c.a c.b c.border) g).Implements p' := by
    induction cs with
    | nil => exact fun g p h => ⟨p, h⟩
    | cons c cs ih => exact fun g p h => ih _ _ (h.connect c.a c.b c.border)
  exact hfold _ _ h.clearEdges

private theorem sectorRect? (h : g.Implements p) (id : NodeId) :
    g.sectorRect? id = p.sectorRect? id :=
  congrArg (Option.bind · Element.sectorRect?) (h.element? id)

theorem rebuild (h : g.Implements p) (thickness : Float32) :
    (g.rebuildAdjacency thickness).Implements (p.rebuild thickness) := by
  have hborder (pair : Sym2 NodeId) :
      borderOf (g.rebuildAdjacency thickness).borders pair = p.contact thickness pair := by
    unfold PlainGraph.contact
    rcases Ends.pair_cases pair with hdiag | ⟨ends, rfl⟩
    · rw [borderOf_isDiag _ _ hdiag, if_pos hdiag]
    · obtain ⟨a, b, hab⟩ := ends
      have hedge := edge?_of_contacts (edges_rebuildAdjacency g thickness) hab
      rw [if_neg (Ends.not_isDiag_pair _), Ends.pair, ← map_border_edge?, hedge, Sym2.inf_mk,
        Sym2.sup_mk, inf_eq_left.2 (Nat.le_of_lt hab), sup_eq_right.2 (Nat.le_of_lt hab),
        h.sectorRect?, h.sectorRect?]
      simp only [Option.map_bind, Function.comp_def, Option.map_map]
  obtain ⟨p', hindex⟩ := h.joinAll (g.contacts thickness)
  constructor
  · rw [nextId_rebuildAdjacency]
    exact h.nextId
  · intro id
    rw [element?_rebuildAdjacency]
    exact h.element? id
  · exact hborder
  · intro a b
    have hlinked := hindex.linked a b
    rw [← hindex.border] at hlinked
    exact hlinked.trans (congrArg Option.isSome (hborder s(a, b)))

/-! ### What is seen of a graph -/

theorem mem_edges_iff (h : g.Implements p) {e : Edge} :
    e ∈ g.edges ↔ p.borders e.ends.pair = some e.border := by
  rw [Graph.mem_edges_iff, ← borderOf_pair, h.border]

theorem exists_edge (h : g.Implements p) {pair : Sym2 NodeId} {border : Option Rect}
    (hborder : p.borders pair = some border) :
    ∃ ends : Ends, pair = ends.pair ∧ ⟨ends, border⟩ ∈ g.edges := by
  rcases Ends.pair_cases pair with hdiag | ⟨ends, rfl⟩
  · rw [← h.border, borderOf_isDiag _ _ hdiag] at hborder
    cases hborder
  · exact ⟨ends, rfl, h.mem_edges_iff.2 hborder⟩

theorem ends_of_mem_edges (h : g.Implements p) {e : Edge} (he : e ∈ g.edges) :
    g.contains e.ends.low = true ∧ g.contains e.ends.high = true := by
  have hsome : (p.borders s(e.ends.low, e.ends.high)).isSome :=
    Option.isSome_iff_exists.2 ⟨_, h.mem_edges_iff.1 he⟩
  rw [h.contains, h.contains]
  exact (p.joined _ _ hsome).2

theorem mem_neighbors_iff_edge (h : g.Implements p) {id other : NodeId} :
    other ∈ g.neighbors id ↔ ∃ e ∈ g.edges, e.other id = some other := by
  rw [mem_neighbors_iff, h.linked]
  have hother {e : Edge} (he : e.other id = some other) : s(id, other) = e.ends.pair := by
    unfold Edge.other at he
    split at he
    · next hlow => rw [← hlow, ← Option.some.inj he, Ends.pair]
    · split at he
      · next hhigh => rw [← hhigh, ← Option.some.inj he, Ends.pair, Sym2.eq_swap]
      · cases he
  constructor
  · intro hsome
    obtain ⟨border, hborder⟩ := Option.isSome_iff_exists.1 hsome
    obtain ⟨ends, hpair, he⟩ := h.exists_edge hborder
    refine ⟨_, he, ?_⟩
    unfold Edge.other
    rcases Sym2.eq_iff.1 hpair with ⟨hlow, hhigh⟩ | ⟨hhigh, hlow⟩
    · rw [if_pos hlow.symm, hhigh]
    · have hne : ends.low ≠ id := hhigh ▸ Nat.ne_of_lt ends.low_lt_high
      rw [if_neg hne, if_pos hhigh.symm, hlow]
  · rintro ⟨e, he, hid⟩
    rw [hother hid, h.mem_edges_iff.1 he]
    rfl

theorem nodup_pairs (g : Graph) : (g.edges.map fun e => e.ends.pair).Nodup := by
  rw [edges, List.map_map, List.Nodup, List.pairwise_map]
  refine g.borders.ascending.imp fun {d d'} hlt heq => ?_
  have hends : d.1 = d'.1 := Ends.pair_injective heq
  rw [hends] at hlt
  simp at hlt

theorem edgeCount (h : g.Implements p) : g.edgeCount = p.edgeCount := by
  have hpairs : (Finset.range p.nextId).sym2.filter (fun pair => (p.borders pair).isSome) =
      (g.edges.map fun e => e.ends.pair).toFinset := by
    ext pair
    rw [Finset.mem_filter, List.mem_toFinset, List.mem_map]
    constructor
    · rintro ⟨-, hsome⟩
      obtain ⟨border, hborder⟩ := Option.isSome_iff_exists.1 hsome
      obtain ⟨ends, rfl, he⟩ := h.exists_edge hborder
      exact ⟨_, he, rfl⟩
    · rintro ⟨e, he, rfl⟩
      obtain ⟨hlow, hhigh⟩ := h.ends_of_mem_edges he
      rw [h.contains] at hlow hhigh
      refine ⟨?_, Option.isSome_iff_exists.2 ⟨_, h.mem_edges_iff.1 he⟩⟩
      rw [Ends.pair, Finset.mk_mem_sym2_iff, Finset.mem_range, Finset.mem_range]
      exact ⟨p.lt_nextId _ hlow, p.lt_nextId _ hhigh⟩
  rw [PlainGraph.edgeCount, hpairs, List.toFinset_card_of_nodup (nodup_pairs g), List.length_map]
  rfl

end Implements

/-! ### Dropping edges one by one -/

theorem borderOf_dropEdges (es : List Edge) (g : Graph) (pair : Sym2 NodeId) :
    borderOf (es.foldl dropEdge g).borders pair =
      if pair ∈ es.map (fun e => e.ends.pair) then none else borderOf g.borders pair := by
  induction es generalizing g with
  | nil => rfl
  | cons e es ih =>
    rw [List.foldl_cons, ih, List.map_cons]
    change (if _ then none else borderOf (dropBorder g.borders e.ends.low e.ends.high) pair) = _
    rw [borderOf_dropBorder, show s(e.ends.low, e.ends.high) = e.ends.pair from rfl]
    by_cases hpair : pair = e.ends.pair
    · rw [if_pos hpair, ite_self, if_pos (List.mem_cons.2 (.inl hpair))]
    · rw [if_neg hpair]
      simp only [List.mem_cons, hpair, false_or]

private theorem linked_dropEdges (es : List Edge) (g : Graph) (a b : NodeId) :
    linked (es.foldl dropEdge g).incident a b =
      (linked g.incident a b && !decide (s(a, b) ∈ es.map fun e => e.ends.pair)) := by
  induction es generalizing g with
  | nil => simp
  | cons e es ih =>
    rw [List.foldl_cons, ih, List.map_cons]
    change (linked (detach (detach g.incident _ _) _ _) a b && _) = _
    rw [linked_detach, linked_detach]
    simp only [List.mem_cons, Ends.mk_eq_pair_iff, Bool.decide_or, Bool.not_or, Bool.and_assoc,
      Bool.and_left_comm]

theorem dropEdges_keep (es : List Edge) (g : Graph) :
    (es.foldl dropEdge g).elements = g.elements ∧ (es.foldl dropEdge g).nextId = g.nextId ∧
      (es.foldl dropEdge g).changes = g.changes := by
  induction es generalizing g with
  | nil => exact ⟨rfl, rfl, rfl⟩
  | cons e es ih => exact ih (g.dropEdge e)

theorem Implements.dropEdges {g : Graph} {p : PlainGraph} (h : g.Implements p) :
    (g.edges.foldl dropEdge g).Implements p.clearEdges := by
  obtain ⟨helements, hnext, -⟩ := dropEdges_keep g.edges g
  have hmem {pair : Sym2 NodeId} (hsome : (p.borders pair).isSome) :
      pair ∈ g.edges.map fun e => e.ends.pair := by
    obtain ⟨border, hborder⟩ := Option.isSome_iff_exists.1 hsome
    obtain ⟨ends, rfl, he⟩ := h.exists_edge hborder
    exact List.mem_map.2 ⟨_, he, rfl⟩
  refine ⟨hnext.trans h.nextId, fun id => ?_, fun pair => ?_, fun a b => ?_⟩
  · exact (congrArg (Table.get? · id) helements).trans (h.element? id)
  · change _ = none
    rw [borderOf_dropEdges, h.border]
    split
    · rfl
    · next hnone => exact Option.not_isSome_iff_eq_none.1 fun hsome => hnone (hmem hsome)
  · change _ = false
    rw [linked_dropEdges, h.linked, Bool.and_eq_false_imp]
    intro hsome
    rw [decide_eq_true (hmem hsome), Bool.not_true]

/-- An index in which no node has a neighbour is empty once the empty sets are dropped. -/
theorem retain_eq_empty {incident : Table NodeId IdSet}
    (h : ∀ a b, linked incident a b = false) :
    (incident.retain fun set => set.size ≠ 0) = ∅ := by
  refine Table.ext_get? fun a => ?_
  rw [Table.get?_retain, Table.get?_empty]
  cases hset : incident.get? a with
  | none => rfl
  | some set =>
    have hempty : set = ∅ := by
      refine Table.ext_get? fun b => ?_
      have hb := h a b
      rw [linked, hset, Option.getD_some, Table.contains] at hb
      simpa using hb
    subst hempty
    rfl

/-- Where the index is in step with the edges, dropping them one by one comes to the same as
forgetting both. -/
theorem Implements.purge_eq {g : Graph} {p : PlainGraph} (h : g.Implements p) :
    g.purge = g.clearEdges := by
  have hdropped := h.dropEdges
  obtain ⟨helements, hnext, hchanges⟩ := dropEdges_keep g.edges g
  refine Graph.ext helements (Table.ext_get? fun ends => ?_) (retain_eq_empty hdropped.linked)
    hnext hchanges
  change (g.edges.foldl dropEdge g).borders.get? ends = (∅ : Table Ends (Option Rect)).get? ends
  rw [← borderOf_pair, hdropped.border, Table.get?_empty]
  rfl

/-! ### Operations -/

def store : Store Graph where
  perform g
    | .edit x => g.edit x
    | .rebuild thickness => g.rebuildAdjacency thickness
  answer g
    | .edit (.add _) => .added g.nextId
    | .edit (.replace id _) => .element (g.element? id)
    | .edit (.remove id) => .node (g.node? id)
    | .edit (.connect a b _) => .joined (g.joinable a b)
    | .edit .clearEdges => .done
    | .rebuild thickness => .count (g.contacts thickness).length

theorem Implements.answer {g : Graph} {p : PlainGraph} (h : g.Implements p) (op : Operation) :
    store.answer g op = PlainGraph.store.answer p op := by
  cases op with
  | rebuild thickness =>
    have hcount := edgeCount_rebuildAdjacency g thickness
    exact congrArg Answer.count (hcount.symm.trans (h.rebuild thickness).edgeCount)
  | edit x =>
    cases x with
    | add e => exact congrArg Answer.added h.nextId
    | replace id e => exact congrArg Answer.element (h.element? id)
    | remove id => exact congrArg (fun e => Answer.node (Option.map (Node.mk id) e)) (h.element? id)
    | connect a b border => exact congrArg Answer.joined (h.joinable a b)
    | clearEdges => rfl

theorem Implements.perform {g : Graph} {p : PlainGraph} (h : g.Implements p) (op : Operation) :
    (store.perform g op).Implements (PlainGraph.store.perform p op) := by
  cases op with
  | edit x => exact h.edit x
  | rebuild thickness => exact h.rebuild thickness

theorem Implements.performAll {g : Graph} {p : PlainGraph} (h : g.Implements p)
    (ops : List Operation) : store.answers g ops = PlainGraph.store.answers p ops ∧
      (store.performAll g ops).Implements (PlainGraph.store.performAll p ops) :=
  Store.simulation (fun _ _ op h => ⟨h.answer op, h.perform op⟩) h ops

/-- A graph of which nothing is seen that a plain graph does not say. -/
structure Agrees (g : Graph) (p : PlainGraph) : Prop where
  nextId : g.nextId = p.nextId
  element? : ∀ id, g.element? id = p.elements id
  nodes : ∀ n, n ∈ g.nodes ↔ p.elements n.id = some n.element
  edge? : ∀ a b, (g.edge? a b).map Edge.border = p.borders s(a, b)
  edges : ∀ e, e ∈ g.edges ↔ p.borders s(e.ends.low, e.ends.high) = some e.border
  edgeCount : g.edgeCount = p.edgeCount
  neighbors : ∀ a b, b ∈ g.neighbors a ↔ (p.borders s(a, b)).isSome

theorem Implements.agrees {g : Graph} {p : PlainGraph} (h : g.Implements p) : g.Agrees p where
  nextId := h.nextId
  element? := h.element?
  nodes n := by rw [mem_nodes_iff, h.element?]
  edge? a b := by rw [map_border_edge?, h.border]
  edges _ := h.mem_edges_iff
  edgeCount := h.edgeCount
  neighbors a b := by rw [mem_neighbors_iff, h.linked]

/-- Whatever is done to a graph, from the empty one on, it answers as a plain graph does and looks
like it.  In particular an edge is the same from both ends, it joins two nodes that are there, the
neighbours of a node are the other ends of its edges, in ascending order, and the ids of the nodes
added are `1`, `2`, `3` and so on, of which none is used again once its node is removed. -/
theorem operations_agree_with_plain_graph (ops : List Operation) :
    let g := store.performAll empty ops
    let p := PlainGraph.store.performAll .empty ops
    store.answers empty ops = PlainGraph.store.answers .empty ops ∧ g.Agrees p ∧
    (∀ a b, g.edge? a b = g.edge? b a) ∧
    (∀ e ∈ g.edges, e.ends.low < e.ends.high ∧ g.contains e.ends.low = true ∧
      g.contains e.ends.high = true) ∧
    (∀ id, (g.neighbors id).Pairwise (· < ·) ∧
      ∀ other, other ∈ g.neighbors id ↔ ∃ e ∈ g.edges, e.other id = some other) ∧
    (store.answers empty ops).filterMap Answer.added? =
      List.range' 1 (ops.countP Operation.isAdd) ∧
    g.nextId = 1 + ops.countP Operation.isAdd ∧
    ∀ more id, id < g.nextId → g.contains id = false →
      (store.performAll g more).contains id = false := by
  intro g p
  obtain ⟨hanswers, h⟩ := implements_empty.performAll ops
  refine ⟨hanswers, h.agrees, fun a b => ?_,
    fun e he => ⟨e.ends.low_lt_high, h.ends_of_mem_edges he⟩,
    fun id => ⟨neighbors_ascending g id, fun other => h.mem_neighbors_iff_edge⟩, ?_, ?_,
    fun more id hid hgone => ?_⟩
  · unfold edge?
    rw [Ends.of?_comm]
  · rw [hanswers]
    exact PlainGraph.added_answers .empty ops
  · exact h.nextId.trans (PlainGraph.nextId_performAll .empty ops)
  · rw [h.contains, Option.isSome_eq_false_iff, Option.isNone_iff_eq_none] at hgone
    have hid' : id < p.nextId := h.nextId ▸ hid
    rw [(h.performAll more).2.contains,
      PlainGraph.elements_performAll_of_gone hid' hgone more]
    rfl

/-- An edge given from its higher end, a loop, and an edge to a node that was removed. -/
example :
    let lawn : Edit := .add (.grassRect ⟨0.0, 0.0, 40.0, 40.0⟩)
    store.answers empty (([lawn, lawn, .connect 2 1 none, .connect 1 1 none, .remove 1, lawn,
      .connect 3 1 none].map .edit)) =
      [.added 1, .added 2, .joined true, .joined false,
        .node (some ⟨1, .grassRect ⟨0.0, 0.0, 40.0, 40.0⟩⟩), .added 3, .joined false] := by
  decide +kernel

/-- After any operations, dropping the edges one by one through the index comes to the same as
`clearEdges`, which stands for it among the operations. -/
theorem purge_performAll (ops : List Operation) :
    (store.performAll empty ops).purge = (store.performAll empty ops).clearEdges :=
  (implements_empty.performAll ops).2.purge_eq

end Graph
end Parterre
