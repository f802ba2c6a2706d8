import Parterre.Proofs.GraphEdits

/-! # Edges that are found anew

The contacts of the sectors come in the order of the edges, so that an edge is made for each of
them, one after the other, and none is made twice. -/
namespace Parterre

/-- Whether the edge of one contact comes before that of another. -/
def Contact.Before (c d : Contact) : Prop := c.a < d.a ∨ c.a = d.a ∧ c.b < d.b

/-- The contact that an edge was made for. -/
def Edge.contact (e : Edge) : Contact := ⟨e.ends.low, e.ends.high, e.border⟩

theorem Edge.contact_injective {d d' : Edge} (h : d.contact = d'.contact) : d = d' := by
  obtain ⟨⟨low, high, hlt⟩, border⟩ := d
  obtain ⟨⟨low', high', hlt'⟩, border'⟩ := d'
  obtain ⟨rfl, rfl, rfl⟩ := Contact.mk.inj h
  rfl

/-- The rectangle of an element that is a sector. -/
def Element.sectorRect? (e : Element) : Option Rect :=
  if e.symbol.isSector then e.rect? else none

theorem Ends.compare_eq_lt_iff {x y : Ends} :
    compare x y = .lt ↔ x.low < y.low ∨ x.low = y.low ∧ x.high < y.high := by
  change (compare x.low y.low).then (compare x.high y.high) = .lt ↔ _
  rw [Ordering.then_eq_lt, Nat.compare_eq_lt, Nat.compare_eq_eq, Nat.compare_eq_lt]

namespace Graph
variable {g : Graph} {thickness : Float32}

/-! ### Contacts -/

def sectorRect? (g : Graph) (id : NodeId) : Option Rect :=
  (g.element? id).bind Element.sectorRect?

theorem mem_sectors_iff {s : NodeId × Rect} : s ∈ g.sectors ↔ g.sectorRect? s.1 = some s.2 := by
  unfold sectors sectorRect? Element.sectorRect?
  rw [List.mem_filterMap]
  constructor
  · rintro ⟨n, hn, hs⟩
    split at hs
    · next hsector =>
      obtain ⟨r, hr, rfl⟩ := Option.map_eq_some_iff.1 hs
      exact Option.bind_eq_some_iff.2 ⟨n.element, mem_nodes_iff.1 hn, (if_pos hsector).trans hr⟩
    · cases hs
  · intro h
    obtain ⟨e, he, hr⟩ := Option.bind_eq_some_iff.1 h
    split at hr
    · next hsector =>
      have hsector : (Node.mk s.1 e).symbol.isSector = true := hsector
      exact ⟨⟨s.1, e⟩, mem_nodes_iff.2 he, by rw [if_pos hsector, hr]; rfl⟩
    · cases hr

theorem exists_of_sectorRect? {id : NodeId} {r : Rect} (h : g.sectorRect? id = some r) :
    ∃ e, g.element? id = some e ∧ e.symbol.isSector = true := by
  obtain ⟨e, he, hr⟩ := Option.bind_eq_some_iff.1 h
  unfold Element.sectorRect? at hr
  split at hr
  · next hsector => exact ⟨e, he, hsector⟩
  · cases hr

theorem nodes_ascending (g : Graph) : g.nodes.Pairwise fun m n => m.id < n.id := by
  rw [nodes, List.pairwise_map]
  exact g.elements.ascending.imp fun h => Nat.compare_eq_lt.1 h

theorem sectors_ascending (g : Graph) : g.sectors.Pairwise fun s t => s.1 < t.1 := by
  refine g.nodes_ascending.filterMap _ fun m n hmn s hs t ht => ?_
  have hid : ∀ (n : Node) (s : NodeId × Rect), (if n.symbol.isSector then
      n.element.rect?.map fun r => (n.id, r) else none) = some s → s.1 = n.id := by
    intro n s hs
    split at hs
    · obtain ⟨r, -, rfl⟩ := Option.map_eq_some_iff.1 hs
      rfl
    · cases hs
  rw [hid m s hs, hid n t ht]
  exact hmn

theorem sectors_congr {g' : Graph} (h : ∀ id, g'.sectorRect? id = g.sectorRect? id) :
    g'.sectors = g.sectors := by
  have hnodup (g : Graph) : g.sectors.Nodup :=
    g.sectors_ascending.imp fun hlt heq => Nat.ne_of_lt hlt (congrArg Prod.fst heq)
  refine List.Perm.eq_of_pairwise (fun s t _ _ hst hts => absurd hst (Nat.lt_asymm hts))
    g'.sectors_ascending g.sectors_ascending
    ((List.perm_ext_iff_of_nodup (hnodup g') (hnodup g)).2 fun s => ?_)
  rw [mem_sectors_iff, mem_sectors_iff, h]

theorem mem_contactsAmong_iff {c : Contact} {sectors : List (NodeId × Rect)}
    (hasc : sectors.Pairwise fun s t => s.1 < t.1) :
    c ∈ contactsAmong thickness sectors ↔
      ∃ s ∈ sectors, ∃ t ∈ sectors, s.1 < t.1 ∧ contact? thickness s t = some c := by
  induction sectors with
  | nil => exact iff_of_false List.not_mem_nil fun ⟨s, hs, _⟩ => nomatch hs
  | cons a rest ih =>
    obtain ⟨hlt, hrest⟩ := List.pairwise_cons.1 hasc
    rw [contactsAmong, List.mem_append, List.mem_filterMap, ih hrest]
    constructor
    · rintro (⟨t, ht, hc⟩ | ⟨s, hs, t, ht, hst, hc⟩)
      · exact ⟨a, List.mem_cons_self, t, List.mem_cons_of_mem _ ht, hlt t ht, hc⟩
      · exact ⟨s, List.mem_cons_of_mem _ hs, t, List.mem_cons_of_mem _ ht, hst, hc⟩
    · rintro ⟨s, hs, t, ht, hst, hc⟩
      -- the later one of the two is not the first of all
      have hlater : t ∈ rest := by
        refine (List.mem_cons.1 ht).resolve_left ?_
        rintro rfl
        rcases List.mem_cons.1 hs with rfl | hs
        · exact Nat.lt_irrefl _ hst
        · exact Nat.lt_asymm hst (hlt s hs)
      rcases List.mem_cons.1 hs with rfl | hs
      · exact .inl ⟨t, hlater, hc⟩
      · exact .inr ⟨s, hs, t, hlater, hst, hc⟩

private theorem contactsAmong_ascending {sectors : List (NodeId × Rect)}
    (hasc : sectors.Pairwise fun s t => s.1 < t.1) :
    (contactsAmong thickness sectors).Pairwise Contact.Before := by
  induction sectors with
  | nil => exact .nil
  | cons a rest ih =>
    obtain ⟨hlt, hrest⟩ := List.pairwise_cons.1 hasc
    refine List.pairwise_append.2 ⟨?_, ih hrest, fun c hc d hd => ?_⟩
    · refine hrest.filterMap _ fun s t hst c hc d hd => ?_
      obtain ⟨border, -, rfl⟩ := Option.map_eq_some_iff.1 hc
      obtain ⟨border', -, rfl⟩ := Option.map_eq_some_iff.1 hd
      exact .inr ⟨rfl, hst⟩
    · obtain ⟨b, hb, hc⟩ := List.mem_filterMap.1 hc
      obtain ⟨border, -, rfl⟩ := Option.map_eq_some_iff.1 hc
      obtain ⟨s, hs, t, -, -, hd⟩ := (mem_contactsAmong_iff hrest).1 hd
      obtain ⟨border', -, rfl⟩ := Option.map_eq_some_iff.1 hd
      exact .inl (hlt s hs)

/-- The contacts are between the sectors that share a border, the one with the lower id first. -/
theorem mem_contacts_iff {c : Contact} : c ∈ g.contacts thickness ↔
    c.a < c.b ∧ ∃ ra rb border, g.sectorRect? c.a = some ra ∧ g.sectorRect? c.b = some rb ∧
      ra.borderBetween rb thickness = some border ∧ c.border = border.longBorder? := by
  rw [contacts, mem_contactsAmong_iff g.sectors_ascending]
  constructor
  · rintro ⟨s, hs, t, ht, hst, hc⟩
    obtain ⟨border, hborder, rfl⟩ := Option.map_eq_some_iff.1 hc
    exact ⟨hst, s.2, t.2, border, mem_sectors_iff.1 hs, mem_sectors_iff.1 ht, hborder, rfl⟩
  · rintro ⟨hlt, ra, rb, border, ha, hb, hborder, hlong⟩
    refine ⟨(c.a, ra), mem_sectors_iff.2 ha, (c.b, rb), mem_sectors_iff.2 hb, hlt, ?_⟩
    exact Option.map_eq_some_iff.2 ⟨border, hborder, by rw [← hlong]⟩

theorem mem_contacts {c : Contact} (h : c ∈ g.contacts thickness) :
    c.a < c.b ∧ (∃ e, g.element? c.a = some e ∧ e.symbol.isSector = true) ∧
      ∃ e, g.element? c.b = some e ∧ e.symbol.isSector = true := by
  obtain ⟨hlt, ra, rb, border, ha, hb, -⟩ := mem_contacts_iff.1 h
  exact ⟨hlt, exists_of_sectorRect? ha, exists_of_sectorRect? hb⟩

theorem joinable_of_mem_contacts {c : Contact} (h : c ∈ g.contacts thickness) :
    g.joinable c.a c.b = true := by
  obtain ⟨hlt, ⟨x, hx, -⟩, y, hy, -⟩ := mem_contacts h
  have ha : g.contains c.a = true := contains_iff.2 ⟨x, hx⟩
  have hb : g.contains c.b = true := contains_iff.2 ⟨y, hy⟩
  simp [joinable, ha, hb, Nat.ne_of_lt hlt]

theorem contacts_ascending (g : Graph) (thickness : Float32) :
    (g.contacts thickness).Pairwise Contact.Before :=
  contactsAmong_ascending g.sectors_ascending

/-! ### Edges -/

@[simp] theorem contains_connect (g : Graph) (a b : NodeId) (border : Option Rect) (id : NodeId) :
    (g.connect a b border).contains id = g.contains id :=
  congrArg Option.isSome (element?_connect g a b border id)

theorem edges_connect {c : Contact} (hlt : c.a < c.b) (ha : g.contains c.a = true)
    (hb : g.contains c.b = true) (hbelow : ∀ e ∈ g.edges, e.contact.Before c) :
    (g.connect c.a c.b c.border).edges.map Edge.contact = g.edges.map Edge.contact ++ [c] := by
  have hends : Ends.of? c.a c.b = some ⟨c.a, c.b, hlt⟩ := dif_pos hlt
  have hjoinable : g.joinable c.a c.b = true := by
    simp [joinable, ha, hb, Nat.ne_of_lt hlt]
  have hentries : ∀ entry ∈ g.borders.entries, compare entry.1 ⟨c.a, c.b, hlt⟩ = .lt :=
    fun entry hentry => Ends.compare_eq_lt_iff.2
      (hbelow ⟨entry.1, entry.2⟩ (List.mem_map.2 ⟨entry, hentry, rfl⟩))
  simp only [connect, hends, hjoinable, if_true, edges]
  rw [Table.entries_insert_of_forall_lt _ _ _ hentries, List.map_append, List.map_append]
  rfl

theorem mem_edges_iff {e : Edge} : e ∈ g.edges ↔ g.borders.get? e.ends = some e.border := by
  rw [edges, Table.get?_eq_some_iff, List.mem_map]
  constructor
  · rintro ⟨entry, hentry, rfl⟩
    exact hentry
  · intro h
    exact ⟨_, h, rfl⟩

theorem edge?_eq_some_iff {a b : NodeId} (hab : a < b) {e : Edge} :
    g.edge? a b = some e ↔ e ∈ g.edges ∧ e.ends = ⟨a, b, hab⟩ := by
  have hends : Ends.of? a b = some ⟨a, b, hab⟩ := dif_pos hab
  rw [mem_edges_iff, edge?, hends, Option.bind_some, Option.map_eq_some_iff]
  constructor
  · rintro ⟨border, hborder, rfl⟩
    exact ⟨hborder, rfl⟩
  · rintro ⟨hborder, he⟩
    exact ⟨e.border, he ▸ hborder, by rw [← he]⟩

/-- Contacts in ascending order, above all edges so far, are made into edges one by one. -/
theorem edges_connectAll {cs : List Contact} (hasc : cs.Pairwise Contact.Before)
    (hin : ∀ c ∈ cs, c.a < c.b ∧ g.contains c.a = true ∧ g.contains c.b = true)
    (hbelow : ∀ e ∈ g.edges, ∀ c ∈ cs, e.contact.Before c) :
    (cs.foldl (fun g c => g.connect c.a c.b c.border) g).edges.map Edge.contact =
      g.edges.map Edge.contact ++ cs := by
  induction cs generalizing g with
  | nil => simp
  | cons c cs ih =>
    obtain ⟨hc, hcs⟩ := List.pairwise_cons.1 hasc
    obtain ⟨hlt, ha, hb⟩ := hin c List.mem_cons_self
    have hedges := edges_connect hlt ha hb fun e he => hbelow e he c List.mem_cons_self
    have hin' : ∀ d ∈ cs, d.a < d.b ∧ (g.connect c.a c.b c.border).contains d.a = true ∧
        (g.connect c.a c.b c.border).contains d.b = true := by
      intro d hd
      rw [contains_connect, contains_connect]
      exact hin d (List.mem_cons_of_mem _ hd)
    have hbelow' : ∀ e ∈ (g.connect c.a c.b c.border).edges, ∀ d ∈ cs, e.contact.Before d := by
      intro e he d hd
      have hmem := List.mem_map_of_mem (f := Edge.contact) he
      rw [hedges, List.mem_append, List.mem_singleton] at hmem
      -- an edge that was there is below all contacts, and the one just made below the later ones
      rcases hmem with hmem | heq
      · obtain ⟨e', he', heq⟩ := List.mem_map.1 hmem
        exact heq ▸ hbelow e' he' d (List.mem_cons_of_mem _ hd)
      · exact heq ▸ hc d hd
    rw [List.foldl_cons, ih hcs hin' hbelow', hedges, List.append_assoc]
    rfl

theorem edges_rebuildAdjacency (g : Graph) (thickness : Float32) :
    (g.rebuildAdjacency thickness).edges.map Edge.contact = g.contacts thickness := by
  have hin : ∀ c ∈ g.contacts thickness, c.a < c.b ∧ g.clearEdges.contains c.a = true ∧
      g.clearEdges.contains c.b = true := by
    intro c hc
    obtain ⟨hlt, ⟨e, he, -⟩, e', he', -⟩ := mem_contacts hc
    exact ⟨hlt, contains_iff.2 ⟨e, he⟩, contains_iff.2 ⟨e', he'⟩⟩
  have hnone : g.clearEdges.edges = [] := rfl
  have hedges := edges_connectAll (g.contacts_ascending thickness) hin (by simp [hnone])
  rw [hnone] at hedges
  exact hedges

theorem edgeCount_rebuildAdjacency (g : Graph) (thickness : Float32) :
    (g.rebuildAdjacency thickness).edgeCount = (g.contacts thickness).length := by
  rw [← edges_rebuildAdjacency, List.length_map, edgeCount]

theorem mem_edges_iff_of_contacts {g' : Graph}
    (h : g'.edges.map Edge.contact = g.contacts thickness) {e : Edge} :
    e ∈ g'.edges ↔ e.contact ∈ g.contacts thickness := by
  rw [← h]
  constructor
  · exact List.mem_map_of_mem
  · intro hmem
    obtain ⟨e', he', heq⟩ := List.mem_map.1 hmem
    exact Edge.contact_injective heq ▸ he'

/-- Where the edges are those of the contacts, two nodes have an edge exactly if they are sectors
that share a border. -/
theorem edge?_of_contacts {g' : Graph} (h : g'.edges.map Edge.contact = g.contacts thickness)
    {a b : NodeId} (hab : a < b) :
    g'.edge? a b = (g.sectorRect? a).bind fun ra => (g.sectorRect? b).bind fun rb =>
      (ra.borderBetween rb thickness).map fun border => ⟨⟨a, b, hab⟩, border.longBorder?⟩ := by
  refine Option.ext fun e => ?_
  rw [edge?_eq_some_iff hab, mem_edges_iff_of_contacts h, mem_contacts_iff]
  simp only [Option.bind_eq_some_iff, Option.map_eq_some_iff]
  constructor
  · rintro ⟨⟨-, ra, rb, border, ha, hb, hborder, hlong⟩, hends⟩
    obtain ⟨ends, kept⟩ := e
    obtain rfl : ends = ⟨a, b, hab⟩ := hends
    obtain rfl : kept = border.longBorder? := hlong
    exact ⟨ra, ha, rb, hb, border, hborder, rfl⟩
  · rintro ⟨ra, ha, rb, hb, border, hborder, rfl⟩
    exact ⟨⟨hab, ra, rb, border, ha, hb, hborder, rfl⟩, rfl⟩

/-! ### Neighbours -/

theorem incident_connect_of_ne (g : Graph) {a b id : NodeId} (border : Option Rect) (ha : id ≠ a)
    (hb : id ≠ b) : (g.connect a b border).incident.get? id = g.incident.get? id := by
  have hends : ∀ ends, Ends.of? a b = some ends → ends.low ≠ id ∧ ends.high ≠ id := by
    intro ends h
    unfold Ends.of? at h
    split at h
    · obtain rfl := Option.some.inj h
      exact ⟨ha.symm, hb.symm⟩
    · split at h
      · obtain rfl := Option.some.inj h
        exact ⟨hb.symm, ha.symm⟩
      · cases h
  unfold connect
  split
  · next ends h =>
    obtain ⟨hlow, hhigh⟩ := hends ends h
    split
    · simp [attach, Table.get?_insert, hlow, hhigh]
    · rfl
  · rfl

theorem neighbors_rebuildAdjacency {id : NodeId}
    (h : ∀ e, g.element? id = some e → e.symbol.isSector = false) :
    (g.rebuildAdjacency thickness).neighbors id = [] := by
  have hkeep : ∀ (cs : List Contact) (g : Graph), (∀ c ∈ cs, id ≠ c.a ∧ id ≠ c.b) →
      (cs.foldl (fun g c => g.connect c.a c.b c.border) g).incident.get? id =
        g.incident.get? id := by
    intro cs
    induction cs with
    | nil => exact fun g _ => rfl
    | cons c cs ih =>
      intro g hcs
      obtain ⟨ha, hb⟩ := hcs c List.mem_cons_self
      rw [List.foldl_cons, ih _ fun d hd => hcs d (List.mem_cons_of_mem _ hd)]
      exact incident_connect_of_ne g c.border ha hb
  have hnone : (g.rebuildAdjacency thickness).incident.get? id = none := by
    refine (hkeep (g.contacts thickness) g.clearEdges fun c hc => ?_).trans (Table.get?_empty id)
    obtain ⟨-, ⟨e, he, hsector⟩, e', he', hsector'⟩ := mem_contacts hc
    constructor
    · rintro rfl
      simp [h e he] at hsector
    · rintro rfl
      simp [h e' he'] at hsector'
  unfold neighbors
  rw [hnone]
  rfl

theorem edges_remove_of_no_neighbors {id : NodeId} (h : g.neighbors id = []) :
    (g.remove id).edges = g.edges := by
  unfold remove
  split
  · simp only [h, List.foldl_nil]
    rfl
  · rfl

@[simp] theorem edges_addAll (g : Graph) (es : List Element) : (g.addAll es).edges = g.edges := by
  induction es generalizing g with
  | nil => rfl
  | cons e es ih => exact (ih (g.add e)).trans rfl

end Graph
end Parterre
