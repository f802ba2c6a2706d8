import Parterre.Proofs.Rebuilding
import Parterre.Proofs.NumberPlaces

/-! # The numbering of the sectors

Which sectors are adjacent is a matter of their rectangles.  Contact is looked for from the sector
with the lower id to the one with the higher id, so another numbering may look for it from the other
side.  But where one rectangle touches another one at some side, the other one touches it at the
opposite side, since the stretch that they have in common is the same but for the sign of zero. -/
namespace Parterre
open Binary32

theorem alike_overlap_comm (a₁ a₂ b₁ b₂ : Float32) :
    Alike (overlap a₁ a₂ b₁ b₂) (overlap b₁ b₂ a₁ a₂) :=
  (alike_least_comm a₂ b₂).sub (alike_greatest_comm a₁ b₁)

namespace Side

/-- The side of the other rectangle that lies on a given side of the one. -/
def opposite : Side → Side
  | right => left
  | left => right
  | below => above
  | above => below

variable (a b : Rect) (minOverlap : Float32) (side : Side)

@[simp] theorem gap_opposite : side.opposite.gap a b = side.gap b a := by cases side <;> rfl

private theorem alike_contact_opposite : Alike (side.opposite.contact a b) (side.contact b a) := by
  cases side <;> exact alike_overlap_comm _ _ _ _

@[simp] theorem touches_opposite :
    side.opposite.touches a b minOverlap = side.touches b a minOverlap := by
  have hcontact : side.opposite.contact a b ≤ minOverlap ↔ side.contact b a ≤ minOverlap :=
    (alike_contact_opposite a b side).le_iff rfl
  rw [touches, touches, gap_opposite, decide_eq_decide.2 hcontact]

end Side

namespace Rect

theorem touchingSide_isSome_iff {a b : Rect} {minOverlap : Float32} :
    (a.touchingSide b minOverlap).isSome = true ↔
      ∃ side, Side.touches a b minOverlap side = true := by
  rw [touchingSide, List.find?_isSome]
  constructor
  · rintro ⟨side, -, h⟩
    exact ⟨side, h⟩
  · rintro ⟨side, h⟩
    exact ⟨side, by cases side <;> simp [Side.all], h⟩

theorem isSome_borderBetween_comm (a b : Rect) (thickness : Float32) :
    (a.borderBetween b thickness).isSome = (b.borderBetween a thickness).isSome := by
  have htouch {a b : Rect} (h : (a.touchingSide b minTouchOverlap).isSome = true) :
      (b.touchingSide a minTouchOverlap).isSome = true := by
    obtain ⟨side, hside⟩ := touchingSide_isSome_iff.1 h
    exact touchingSide_isSome_iff.2 ⟨side.opposite, by rwa [Side.touches_opposite]⟩
  rw [borderBetween, borderBetween, Option.isSome_map, Option.isSome_map]
  exact Bool.eq_iff_iff.2 ⟨htouch, htouch⟩

end Rect

namespace Graph
variable {g g' : Graph} {p : NodeId → NodeId} {thickness : Float32}

theorem edge?_comm (g : Graph) (a b : NodeId) : g.edge? a b = g.edge? b a := by
  rw [edge?, edge?, Ends.of?_comm]

/-- Two nodes have an edge that is found anew exactly if they are two sectors that share a border,
whichever of them has the lower id. -/
theorem isSome_edge?_iff {a b : NodeId} :
    ((g.rebuildAdjacency thickness).edge? a b).isSome = true ↔
      a ≠ b ∧ ∃ ra rb, g.sectorRect? a = some ra ∧ g.sectorRect? b = some rb ∧
        (ra.borderBetween rb thickness).isSome = true := by
  have hbelow {a b : NodeId} (hab : a < b) :
      ((g.rebuildAdjacency thickness).edge? a b).isSome = true ↔
        ∃ ra rb, g.sectorRect? a = some ra ∧ g.sectorRect? b = some rb ∧
          (ra.borderBetween rb thickness).isSome = true := by
    rw [edge?_of_contacts (edges_rebuildAdjacency g thickness) hab]
    cases g.sectorRect? a <;> cases g.sectorRect? b <;> simp
  rcases Nat.lt_trichotomy a b with hab | rfl | hba
  · rw [hbelow hab]
    exact ⟨fun h => ⟨Nat.ne_of_lt hab, h⟩, And.right⟩
  · have hnone : Ends.of? a a = none := Ends.of?_eq_none_iff.2 rfl
    simp [edge?, hnone]
  · rw [edge?_comm, hbelow hba]
    constructor
    · rintro ⟨rb, ra, hb, ha, h⟩
      exact ⟨Nat.ne_of_gt hba, ra, rb, ha, hb, Rect.isSome_borderBetween_comm ra rb thickness ▸ h⟩
    · rintro ⟨-, ra, rb, ha, hb, h⟩
      exact ⟨rb, ra, hb, ha, Rect.isSome_borderBetween_comm ra rb thickness ▸ h⟩

/-- The edge between two nodes, given in either order, is the one in the list that joins them. -/
theorem edge?_eq_some_iff_pair {a b : NodeId} {e : Edge} :
    g.edge? a b = some e ↔ e ∈ g.edges ∧ e.ends.pair = s(a, b) := by
  rw [mem_edges_iff, edge?, Option.bind_eq_some_iff]
  constructor
  · rintro ⟨ends, hends, hedge⟩
    obtain ⟨border, hborder, rfl⟩ := Option.map_eq_some_iff.1 hedge
    exact ⟨hborder, (Ends.of?_eq_some_iff.1 hends).symm⟩
  · rintro ⟨hborder, hpair⟩
    exact ⟨e.ends, Ends.of?_eq_some_iff.2 hpair.symm, by rw [hborder]; rfl⟩

theorem mem_pairs_iff {a b : NodeId} :
    s(a, b) ∈ g.edges.map (fun e => e.ends.pair) ↔ (g.edge? a b).isSome = true := by
  rw [List.mem_map, Option.isSome_iff_exists]
  simp only [edge?_eq_some_iff_pair]

theorem made_rebuildInPasses (g : Graph) (thickness : Float32) :
    (g.rebuildInPasses thickness).made = (g.rebuildAdjacency thickness).edgeCount := by
  have hcontains (id : NodeId) : g.purge.contains id = g.contains id := by
    have helements : g.purge.elements = g.elements := (dropEdges_keep g.edges g).1
    rw [contains, helements, contains]
  have hjoinable : ∀ c ∈ g.contacts thickness, g.purge.joinable c.a c.b = true := by
    intro c hc
    simpa only [joinable, hcontains] using joinable_of_mem_contacts hc
  have hmade := Joining.foldl_join (g.contacts thickness) ⟨g.purge, 0⟩ hjoinable
  rw [rebuildInPasses, Joining.joinEach_eq, edgeCount_rebuildAdjacency,
    ← Nat.zero_add (g.contacts thickness).length]
  exact congrArg Joining.made hmade

/-! ### Another numbering -/

section Renumbered
variable (h : g'.sectors.Perm (g.sectors.map (Prod.map p id)))
include h

private theorem sectorRect?_renumbered {i : NodeId} {r : Rect} (hi : g.sectorRect? i = some r) :
    g'.sectorRect? (p i) = some r := by
  have hmem : (i, r) ∈ g.sectors := mem_sectors_iff.2 hi
  exact mem_sectors_iff.1 (h.mem_iff.2 (List.mem_map_of_mem (f := Prod.map p id) hmem))

private theorem exists_of_renumbered {i : NodeId} {r : Rect} (hi : g'.sectorRect? i = some r) :
    ∃ j, p j = i ∧ g.sectorRect? j = some r := by
  have hmem : (i, r) ∈ g'.sectors := mem_sectors_iff.2 hi
  obtain ⟨⟨j, r'⟩, hj, heq⟩ := List.mem_map.1 (h.mem_iff.1 hmem)
  obtain ⟨rfl, rfl⟩ := Prod.mk.inj heq
  exact ⟨j, rfl, mem_sectors_iff.1 hj⟩

/-- The ids of the other numbering are as many as its sectors, so none is given twice. -/
theorem eq_of_renumbered {i j : NodeId} {ri rj : Rect} (hi : g.sectorRect? i = some ri)
    (hj : g.sectorRect? j = some rj) (hp : p i = p j) : i = j := by
  have hnodup : (g'.sectors.map Prod.fst).Nodup := by
    rw [List.Nodup, List.pairwise_map]
    exact g'.sectors_ascending.imp Nat.ne_of_lt
  rw [(h.map Prod.fst).nodup_iff, List.map_map] at hnodup
  have hi' : (i, ri) ∈ g.sectors := mem_sectors_iff.2 hi
  have hj' : (j, rj) ∈ g.sectors := mem_sectors_iff.2 hj
  exact congrArg Prod.fst (List.inj_on_of_nodup_map hnodup hi' hj' hp)

theorem isSome_edge?_renumbered {i j : NodeId} {ri rj : Rect} (hi : g.sectorRect? i = some ri)
    (hj : g.sectorRect? j = some rj) (thickness : Float32) :
    ((g.rebuildAdjacency thickness).edge? i j).isSome =
      ((g'.rebuildAdjacency thickness).edge? (p i) (p j)).isSome := by
  have hne : i ≠ j ↔ p i ≠ p j :=
    not_congr ⟨congrArg p, eq_of_renumbered h hi hj⟩
  rw [Bool.eq_iff_iff, isSome_edge?_iff, isSome_edge?_iff, hi, hj, sectorRect?_renumbered h hi,
    sectorRect?_renumbered h hj, hne]

private theorem nodup_pairs_renumbered (thickness : Float32) :
    ((g.rebuildAdjacency thickness).edges.map fun e => e.ends.pair.map p).Nodup := by
  have hsplit : ((g.rebuildAdjacency thickness).edges.map fun e => e.ends.pair.map p) =
      ((g.rebuildAdjacency thickness).edges.map fun e => e.ends.pair).map (Sym2.map p) := by
    rw [List.map_map]
    rfl
  rw [hsplit]
  refine (Implements.nodup_pairs _).map_on fun x hx y hy hxy => ?_
  induction x with | _ a b =>
  induction y with | _ c d =>
  obtain ⟨-, ra, rb, ha, hb, -⟩ := isSome_edge?_iff.1 (mem_pairs_iff.1 hx)
  obtain ⟨-, rc, rd, hc, hd, -⟩ := isSome_edge?_iff.1 (mem_pairs_iff.1 hy)
  rcases Sym2.eq_iff.1 hxy with ⟨hac, hbd⟩ | ⟨had, hbc⟩
  · rw [eq_of_renumbered h ha hc hac, eq_of_renumbered h hb hd hbd]
  · rw [eq_of_renumbered h ha hd had, eq_of_renumbered h hb hc hbc, Sym2.eq_swap]

/-- The pairs of sectors that have an edge are the same ones under the other ids. -/
theorem pairs_renumbered (thickness : Float32) :
    ((g'.rebuildAdjacency thickness).edges.map fun e => e.ends.pair).Perm
      ((g.rebuildAdjacency thickness).edges.map fun e => e.ends.pair.map p) := by
  refine (List.perm_ext_iff_of_nodup (Implements.nodup_pairs _)
    (nodup_pairs_renumbered h thickness)).2 fun pair => ?_
  constructor
  · intro hpair
    induction pair with | _ a b =>
    have hedge := mem_pairs_iff.1 hpair
    obtain ⟨-, ra, rb, ha, hb, -⟩ := isSome_edge?_iff.1 hedge
    obtain ⟨i, rfl, hi⟩ := exists_of_renumbered h ha
    obtain ⟨j, rfl, hj⟩ := exists_of_renumbered h hb
    rw [← isSome_edge?_renumbered h hi hj, ← mem_pairs_iff] at hedge
    obtain ⟨e, he, hends⟩ := List.mem_map.1 hedge
    exact List.mem_map.2 ⟨e, he, congrArg (Sym2.map p) hends⟩
  · intro hpair
    obtain ⟨e, he, rfl⟩ := List.mem_map.1 hpair
    have hedge := mem_pairs_iff.1 (List.mem_map_of_mem (f := fun e : Edge => e.ends.pair) he)
    obtain ⟨-, ri, rj, hi, hj, -⟩ := isSome_edge?_iff.1 hedge
    rw [isSome_edge?_renumbered h hi hj, ← mem_pairs_iff] at hedge
    exact hedge

end Renumbered

/-- Which sectors are adjacent does not depend on how they are numbered: under any ids `p` for the
sectors, two of them have an edge exactly if they have one under the ids from before, no other nodes
have one, and as many edges are made. -/
theorem adjacency_ignores_numbering (h : g'.sectors.Perm (g.sectors.map (Prod.map p id)))
    (thickness : Float32) :
    let r := g.rebuildAdjacency thickness
    let r' := g'.rebuildAdjacency thickness
    (∀ s ∈ g.sectors, ∀ t ∈ g.sectors,
      (r.edge? s.1 t.1).isSome = (r'.edge? (p s.1) (p t.1)).isSome) ∧
    (r'.edges.map fun e => e.ends.pair).Perm (r.edges.map fun e => e.ends.pair.map p) ∧
    (g'.rebuildInPasses thickness).made = (g.rebuildInPasses thickness).made := by
  intro r r'
  refine ⟨fun s hs t ht => ?_, pairs_renumbered h thickness, ?_⟩
  · exact isSome_edge?_renumbered h (mem_sectors_iff.1 hs) (mem_sectors_iff.1 ht) thickness
  · have hcount := (pairs_renumbered h thickness).length_eq
    rw [List.length_map, List.length_map] at hcount
    rw [made_rebuildInPasses, made_rebuildInPasses]
    exact hcount

/-- The same three sectors, the last one first. -/
def misjoinedAnew : Graph := empty.addAll
  [.flowerArea ⟨100.0, 92.0, 100.0, 100.0⟩, .grassRect ⟨0.0, 0.0, 100.0, 100.0⟩,
    .area ⟨100.0, 0.0, 100.0, 100.0⟩ 2]

/-- The first and the last sector keep their edge as they change places. -/
theorem adjacency_ignores_numbering_misjoined :
    let g := store.performAll empty misjoined
    let p := fun i : NodeId => if i = 4 then 1 else i + 1
    misjoinedAnew.sectors.Perm (g.sectors.map (Prod.map p id)) ∧
    ((g.rebuildAdjacency 10.0).edge? 1 4).isSome = true ∧
    ((misjoinedAnew.rebuildAdjacency 10.0).edge? 2 1).isSome = true ∧
    (misjoinedAnew.rebuildInPasses 10.0).made = (g.rebuildInPasses 10.0).made := by
  intro g p
  have hperm : misjoinedAnew.sectors.Perm (g.sectors.map (Prod.map p id)) := by decide +kernel
  obtain ⟨hedges, -, hmade⟩ := adjacency_ignores_numbering hperm 10.0
  have hedge : ((g.rebuildAdjacency 10.0).edge? 1 4).isSome = true := by decide +kernel
  have hsame := hedges (1, ⟨0.0, 0.0, 100.0, 100.0⟩) (by decide +kernel)
    (4, ⟨100.0, 92.0, 100.0, 100.0⟩) (by decide +kernel)
  exact ⟨hperm, hedge, hsame.symm.trans hedge, hmade⟩

end Graph
end Parterre
