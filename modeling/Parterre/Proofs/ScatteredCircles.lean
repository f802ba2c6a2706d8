import Parterre.Proofs.CheckedDraws
import Parterre.Proofs.GrammarInstances
import Parterre.Proofs.NodeLists
import Parterre.Proofs.PlantedShapes
import Parterre.Proofs.SwappedOperands

/-! # Circles that lie apart

The circles of a scatter lie in the bounds and touch none of each other, and their radii come from
the range, whatever the bounds and the range are and whatever is drawn.  A circle is tested against
all that lie already, always as the first of the two; that the test reads the same the other way
round makes the circles lie apart in both.  More circles than a list can hold are not scattered. -/
namespace Parterre
open Binary32 Chance

/-- Whether two circles do not touch, asked of either. -/
def Circle.Apart (a b : Circle) : Prop := a.collides b = false ∧ b.collides a = false

private theorem Circle.Apart.of_collides {a b : Circle} (h : a.collides b = false) : a.Apart b :=
  ⟨h, (b.collides_comm a).trans h⟩

theorem Circle.Apart.symm {a b : Circle} (h : a.Apart b) : b.Apart a := ⟨h.2, h.1⟩

/-- An integer that is drawn from a range lies in it; an empty range gives its lower end. -/
theorem Chance.drawInt_cases {σ : Type} [WordSource σ] (lo hi : Int32) (source : σ) :
    lo ≤ (drawInt lo hi source).1 ∧ (drawInt lo hi source).1 ≤ hi ∨
      hi < lo ∧ (drawInt lo hi source).1 = lo := by
  rcases Int32.lt_or_le hi lo with hempty | hle
  · have hlo : (drawInt lo hi source).1 = lo := by rw [drawInt, if_pos (Int32.le_of_lt hempty)]
    exact .inr ⟨hempty, hlo⟩
  · obtain ⟨hlow, hhigh⟩ := drawInt_mem hle source
    exact .inl ⟨Int32.le_iff_toInt_le.2 hlow, Int32.le_iff_toInt_le.2 hhigh⟩

namespace Scatter
variable {σ : Type} [WordSource σ] {s : Scatter} {bounds : Rect} {c : Circle}
  {placed : List Circle}

/-- Whether an integer is in the range of radii, or the lower end of an empty range. -/
def Offers (s : Scatter) (i : Int32) : Prop :=
  s.smallest ≤ i ∧ i ≤ s.largest ∨ s.largest < s.smallest ∧ i = s.smallest

/-- Whether a radius is an integer of the range of radii; of an empty range, its lower end. -/
def Sized (s : Scatter) (r : Float32) : Prop := ∃ i : Int32, r = fromInt i ∧ s.Offers i

private theorem sized_candidate (s : Scatter) (bounds : Rect) (source : σ) :
    s.Sized (s.candidate bounds source).1.r :=
  ⟨_, rfl, drawInt_cases s.smallest s.largest source⟩

/-- Circles as a scatter lays them out. -/
structure LaidOut (s : Scatter) (bounds : Rect) (circles : List Circle) : Prop where
  inside : ∀ c ∈ circles, c.within bounds = true
  sized : ∀ c ∈ circles, s.Sized c.r
  apart : circles.Pairwise Circle.Apart

theorem laidOut_nil : s.LaidOut bounds [] := ⟨by simp, by simp, .nil⟩

private theorem LaidOut.cons (h : s.LaidOut bounds placed) (hroom : hasRoom bounds placed c = true)
    (hsized : s.Sized c.r) : s.LaidOut bounds (c :: placed) := by
  obtain ⟨hinside, hapart⟩ := hasRoom_iff.1 hroom
  exact ⟨List.forall_mem_cons.2 ⟨hinside, h.inside⟩, List.forall_mem_cons.2 ⟨hsized, h.sized⟩,
    .cons (fun p hp => .of_collides (hapart p hp)) h.apart⟩

private theorem LaidOut.reverse (h : s.LaidOut bounds placed) :
    s.LaidOut bounds placed.reverse where
  inside c hc := h.inside c (List.mem_reverse.1 hc)
  sized c hc := h.sized c (List.mem_reverse.1 hc)
  apart := List.pairwise_reverse.2 (h.apart.imp Circle.Apart.symm)

theorem laidOut_placeAll (s : Scatter) (bounds : Rect) (source : σ) :
    s.LaidOut bounds (s.placeAll bounds source).circles := by
  have hlatest := placeAll_induction laidOut_nil
    (fun _ source hplaced hroom => hplaced.cons hroom (s.sized_candidate bounds source)) source
  have hplaced := hlatest.reverse
  rwa [List.reverse_reverse] at hplaced

/-! ### Checked sums -/

def checkedCandidate (s : Scatter) (bounds : Rect) (source : σ) : Option (Circle × σ) := do
  let (r, source) ← checkedDrawInt s.smallest s.largest source
  let (dx, source) ← checkedDrawInt r (farthest r bounds.w) source
  let (dy, source) ← checkedDrawInt r (farthest r bounds.h) source
  return (⟨⟨bounds.x + fromInt dx, bounds.y + fromInt dy⟩, fromInt r⟩, source)

/-- Whether the ends of all ranges that a candidate is drawn from are less than `2 ^ 31` apart. -/
structure Narrow (s : Scatter) (bounds : Rect) : Prop where
  radii : s.largest.toInt - s.smallest.toInt < 2 ^ 31
  across : ∀ r, s.Offers r → (farthest r bounds.w).toInt - r.toInt < 2 ^ 31
  down : ∀ r, s.Offers r → (farthest r bounds.h).toInt - r.toInt < 2 ^ 31

theorem Narrow.of_nonneg (h : 0 ≤ s.smallest) : s.Narrow bounds := by
  have hbelow : ∀ {i j : Int32}, 0 ≤ i → j.toInt - i.toInt < 2 ^ 31 := by
    intro i j hi
    have hpos := Int32.le_iff_toInt_le.1 hi
    have hlt := j.toInt_lt
    rw [Int32.toInt_zero] at hpos
    omega
  have hradius : ∀ r, s.Offers r → 0 ≤ r := by
    rintro r (⟨hle, -⟩ | ⟨-, rfl⟩)
    · exact Int32.le_trans h hle
    · exact h
  exact ⟨hbelow h, fun r hr => hbelow (hradius r hr), fun r hr => hbelow (hradius r hr)⟩

private theorem checkedCandidate_eq (h : s.Narrow bounds) (source : σ) :
    s.checkedCandidate bounds source = some (s.candidate bounds source) := by
  have hr := drawInt_cases s.smallest s.largest source
  simp only [checkedCandidate, candidate, checkedDrawInt_eq h.radii,
    checkedDrawInt_eq (h.across _ hr), checkedDrawInt_eq (h.down _ hr), Option.bind_eq_bind,
    Option.bind_some, Option.pure_def]

end Scatter

/-! ### Trees -/

theorem Graph.nodes_addAll {g : Graph} (h : g.Fresh) (es : List Element) :
    (g.addAll es).nodes = g.nodes ++ es.mapIdx fun i e => ⟨g.nextId + i, e⟩ := by
  induction es generalizing g with
  | nil => exact (List.append_nil _).symm
  | cons e es ih =>
    change ((g.add e).addAll es).nodes = _
    rw [ih (h.add e), nodes_add h, List.append_assoc, List.mapIdx_cons, nextId_add]
    simp only [List.singleton_append, Nat.add_zero, Nat.add_assoc, Nat.add_comm 1]

namespace Grove
variable {σ : Type} [WordSource σ]

/-- A scatter of more circles than a list can hold has no result.  Any other gives circles that lie
in the bounds, have a radius of the range and touch none of each other, and no more of them than are
wanted; where sums are checked, none overflows in ranges that are narrow, as they are without
negative radii.  So the trees that are planted are nodes of their own, as many as are said to be, no
more than are wanted, in the rectangle and apart. -/
theorem scattered_trees_lie_apart (s : Scatter) (bounds : Rect) (source : σ) {g : Graph}
    (hg : g.Fresh) (rect : Rect) :
    (2 ^ 63 ≤ s.count * 12 → s.generate bounds source = none) ∧
    (s.count * 12 < 2 ^ 63 → ∃ done, s.generate bounds source = some done ∧
      done.circles.length ≤ s.count ∧
      (∀ c ∈ done.circles, c.within bounds = true ∧ s.Sized c.r) ∧
      done.circles.Pairwise fun a b => a.collides b = false ∧ b.collides a = false) ∧
    (s.Narrow bounds → ∀ source : σ,
      s.checkedCandidate bounds source = some (s.candidate bounds source)) ∧
    (0 ≤ s.smallest → s.Narrow bounds) ∧
    ∃ done, (scatter rect).generate rect source = some done ∧
      let planted := plant g rect source
      planted.graph.nodes =
        g.nodes ++ (done.circles.map .treeCircle).mapIdx (fun i e => ⟨g.nextId + i, e⟩) ∧
      planted.result = done.circles.length ∧ done.circles.length ≤ treeCount rect ∧
      (∀ c ∈ done.circles, c.within rect = true) ∧
      done.circles.Pairwise fun a b => a.collides b = false ∧ b.collides a = false := by
  refine ⟨fun hlarge => ?_, fun hfits => ?_, Scatter.checkedCandidate_eq, Scatter.Narrow.of_nonneg,
    ?_⟩
  · exact Scatter.generate_of_not_fits (Nat.not_lt.2 hlarge) bounds source
  · have hlaid := s.laidOut_placeAll bounds source
    exact ⟨_, Scatter.generate_of_fits hfits bounds source, s.length_placeAll_le bounds source,
      fun c hc => ⟨hlaid.inside c hc, hlaid.sized c hc⟩, hlaid.apart⟩
  · have htrees : (scatter rect).LaidOut rect (trees rect source).circles :=
      trees_eq rect source ▸ (scatter rect).laidOut_placeAll rect source
    exact ⟨trees rect source, generate_scatter rect source, Graph.nodes_addAll hg _, rfl,
      length_trees_le rect source, htrees.inside, htrees.apart⟩

/-- On ground for three trees the first one may leave room for one other. -/
theorem scattered_trees_lie_apart_crowded :
    let ground : Rect := ⟨0.0, 0.0, 80.0, 80.0⟩
    let words := WordCycle.ofList [7, 7, 7, 7, 4000000000, 4000000000]
    let g := Graph.empty.trackChanges.add (.grassRect ground)
    let s := Scatter.mk 3 5 3 2
    g.Fresh ∧
      (∃ done, s.generate ground words = some done ∧ done.circles.map Circle.r = [5.0, 5.0] ∧
        done.circles.Pairwise fun a b => a.collides b = false ∧ b.collides a = false) ∧
      s.checkedCandidate ground words = some (s.candidate ground words) ∧
      treeCount ground = 3 ∧ (plant g ground words).graph.count .treeCircle = 2 ∧
      ∃ done, (scatter ground).generate ground words = some done ∧ done.circles.length = 2 ∧
        (plant g ground words).graph.nodes = [⟨1, .grassRect ground⟩] ++
          (done.circles.map .treeCircle).mapIdx (fun i e => ⟨2 + i, e⟩) ∧
        done.circles.Pairwise fun a b => a.collides b = false ∧ b.collides a = false := by
  intro ground words g s
  have hfresh : g.Fresh := Graph.fresh_empty.add _
  have hresult : (plant g ground words).result = 2 := by decide +kernel
  have hradii : (s.generate ground words).map (fun done => done.circles.map Circle.r) =
      some [5.0, 5.0] := by decide +kernel
  obtain ⟨-, hscatter, hchecked, hnarrow, grove, hgrove, hnodes, hcount, -, -, htrees⟩ :=
    scattered_trees_lie_apart s ground words hfresh ground
  obtain ⟨done, hdone, -, -, hapart⟩ := hscatter (by decide)
  rw [hdone] at hradii
  exact ⟨hfresh, ⟨done, hdone, Option.some.inj hradii, hapart⟩,
    hchecked (hnarrow (by decide)) words, by decide +kernel, by decide +kernel, grove, hgrove,
    hcount.symm.trans hresult, hnodes, htrees⟩

/-- One circle beyond the most that a list can hold leaves nothing, though no circle would have to
be placed. -/
theorem scatter_refused_beyond_memory :
    let bounds : Rect := ⟨0.0, 0.0, 10.0, 10.0⟩
    let words := WordCycle.ofList [0]
    (Scatter.mk 768614336404564651 19 37 0).generate bounds words = none ∧
      (Scatter.mk 768614336404564650 19 37 0).generate bounds words ≠ none := by
  intro bounds words
  refine ⟨Scatter.generate_of_not_fits (by decide) bounds words, ?_⟩
  rw [Scatter.generate_of_fits (by decide) bounds words]
  exact Option.some_ne_none _

end Grove
end Parterre
