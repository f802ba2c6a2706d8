import Parterre.Proofs.Expansions
import Parterre.Proofs.FairDraws
import Parterre.Proofs.PlantedSpans

/-! # What is planted on a sector

Every bed, circle and part that an expansion puts on a sector has finite coordinates, and lies in
the sector up to a grid unit as long as the coordinates are not too large.  Only a fountain needs
room besides, as its radius has a lower bound. -/
namespace Parterre
open Binary32 Chance FlowerBed

def Shape.isFinite : Shape → Bool
  | rect r => r.isFinite
  | circle c => c.center.x.isFinite && c.center.y.isFinite && c.r.isFinite

/-- Whether a shape is finite, and lies in a sector if the coordinates are small enough. -/
structure Shape.LiesIn (k : ℤ) (sector : Rect) (s : Shape) : Prop where
  finite : s.isFinite = true
  inside : k ≤ 25 → sector.containsRect s.bounds gridUnit = true

section Shapes
variable {k : ℤ} {S : Rect}

theorem Shape.LiesIn.rect {r : Rect} (hx : Planted k S.x S.w r.x r.w)
    (hy : Planted k S.y S.h r.y r.h) : (Shape.rect r).LiesIn k S where
  finite := Rect.isFinite_iff.2 ⟨hx.finite, hy.finite, hx.finite_extent, hy.finite_extent⟩
  inside hsmall := Rect.containsRect_iff.2 ⟨hx.inside hsmall, hy.inside hsmall⟩

theorem Shape.finite_circle {c : Circle} (hx : c.center.x.isFinite = true)
    (hy : c.center.y.isFinite = true) (hr : c.r.isFinite = true) :
    (Shape.circle c).isFinite = true := by
  simp [Shape.isFinite, hx, hy, hr]

private theorem Shape.LiesIn.circle {c : Circle} (hx : c.center.x.isFinite = true)
    (hy : c.center.y.isFinite = true) (hr : c.r.isFinite = true)
    (hinside : k ≤ 25 → Holds S.x S.w (c.center.x - c.r) (2.0 * c.r) ∧
      Holds S.y S.h (c.center.y - c.r) (2.0 * c.r)) : (Shape.circle c).LiesIn k S where
  finite := finite_circle hx hy hr
  inside hsmall := Rect.containsRect_iff.2 (hinside hsmall)

/-! ### Beds -/

theorem liesIn_of_mem_roses (h : S.Ranged k) (hk : Scale k) {beds : List Rect}
    (hbeds : beds = rosesAbreast S ∨ beds = rosesStacked S) {bed : Rect} (hbed : bed ∈ beds) :
    (Shape.rect bed).LiesIn k S := by
  rcases hbeds with rfl | rfl
  · simp only [rosesAbreast, List.mem_cons, List.not_mem_nil, or_false] at hbed
    rcases hbed with rfl | rfl
    · exact .rect (h.across.planted_firstHalf hk) (h.down.planted_inset hk)
    · exact .rect (h.across.planted_secondHalf hk) (h.down.planted_inset hk)
  · simp only [rosesStacked, List.mem_cons, List.not_mem_nil, or_false] at hbed
    rcases hbed with rfl | rfl
    · exact .rect (h.across.planted_inset hk) (h.down.planted_firstHalf hk)
    · exact .rect (h.across.planted_inset hk) (h.down.planted_secondHalf hk)

private theorem liesIn_of_mem_tulips (h : S.Ranged k) (hk : Scale k) {bed : Rect}
    (hbed : bed ∈ tulips S) : (Shape.rect bed).LiesIn k S := by
  simp only [tulips, List.mem_cons, List.not_mem_nil, or_false] at hbed
  rcases hbed with rfl | rfl | rfl | rfl
  · exact .rect (h.across.planted_before hk) (h.down.planted_before hk)
  · exact .rect (h.across.planted_behind hk) (h.down.planted_before hk)
  · exact .rect (h.across.planted_before hk) (h.down.planted_behind hk)
  · exact .rect (h.across.planted_behind hk) (h.down.planted_behind hk)

/-! ### Fountains -/

theorem stands_minFountainRadius : Stands minFountainRadius 18 :=
  stands_of_parts (n := false) (m := 9437184) (e := -19) ⟨rfl, rfl⟩ (by norm_num)

private theorem stands_fountainShare : Stands 0.12 (16106127 / 2 ^ 27) :=
  stands_of_parts (n := false) (m := 16106127) (e := -27) ⟨rfl, rfl⟩ (by norm_num)

/-- The radius of a fountain is the smallest one, or a small part of both sides. -/
theorem radius_fountain (h : S.Ranged k) (hk : Scale k) : (fountain S).r.isFinite = true ∧
    (value (fountain S).r = 18 ∨ 18 ≤ value (fountain S).r ∧
      value (fountain S).r ≤ 13 / 100 * value (S.w - 2.0 * pad) ∧
      value (fountain S).r ≤ 13 / 100 * value (S.h - 2.0 * pad)) := by
  obtain ⟨-, hw⟩ := h.across.inset hk
  obtain ⟨-, hh⟩ := h.down.inset hk
  obtain ⟨hscale, hunit, -, -, hwpos, hwextent⟩ := h.across.bounds hk
  obtain ⟨-, -, -, -, hhpos, hhextent⟩ := h.down.bounds hk
  have hmin := stands_least hw.finite hh.finite
  have hlow : -(2 * 2 ^ k) ≤ min (value (S.w - 2.0 * pad)) (value (S.h - 2.0 * pad)) :=
    le_min (by linarith [hw.low]) (by linarith [hh.low])
  have hleft := min_le_left (value (S.w - 2.0 * pad)) (value (S.h - 2.0 * pad))
  have hright := min_le_right (value (S.w - 2.0 * pad)) (value (S.h - 2.0 * pad))
  generalize min (value (S.w - 2.0 * pad)) (value (S.h - 2.0 * pad)) = m at *
  have hproduct := stands_mul hmin.finite stands_fountainShare.finite
  rw [hmin.value_eq, stands_fountainShare.value_eq] at hproduct
  have hproduct := hproduct (hk.abs_le_largest (by linarith) (by linarith [hw.high]))
  norm_num at hproduct
  have hradius := stands_greatest stands_minFountainRadius.finite hproduct.finite
  rw [stands_minFountainRadius.value_eq] at hradius
  refine ⟨hradius.finite, ?_⟩
  have hvalue : value (fountain S).r = _ := hradius.value_eq
  rw [hvalue]
  rcases le_total (value (least (S.w - 2.0 * pad) (S.h - 2.0 * pad) * 0.12)) 18 with hle | hle
  · exact .inl (max_eq_left hle)
  · rw [max_eq_right hle]
    have hmpos : 0 ≤ m := by
      by_contra hneg
      have := rounded_le representable_zero (q := m * (16106127 / 134217728)) (by linarith)
      linarith [hproduct.value_eq]
    have hnear := hproduct.near_mul
    rw [abs_of_nonneg (by linarith)] at hnear
    have hhigh := hnear.high
    norm_num at hhigh
    refine .inr ⟨hle, ?_, ?_⟩ <;> linarith

theorem finite_fountain (h : S.Ranged k) (hk : Scale k) :
    (Shape.circle (fountain S)).isFinite = true := by
  have hx := (h.across.middle hk).2.finite
  have hy := (h.down.middle hk).2.finite
  have hr := (radius_fountain h hk).1
  simp only [Shape.isFinite, Bool.and_eq_true]
  exact ⟨⟨hx, hy⟩, hr⟩

private theorem liesIn_fountain (h : S.Ranged k) (hk : Scale k)
    (hw : 16 + 9 * unit k ≤ value S.w) (hh : 16 + 9 * unit k ≤ value S.h) :
    (Shape.circle (fountain S)).LiesIn k S := by
  obtain ⟨hr, hradius⟩ := radius_fountain h hk
  refine ⟨finite_fountain h hk, fun hsmall => Rect.containsRect_iff.2 ⟨?_, ?_⟩⟩
  · refine h.across.holds_fountain hk hsmall hr ?_
    exact hradius.imp (fun heq => ⟨heq, hw⟩) fun hle => ⟨hle.1, hle.2.1⟩
  · refine h.down.holds_fountain hk hsmall hr ?_
    exact hradius.imp (fun heq => ⟨heq, hh⟩) fun hle => ⟨hle.1, hle.2.2⟩

/-! ### Ponds -/

theorem stands_roundShare : Stands 0.30 (10066330 / 2 ^ 25) :=
  stands_of_parts (n := false) (m := 10066330) (e := -25) ⟨rfl, rfl⟩ (by norm_num)

theorem stands_lobeShare : Stands 0.18 (12079596 / 2 ^ 26) :=
  stands_of_parts (n := false) (m := 12079596) (e := -26) ⟨rfl, rfl⟩ (by norm_num)

private theorem stands_lobeOffset : Stands 0.55 (9227469 / 2 ^ 24) :=
  stands_of_parts (n := false) (m := 9227469) (e := -24) ⟨rfl, rfl⟩ (by norm_num)

private theorem stands_lobeReach : Stands (1.0 + 0.55) (13002342 / 2 ^ 23) :=
  stands_of_parts (n := false) (m := 13002342) (e := -23) ⟨rfl, rfl⟩ (by norm_num)

theorem stands_twinReach : Stands (2.0 * (1.0 + 0.55)) (13002342 / 2 ^ 22) :=
  stands_of_parts (n := false) (m := 13002342) (e := -22) ⟨rfl, rfl⟩ (by norm_num)

theorem stands_eighty : Stands 80.0 80 :=
  stands_of_parts (n := false) (m := 10485760) (e := -17) ⟨rfl, rfl⟩ (by norm_num)

theorem stands_thirtyFive : Stands 35.0 35 := stands_minCutSide

theorem stands_thirty : Stands 30.0 30 :=
  stands_of_parts (n := false) (m := 15728640) (e := -19) ⟨rfl, rfl⟩ (by norm_num)

theorem stands_sixtyFive : Stands 65.0 65 :=
  stands_of_parts (n := false) (m := 8519680) (e := -17) ⟨rfl, rfl⟩ (by norm_num)

/-- A share of the shorter side, brought into a range. -/
theorem clamped_share (h : S.Ranged k) (hk : Scale k) {c lo hi : Float32} {f l u : ℚ}
    (hc : Stands c f) (hpos : 0 ≤ f) (hone : f ≤ 1) (hlo : Stands lo l) (hhi : Stands hi u)
    (hle : l ≤ u) : (clamp (S.minSide * c) lo hi).isFinite = true ∧
      l ≤ value (clamp (S.minSide * c) lo hi) ∧ value (clamp (S.minSide * c) lo hi) ≤ u := by
  have hmin := stands_least h.across.finite_extent h.down.finite_extent
  have hminpos : 0 ≤ min (value S.w) (value S.h) := le_min h.across.pos.le h.down.pos.le
  have hminle : min (value S.w) (value S.h) * f ≤ 2 * 2 ^ k :=
    (mul_le_of_le_one_right hminpos hone).trans ((min_le_left _ _).trans h.across.extent_le)
  have hscale := hk.le
  have hproduct := hk.mul hmin hc (by linarith [mul_nonneg hminpos hpos]) (by linarith)
  have hclamp := stands_clamp hproduct.finite hlo.finite hhi.finite
    (by rw [hlo.value_eq, hhi.value_eq]; exact hle)
  rw [hlo.value_eq, hhi.value_eq] at hclamp
  refine ⟨hclamp.finite, ?_, ?_⟩
  · exact (le_max_left _ _).trans_eq hclamp.value_eq.symm
  · exact hclamp.value_eq.trans_le (max_le hle (min_le_left _ _))

/-- A quotient of an extent, up to a small share of it. -/
theorem near_extent_div (hk : Scale k) {w c : Float32} {d : ℚ} (hw : w.isFinite = true)
    (hpos : 0 < value w) (hextent : value w ≤ 2 * 2 ^ k) (hc : Stands c d) (hd : 2 ≤ d) :
    (w / c).isFinite = true ∧ 0 ≤ value (w / c) ∧
      d * value (w / c) ≤ value w * (1 + 2 ^ (-24 : ℤ)) + d * 2 ^ (-150 : ℤ) := by
  have hquotient : 0 ≤ value w / d := div_nonneg hpos.le (by linarith)
  have hle : value w / d ≤ value w := div_le_self hpos.le (by linarith)
  have hscale := hk.le
  have hstands := stands_div hw hc.finite (by rw [hc.value_eq]; linarith)
  rw [hc.value_eq] at hstands
  have hstands := hstands (hk.abs_le_largest (by linarith) (by linarith))
  have hnear := hstands.near_mul
  rw [abs_of_nonneg hquotient] at hnear
  refine ⟨hstands.finite, hstands.nonneg hquotient, ?_⟩
  · have hhigh := mul_le_mul_of_nonneg_left hnear.high (by linarith : 0 ≤ d)
    have hcancel : d * (value w / d) = value w := mul_div_cancel₀ _ (by linarith)
    calc d * value (w / c)
        ≤ d * (value w / d + (value w / d * 2 ^ (-24 : ℤ) + 2 ^ (-150 : ℤ))) := hhigh
      _ = d * (value w / d) * (1 + 2 ^ (-24 : ℤ)) + d * 2 ^ (-150 : ℤ) := by ring
      _ = value w * (1 + 2 ^ (-24 : ℤ)) + d * 2 ^ (-150 : ℤ) := by rw [hcancel]

namespace PondShape

theorem radius_round (h : S.Ranged k) (hk : Scale k) : (radius S round).isFinite = true ∧
    0 ≤ value (radius S round) ∧ 2 * value (radius S round) ≤ value S.w + 1 / 16384 ∧
      2 * value (radius S round) ≤ value S.h + 1 / 16384 := by
  obtain ⟨hclamp, hlow, hhigh⟩ := clamped_share h hk stands_roundShare (by norm_num)
    (by norm_num) stands_thirtyFive stands_eighty (by norm_num)
  have hmin := stands_least h.across.finite_extent h.down.finite_extent
  have hminpos : 0 < min (value S.w) (value S.h) := lt_min h.across.pos h.down.pos
  have hleft := min_le_left (value S.w) (value S.h)
  have hright := min_le_right (value S.w) (value S.h)
  have hhalf := near_extent_div hk hmin.finite (by rw [hmin.value_eq]; exact hminpos)
    (by rw [hmin.value_eq]; exact hleft.trans h.across.extent_le) stands_two (le_refl _)
  rw [hmin.value_eq] at hhalf
  obtain ⟨hfinite, hnonneg, hle⟩ := hhalf
  norm_num at hle
  generalize min (value S.w) (value S.h) = m at *
  have hradius : Stands (radius S round) _ := stands_least hclamp hfinite
  have hfirst := min_le_left (value (clamp (S.minSide * 0.30) 35.0 80.0)) (value (S.minSide / 2.0))
  have hsecond :=
    min_le_right (value (clamp (S.minSide * 0.30) 35.0 80.0)) (value (S.minSide / 2.0))
  have hfits : 2 * value (radius S round) ≤ m + 1 / 16384 := by
    rw [hradius.value_eq]
    change 2 * value (S.minSide / 2.0) ≤ _ at hle
    -- the upper bound matters for a long side only
    rcases le_total m 200 with hm | hm <;> linarith
  refine ⟨hradius.finite, ?_, by linarith, by linarith⟩
  rw [hradius.value_eq]
  exact le_min (by linarith) hnonneg

theorem twinPond (h : S.Ranged k) (hk : Scale k) :
    TwinPond S.w (reach S twinLobe) (0.55 * radius S twinLobe) (radius S twinLobe) ∧
      0 ≤ value (radius S twinLobe) ∧ 2 * value (radius S twinLobe) ≤ value S.h + 1 / 16384 := by
  obtain ⟨hclamp, hlow, hhigh⟩ := clamped_share h hk stands_lobeShare (by norm_num)
    (by norm_num) stands_thirty stands_sixtyFive (by norm_num)
  obtain ⟨hdown, hdownpos, hdownle⟩ := near_extent_div hk h.down.finite_extent h.down.pos
    h.down.extent_le stands_two (le_refl _)
  obtain ⟨hacross, hacrosspos, hacrossle⟩ := near_extent_div hk h.across.finite_extent
    h.across.pos h.across.extent_le stands_twinReach (by norm_num)
  have hinner := stands_least hclamp hdown
  have hradius : Stands (radius S twinLobe) _ := stands_least hinner.finite hacross
  rw [hinner.value_eq] at hradius
  have hpos : 0 ≤ value (radius S twinLobe) := by
    rw [hradius.value_eq]
    exact le_min (le_min (by linarith) hdownpos) hacrosspos
  have hmost : value (radius S twinLobe) ≤ 65 := by
    rw [hradius.value_eq]
    exact ((min_le_left _ _).trans (min_le_left _ _)).trans hhigh
  have hh : value (radius S twinLobe) ≤ value (S.h / 2.0) := by
    rw [hradius.value_eq]
    exact (min_le_left _ _).trans (min_le_right _ _)
  have hw : value (radius S twinLobe) ≤ value (S.w / (2.0 * (1.0 + 0.55))) := by
    rw [hradius.value_eq]
    exact min_le_right _ _
  have hscale := hk.le
  have hreach := stands_mul stands_lobeReach.finite hradius.finite
  have hoffset := stands_mul stands_lobeOffset.finite hradius.finite
  rw [stands_lobeReach.value_eq] at hreach
  rw [stands_lobeOffset.value_eq] at hoffset
  have hreach := hreach (hk.abs_le_largest (by linarith) (by linarith))
  have hoffset := hoffset (hk.abs_le_largest (by linarith) (by linarith))
  have hreachpos := hreach.nonneg (by linarith)
  have hoffsetpos := hoffset.nonneg (by linarith)
  have hoffsetle : value (0.55 * radius S twinLobe) ≤ value (radius S twinLobe) := by
    rw [hoffset.value_eq]
    exact rounded_le (representable_value _) (by linarith)
  have hreach := hreach.near_mul
  have hoffset := hoffset.near_mul
  rw [abs_of_nonneg (by linarith)] at hreach hoffset
  have hreachlow := hreach.low
  have hreachhigh := hreach.high
  have hoffsetlow := hoffset.low
  have hoffsethigh := hoffset.high
  norm_num at hdownle hacrossle hreachlow hreachhigh hoffsetlow hoffsethigh
  refine ⟨⟨hreach.finite, hoffset.finite, hradius.finite, hreachpos, hoffsetpos, hoffsetle,
    ?_, ?_, ?_⟩, hpos, ?_⟩
  · change value ((1.0 + 0.55) * radius S twinLobe) ≤ _
    linarith
  · change _ ≤ value ((1.0 + 0.55) * radius S twinLobe) + _
    linarith
  · change 2 * value ((1.0 + 0.55) * radius S twinLobe) ≤ _
    rcases le_total (value S.w) 300 with hm | hm <;> linarith
  · rcases le_total (value S.h) 300 with hm | hm <;> linarith

theorem finite_of_mem_elements (h : S.Ranged k) (hk : Scale k) {wanted : Point}
    (hx : wanted.x.isFinite = true) (hy : wanted.y.isFinite = true) {shape : PondShape}
    {e : Element} (he : e ∈ shape.elements S wanted) : e.shape.isFinite = true := by
  cases shape with
  | round =>
    obtain ⟨hr, hpos, hw, hh⟩ := radius_round h hk
    obtain rfl := List.mem_singleton.1 he
    exact Shape.finite_circle (h.across.pondCenter hk hx hr hpos hw).1
      (h.down.pondCenter hk hy hr hpos hh).1 hr
  | twinLobe =>
    obtain ⟨hpond, hpos, hh⟩ := twinPond h hk
    have hr := hpond.finite
    obtain ⟨hfirst, hsecond, hchannel⟩ := h.across.near_twinPond hk hx hpond
    have hcenter := (h.down.pondCenter hk hy hr hpos hh).1
    obtain ⟨hdown, hheight⟩ := h.down.finite_pond hk hy hr hpos hh
    simp only [elements, List.mem_cons, List.not_mem_nil, or_false] at he
    rcases he with rfl | rfl | rfl
    · exact Shape.finite_circle hfirst.finite hcenter hr
    · exact Shape.finite_circle hsecond.finite hcenter hr
    · exact Rect.isFinite_iff.2 ⟨hsecond.finite, hdown, hchannel.finite, hheight⟩

/-- Every element of a pond lies in the sector, up to a tolerance that has room for a pond. -/
theorem containsRect_of_mem_elements (h : S.Ranged k) (hk : Scale k) {tolerance : Float32} {t : ℚ}
    (ht : PondTolerance k tolerance t) {wanted : Point} (hx : wanted.x.isFinite = true)
    (hy : wanted.y.isFinite = true) {shape : PondShape} {e : Element}
    (he : e ∈ shape.elements S wanted) : S.containsRect e.shape.bounds tolerance = true := by
  rw [Rect.containsRect_iff_holdsUpTo]
  cases shape with
  | round =>
    obtain ⟨hr, hpos, hw, hh⟩ := radius_round h hk
    obtain rfl := List.mem_singleton.1 he
    exact ⟨h.across.holdsUpTo_pond hk ht hx hr hpos hw, h.down.holdsUpTo_pond hk ht hy hr hpos hh⟩
  | twinLobe =>
    obtain ⟨hpond, hpos, hh⟩ := twinPond h hk
    obtain ⟨hfirst, hsecond, hchannel⟩ := h.across.holdsUpTo_twinPond hk ht hx hpond
    have hdown := h.down.holdsUpTo_pond hk ht hy hpond.finite hpos hh
    simp only [elements, List.mem_cons, List.not_mem_nil, or_false] at he
    rcases he with rfl | rfl | rfl
    · exact ⟨hfirst, hdown⟩
    · exact ⟨hsecond, hdown⟩
    · exact ⟨hchannel, hdown⟩

private theorem liesIn_of_mem_elements (h : S.Ranged k) (hk : Scale k) {wanted : Point}
    (hx : wanted.x.isFinite = true) (hy : wanted.y.isFinite = true) {shape : PondShape}
    {e : Element} (he : e ∈ shape.elements S wanted) : e.shape.LiesIn k S where
  finite := finite_of_mem_elements h hk hx hy he
  inside hsmall := containsRect_of_mem_elements h hk (pondTolerance_gridUnit hsmall) hx hy he

end PondShape

end Shapes

/-! ### Trees -/

namespace Scatter
variable {σ : Type} [WordSource σ] {s : Scatter} {bounds : Rect} {c : Circle}

/-- Whatever the number of tries, the circle that is placed is a candidate that had room. -/
theorem candidate_of_placeOne {placed : List Circle} {tries : ℕ} {source : σ}
    (h : (s.placeOne bounds placed tries source).1 = some c) :
    hasRoom bounds placed c = true ∧ ∃ source' : σ, c = (s.candidate bounds source').1 := by
  induction tries generalizing source with
  | zero => cases h
  | succ tries ih =>
    simp only [placeOne] at h
    split at h
    · next hroom =>
      obtain rfl := Option.some.inj h
      exact ⟨hroom, source, rfl⟩
    · exact ih h

/-- What holds of no circles, and still holds when a candidate that has room joins them, holds of
the circles of a whole scatter, the latest first. -/
theorem placeAll_induction {motive : List Circle → Prop} (hnil : motive [])
    (hcons : ∀ placed (source : σ), motive placed →
      hasRoom bounds placed (s.candidate bounds source).1 = true →
      motive ((s.candidate bounds source).1 :: placed)) (source : σ) :
    motive (s.placeAll bounds source).circles.reverse := by
  rw [placeAll, List.reverse_reverse]
  apply List.foldlRecOn (motive := fun done : Scattered σ => motive done.circles) _ _ hnil
  intro done hdone i _
  unfold placeNext
  split
  · next c source hplaced =>
    obtain ⟨hroom, source', rfl⟩ := candidate_of_placeOne (congrArg Prod.fst hplaced)
    exact hcons done.circles source' hdone hroom
  · exact hdone

theorem hasRoom_iff {placed : List Circle} : hasRoom bounds placed c = true ↔
    c.within bounds = true ∧ ∀ p ∈ placed, c.collides p = false := by
  simp only [hasRoom, Bool.and_eq_true, Bool.not_eq_true', List.any_eq_false, Bool.not_eq_true]

/-- Whether a circle has a radius and a center as they are drawn, and was found to lie in the
bounds. -/
def Drawn (s : Scatter) (bounds : Rect) (c : Circle) : Prop :=
  ∃ r dx dy : Int32, (s.smallest.toInt ≤ r.toInt ∧ r.toInt ≤ s.largest.toInt) ∧
    c = ⟨⟨bounds.x + fromInt dx, bounds.y + fromInt dy⟩, fromInt r⟩ ∧ c.within bounds = true

private theorem drawn_candidate (hle : s.smallest ≤ s.largest) {source : σ}
    (h : (s.candidate bounds source).1.within bounds = true) :
    s.Drawn bounds (s.candidate bounds source).1 :=
  ⟨_, _, _, drawInt_mem hle source, rfl, h⟩

theorem drawn_of_mem_placeAll (hle : s.smallest ≤ s.largest) {source : σ}
    (h : c ∈ (s.placeAll bounds source).circles) : s.Drawn bounds c := by
  have hall := placeAll_induction (s := s)
    (motive := fun circles => ∀ c ∈ circles, s.Drawn bounds c) (by simp)
    (fun placed source hplaced hroom => List.forall_mem_cons.2
      ⟨drawn_candidate hle (hasRoom_iff.1 hroom).1, hplaced⟩) source
  exact hall c (List.mem_reverse.2 h)

end Scatter

section Trees
variable {k : ℤ} {S : Rect}

private theorem abs_toInt_le (i : Int32) : |(i.toInt : ℚ)| ≤ 2 ^ (31 : ℤ) := by
  have hlow : ((-2 ^ 31 : ℤ) : ℚ) ≤ i.toInt := by exact_mod_cast i.le_toInt
  have hhigh : (i.toInt : ℚ) ≤ ((2 ^ 31 : ℤ) : ℚ) := by exact_mod_cast i.toInt_lt.le
  norm_num at hlow hhigh ⊢
  exact abs_le.2 ⟨hlow, hhigh⟩

theorem finite_add_fromInt (hk : Scale k) {x : Float32} (hx : x.isFinite = true)
    (hlow : -(2 * 2 ^ k) ≤ value x) (hhigh : value x ≤ 2 * 2 ^ k) (i : Int32) :
    (x + fromInt i).isFinite = true ∧ (k ≤ 25 → |value (x + fromInt i)| ≤ 2 ^ (100 : ℤ)) := by
  have hi := stands_fromInt i
  have hilow := abs_rounded_le (representable_two_zpow (by norm_num)) (abs_toInt_le i)
  rw [← hi.value_eq] at hilow
  have hsum : |value x + value (fromInt i)| ≤ 2 ^ (k + 1) + 2 ^ (31 : ℤ) :=
    (abs_add_le _ _).trans (add_le_add (abs_le_two_zpow hlow hhigh) hilow)
  have hlargest : (2 : ℚ) ^ (k + 1) + 2 ^ (31 : ℤ) ≤ largest := by
    have := two_zpow_le (show k + 1 ≤ 127 by linarith [hk.high])
    norm_num [largest] at this ⊢
    linarith
  have hstands := stands_add hx hi.finite (hsum.trans hlargest)
  refine ⟨hstands.finite, fun hsmall => ?_⟩
  rw [hstands.value_eq]
  refine abs_rounded_le (representable_two_zpow (by norm_num)) (hsum.trans ?_)
  have := two_zpow_le (show k + 1 ≤ 26 by linarith)
  norm_num at this ⊢
  linarith

theorem Scatter.Drawn.radius {c : Circle} {count tries : ℕ}
    (hc : (Scatter.atLeastOnce count 19 37 tries).Drawn S c) :
    c.r.isFinite = true ∧ 0 ≤ value c.r ∧ value c.r ≤ 37 := by
  obtain ⟨r, dx, dy, ⟨hleast, hmost⟩, rfl, -⟩ := hc
  change (19 : ℤ) ≤ r.toInt at hleast
  change r.toInt ≤ (37 : ℤ) at hmost
  have hr := stands_fromInt r
  rw [rounded_of_representable (representable_intCast (by rw [abs_of_nonneg] <;> omega))] at hr
  rw [hr.value_eq]
  exact ⟨hr.finite, by exact_mod_cast (by omega : (0 : ℤ) ≤ r.toInt), by exact_mod_cast hmost⟩

private theorem liesIn_of_drawn (h : S.Ranged k) (hk : Scale k) {c : Circle} {count : ℕ} {tries : ℕ}
    (hc : (Scatter.atLeastOnce count 19 37 tries).Drawn S c) : (Shape.circle c).LiesIn k S := by
  obtain ⟨hr, hpos, hle⟩ := hc.radius
  obtain ⟨r, dx, dy, -, rfl, hwithin⟩ := hc
  obtain ⟨hscale, hunit, hxlow, hxhigh, hwpos, hwextent⟩ := h.across.bounds hk
  obtain ⟨-, -, hylow, hyhigh, hhpos, hhextent⟩ := h.down.bounds hk
  obtain ⟨hx, hxrange⟩ := finite_add_fromInt hk h.across.finite (by linarith) (by linarith) dx
  obtain ⟨hy, hyrange⟩ := finite_add_fromInt hk h.down.finite (by linarith) (by linarith) dy
  simp only [Circle.within, Bool.and_eq_true, decide_eq_true_eq] at hwithin
  obtain ⟨⟨⟨hleft, hright⟩, htop⟩, hbottom⟩ := hwithin
  exact .circle hx hy hr fun hsmall =>
    ⟨h.across.holds_tree hk hsmall hx hr (hxrange hsmall) hpos hle hleft hright,
      h.down.holds_tree hk hsmall hy hr (hyrange hsmall) hpos hle htop hbottom⟩

theorem finite_drawCenter {σ : Type} [WordSource σ] (h : S.Ranged k) (hk : Scale k) (source : σ) :
    (Pond.drawCenter S source).1.x.isFinite = true ∧
      (Pond.drawCenter S source).1.y.isFinite = true := by
  have hmiddle : ∀ {x w : Float32}, SectorSpan k x w →
      ∀ i, (x + w * 0.5 + fromInt i).isFinite = true := by
    intro x w hspan i
    obtain ⟨hscale, hunit, hxlow, hxhigh, hwpos, hextent⟩ := hspan.bounds hk
    have hhalf := hk.mul (stands_value hspan.finite_extent) stands_half (by linarith)
      (by linarith)
    have hcenter := hk.add (stands_value hspan.finite) (stands_value hhalf.finite)
      (by linarith [hhalf.low]) (by linarith [hhalf.high])
    exact (finite_add_fromInt hk hcenter.finite (by linarith [hcenter.low, hhalf.low])
      (by linarith [hcenter.high, hhalf.high]) i).1
  exact ⟨hmiddle h.across _, hmiddle h.down _⟩

end Trees

/-! ### Expansions -/

section Expansions
variable {σ : Type} [WordSource σ] {params : Params} {g : Graph} {e y : Element} {name : String}
  {x : Expansion} {k : ℤ} {S : Rect}

private theorem liesIn_parts (h : S.Ranged k) (hk : Scale k) {cut : Cut}
    (hfits : S.fits cut minCutSide = true) :
    (Shape.rect (S.firstPart cut)).LiesIn k S ∧ (Shape.rect (S.secondPart cut)).LiesIn k S := by
  obtain ⟨⟨-, hfirst⟩, -, hsecond⟩ := h.parts hk hfits
  obtain ⟨axis, share⟩ := cut
  obtain ⟨f, g, hs⟩ := share.parts
  cases axis with
  | vertical =>
    exact ⟨.rect (h.across.planted_firstPart hk hs hfirst.across) (h.down.planted_all hk),
      .rect (h.across.planted_secondPart hk hs hfirst.across hsecond.across)
        (h.down.planted_all hk)⟩
  | horizontal =>
    exact ⟨.rect (h.across.planted_all hk) (h.down.planted_firstPart hk hs hfirst.down),
      .rect (h.across.planted_all hk)
        (h.down.planted_secondPart hk hs hfirst.down hsecond.down)⟩

theorem drawn_of_mem_grove {source : σ} {c : Circle} (hc : c ∈ (Grove.trees S source).circles) :
    (Grove.scatter S).Drawn S c :=
  Scatter.drawn_of_mem_placeAll (show (19 : Int32) ≤ 37 by decide) (Grove.trees_eq S source ▸ hc)

private theorem liesIn_of_mem_plants (h : S.Ranged k) (hk : Scale k) {source : σ}
    {terrain : Terrain} (hy : y ∈ terrain.plants S source) : y.shape.LiesIn k S := by
  cases terrain with
  | grass => cases hy
  | flowers => cases hy
  | trees =>
    obtain ⟨c, hc, rfl⟩ := List.mem_map.1 hy
    exact liesIn_of_drawn h hk (drawn_of_mem_grove hc)
  | water =>
    obtain ⟨hx, hy'⟩ := finite_drawCenter h hk source
    exact PondShape.liesIn_of_mem_elements h hk hx hy' hy

/-- What is added where an area or a flower area is expanded is finite, and lies in it if the
coordinates are small enough; a fountain needs sides of some length. -/
theorem Expands.liesIn (h : Expands σ params g e name x)
    (he : e.symbol = .area ∨ e.symbol = .flowerArea) (hrect : e.rect? = some S)
    (hranged : S.Ranged k) (hk : Scale k) (hy : y ∈ x.added) : y.shape.isFinite = true ∧
      ((y.symbol = .fountain → 16 + 9 * unit k ≤ value S.w ∧ 16 + 9 * unit k ≤ value S.h) →
        y.shape.LiesIn k S) := by
  have hlies : y.shape.LiesIn k S → y.shape.isFinite = true ∧
      ((y.symbol = .fountain → 16 + 9 * unit k ≤ value S.w ∧ 16 + 9 * unit k ≤ value S.h) →
        y.shape.LiesIn k S) := fun hlies => ⟨hlies.finite, fun _ => hlies⟩
  cases h with
  | gardenSplit => simp [Element.symbol] at he
  | areaSplit rect depth cut thickness hcut hfits hthickness =>
    obtain rfl := Option.some.inj hrect
    obtain ⟨hfirst, hsecond⟩ := liesIn_parts hranged hk hfits
    simp only [List.mem_cons, List.not_mem_nil, or_false] at hy
    rcases hy with rfl | rfl
    · exact hlies hfirst
    · exact hlies hsecond
  | areaTerminal rect depth terrain source =>
    obtain rfl := Option.some.inj hrect
    exact hlies (liesIn_of_mem_plants hranged hk hy)
  | roseBeds rect beds hbeds =>
    obtain rfl := Option.some.inj hrect
    obtain ⟨bed, hbed, rfl⟩ := List.mem_map.1 hy
    exact hlies (liesIn_of_mem_roses hranged hk hbeds (List.mem_of_mem_filter hbed))
  | fountainCourt rect =>
    obtain rfl := Option.some.inj hrect
    rcases List.mem_cons.1 hy with rfl | hy
    · refine ⟨finite_fountain hranged hk, fun hwide => ?_⟩
      obtain ⟨hw, hh⟩ := hwide rfl
      exact liesIn_fountain hranged hk hw hh
    · obtain ⟨bed, hbed, rfl⟩ := List.mem_map.1 hy
      exact hlies (liesIn_of_mem_tulips hranged hk (List.mem_of_mem_filter hbed))
  | pathNetwork => simp [Element.symbol] at he

end Expansions
end Parterre
