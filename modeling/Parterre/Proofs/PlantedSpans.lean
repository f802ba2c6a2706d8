import Parterre.Proofs.SectorSpans

/-! # What is planted along one axis

Whatever an expansion puts on a sector is laid out axis by axis.  Along each of them it is a stretch
whose ends are finite, and which the span of the sector holds, up to a grid unit, as long as the
coordinates are not too large.  A pond needs far less than a grid unit: four rounding errors, and a
little more for the rounding of its size. -/
namespace Parterre
open Binary32 FlowerBed

/-- Whether the stretch from `p` by `l` lies in the one from `x` by `w`, up to a tolerance at both
ends. -/
structure HoldsUpTo (tolerance x w p l : Float32) : Prop where
  low : p ≥ x - tolerance
  high : p + l ≤ x + w + tolerance

/-- A tolerance of a grid unit at most. -/
structure IsTolerance (tolerance : Float32) (t : ℚ) : Prop where
  stands : Stands tolerance t
  nonneg : 0 ≤ t
  le_ten : t ≤ 10

/-- Whether the stretch from `p` by `l` lies in the one from `x` by `w`, up to a grid unit at both
ends. -/
structure Holds (x w p l : Float32) : Prop where
  low : p ≥ x - gridUnit
  high : p + l ≤ x + w + gridUnit

/-- A stretch that is planted on a span. -/
structure Planted (k : ℤ) (x w p l : Float32) : Prop where
  finite : p.isFinite = true
  finite_extent : l.isFinite = true
  inside : k ≤ 25 → Holds x w p l

@[simp] theorem holdsUpTo_gridUnit_iff {x w p l : Float32} :
    HoldsUpTo gridUnit x w p l ↔ Holds x w p l :=
  ⟨fun h => ⟨h.low, h.high⟩, fun h => ⟨h.low, h.high⟩⟩

theorem isTolerance_gridUnit : IsTolerance gridUnit 10 := ⟨stands_gridUnit, by norm_num, le_rfl⟩

theorem Rect.containsRect_iff_holdsUpTo {r inner : Rect} {tolerance : Float32} :
    r.containsRect inner tolerance = true ↔
      HoldsUpTo tolerance r.x r.w inner.x inner.w ∧
        HoldsUpTo tolerance r.y r.h inner.y inner.h := by
  simp only [containsRect, Bool.and_eq_true, decide_eq_true_eq]
  constructor
  · rintro ⟨⟨⟨hleft, htop⟩, hright⟩, hbottom⟩
    exact ⟨⟨hleft, hright⟩, htop, hbottom⟩
  · rintro ⟨⟨hleft, hright⟩, htop, hbottom⟩
    exact ⟨⟨⟨hleft, htop⟩, hright⟩, hbottom⟩

theorem Rect.containsRect_iff {r inner : Rect} : r.containsRect inner gridUnit = true ↔
    Holds r.x r.w inner.x inner.w ∧ Holds r.y r.h inner.y inner.h :=
  containsRect_iff_holdsUpTo.trans (and_congr holdsUpTo_gridUnit_iff holdsUpTo_gridUnit_iff)

theorem stands_two : Stands 2.0 2 :=
  stands_of_parts (n := false) (m := 8388608) (e := -22) ⟨rfl, rfl⟩ (by norm_num)

theorem stands_double {x : Float32} (hx : x.isFinite = true) (h : |2 * value x| ≤ largest) :
    Stands (2.0 * x) (2 * value x) := by
  have hproduct := stands_mul stands_two.finite hx
  rw [stands_two.value_eq, rounded_of_representable (representable_value x).two_mul] at hproduct
  exact hproduct h

section Spans
variable {k : ℤ} {x w : Float32}

theorem unit_le_two (h : k ≤ 25) : unit k ≤ 2 := by
  have hle : unit k ≤ 2 ^ (1 : ℤ) := two_zpow_le (by omega)
  norm_num at hle
  exact hle

/-- What bounds the results of operations on a span. -/
theorem SectorSpan.bounds (h : SectorSpan k x w) (hk : Scale k) : 256 ≤ (2 : ℚ) ^ k ∧
    (2 : ℚ) ^ k = 16777216 * unit k ∧ -2 ^ k ≤ value x ∧
    value x + value w ≤ 17 / 16 * 2 ^ k ∧ 0 < value w ∧ value w ≤ 2 * 2 ^ k :=
  ⟨hk.le, two_zpow_eq k, h.low, by linarith [h.high, drift_nonneg (k := k) h.pos.le], h.pos,
    h.extent_le⟩

theorem SectorSpan.right (h : SectorSpan k x w) (hk : Scale k) :
    Near (unit k) (x + w) (value x + value w) := by
  obtain ⟨hscale, hunit, hlow, hhigh, hpos, hextent⟩ := h.bounds hk
  exact hk.add (stands_value h.finite) (stands_value h.finite_extent) (by linarith) (by linarith)

/-- A stretch is held by a span if it is as far as its ends are concerned, before these are
rounded. -/
theorem SectorSpan.holdsUpTo (h : SectorSpan k x w) (hk : Scale k) {tolerance : Float32} {t : ℚ}
    (ht : IsTolerance tolerance t) {p l : Float32} (hp : p.isFinite = true) (hl : l.isFinite = true)
    (hlow : rounded (value x - t) ≤ value p) (hleast : -(2 * 2 ^ k) ≤ value p + value l)
    (hhigh : value p + value l ≤ value (x + w) + t) : HoldsUpTo tolerance x w p l := by
  obtain ⟨ht, hpos, hten⟩ := ht
  obtain ⟨hscale, hunit, hxlow, hxhigh, hwpos, hextent⟩ := h.bounds hk
  have hright := h.right hk
  have hbegin := stands_sub h.finite ht.finite
  have hend := stands_add hright.finite ht.finite
  rw [ht.value_eq] at hbegin hend
  have hbegin := hbegin (hk.abs_le_largest (by linarith) (by linarith))
  have hend := hend (hk.abs_le_largest (by linarith [hright.low]) (by linarith [hright.high]))
  have hsum := stands_add hp hl
    (hk.abs_le_largest hleast (by linarith [hright.high]))
  constructor
  · rwa [ge_iff_le, le_iff hbegin.finite hp, hbegin.value_eq]
  · rw [le_iff hsum.finite hend.finite, hsum.value_eq, hend.value_eq]
    exact rounded_mono hhigh

theorem SectorSpan.holds (h : SectorSpan k x w) (hk : Scale k) {p l : Float32}
    (hp : p.isFinite = true) (hl : l.isFinite = true)
    (hlow : rounded (value x - 10) ≤ value p) (hleast : -(2 * 2 ^ k) ≤ value p + value l)
    (hhigh : value p + value l ≤ value (x + w) + 10) : Holds x w p l :=
  holdsUpTo_gridUnit_iff.1 (h.holdsUpTo hk isTolerance_gridUnit hp hl hlow hleast hhigh)

/-- A stretch whose ends lie in the span up to a grid unit. -/
theorem SectorSpan.planted (h : SectorSpan k x w) (hk : Scale k) {p l : Float32}
    (hp : p.isFinite = true) (hl : l.isFinite = true) (hleast : -(2 * 2 ^ k) ≤ value p + value l)
    (hlow : k ≤ 25 → value x - 10 ≤ value p)
    (hhigh : k ≤ 25 → value p + value l ≤ value (x + w) + 10) : Planted k x w p l where
  finite := hp
  finite_extent := hl
  inside hsmall := h.holds hk hp hl
    ((rounded_mono (hlow hsmall)).trans_eq (rounded_value p)) hleast (hhigh hsmall)

theorem SectorSpan.holdsUpTo_circle (h : SectorSpan k x w) (hk : Scale k) {tolerance : Float32}
    {t : ℚ} (ht : IsTolerance tolerance t) {c r : Float32} (hc : c.isFinite = true)
    (hr : r.isFinite = true) (hpos : 0 ≤ value r) (hlow : value x - t ≤ value c - value r)
    (hhigh : value c + value r + unit k ≤ value (x + w) + t) :
    HoldsUpTo tolerance x w (c - r) (2.0 * r) := by
  obtain ⟨hscale, hunit, hxlow, hxhigh, hwpos, hextent⟩ := h.bounds hk
  have hlargest := hk.le_largest
  have hright := h.right hk
  have hten := ht.le_ten
  have hrange := hk.abs_le_largest (u := value c - value r) (by linarith)
    (by linarith [hright.high])
  have hbegin := stands_sub hc hr hrange
  have hnear := hk.sub (stands_value hc) (stands_value hr) (by linarith)
    (by linarith [hright.high])
  have hsquare := stands_double hr
    (abs_le.2 ⟨by linarith, by linarith [hright.high]⟩)
  refine h.holdsUpTo hk ht hbegin.finite hsquare.finite ?_ ?_ ?_
  · rw [hbegin.value_eq]
    exact rounded_mono hlow
  · linarith [hsquare.value_eq, hnear.low]
  · linarith [hsquare.value_eq, hnear.high]

private theorem SectorSpan.holds_circle (h : SectorSpan k x w) (hk : Scale k) {c r : Float32}
    (hc : c.isFinite = true) (hr : r.isFinite = true) (hpos : 0 ≤ value r)
    (hlow : value x - 10 ≤ value c - value r)
    (hhigh : value c + value r + unit k ≤ value (x + w) + 10) : Holds x w (c - r) (2.0 * r) :=
  holdsUpTo_gridUnit_iff.1 (h.holdsUpTo_circle hk isTolerance_gridUnit hc hr hpos hlow hhigh)

/-! ### Beds -/

theorem stands_pad : Stands pad 10 := stands_gridUnit

theorem stands_two_pads : Stands (2.0 * pad) 20 :=
  stands_of_parts (n := false) (m := 10485760) (e := -19) ⟨rfl, rfl⟩ (by norm_num)

theorem stands_half_roseGap : Stands (roseGap / 2.0) 5 :=
  stands_of_parts (n := false) (m := 10485760) (e := -21) ⟨rfl, rfl⟩ (by norm_num)

theorem stands_half_crossPath : Stands (crossPath / 2.0) 5 := stands_half_roseGap

theorem stands_tulipGap : Stands tulipGap 8 :=
  stands_of_parts (n := false) (m := 8388608) (e := -20) ⟨rfl, rfl⟩ (by norm_num)

theorem stands_half : Stands 0.5 (1 / 2) :=
  stands_of_parts (n := false) (m := 8388608) (e := -24) ⟨rfl, rfl⟩ (by norm_num)

theorem SectorSpan.inset (h : SectorSpan k x w) (hk : Scale k) :
    Near (unit k) (x + pad) (value x + 10) ∧ Near (unit k) (w - 2.0 * pad) (value w - 20) := by
  obtain ⟨hscale, hunit, hlow, hhigh, hpos, hextent⟩ := h.bounds hk
  exact ⟨hk.add (stands_value h.finite) stands_pad (by linarith) (by linarith),
    hk.sub (stands_value h.finite_extent) stands_two_pads (by linarith) (by linarith)⟩

/-- A bed that takes all of a span but the lawn. -/
theorem SectorSpan.planted_inset (h : SectorSpan k x w) (hk : Scale k) :
    Planted k x w (x + pad) (w - 2.0 * pad) := by
  obtain ⟨hscale, hunit, hxlow, hxhigh, hpos, hextent⟩ := h.bounds hk
  obtain ⟨hp, hl⟩ := h.inset hk
  have hright := h.right hk
  refine h.planted hk hp.finite hl.finite (by linarith [hp.low, hl.low]) (fun hsmall => ?_)
    fun hsmall => ?_
  · linarith [hp.low, unit_le_two hsmall]
  · linarith [hp.high, hl.high, hright.low, unit_le_two hsmall]

theorem SectorSpan.half_inset (h : SectorSpan k x w) (hk : Scale k) :
    Near (unit k) ((w - 2.0 * pad) / 2.0) (value (w - 2.0 * pad) / 2) := by
  obtain ⟨hscale, hunit, hxlow, hxhigh, hpos, hextent⟩ := h.bounds hk
  obtain ⟨-, hl⟩ := h.inset hk
  exact hk.div (stands_value hl.finite) stands_two (by norm_num) (by linarith [hl.low])
    (by linarith [hl.high])

theorem SectorSpan.planted_firstHalf (h : SectorSpan k x w) (hk : Scale k) :
    Planted k x w (x + pad) ((w - 2.0 * pad) / 2.0 - roseGap / 2.0) := by
  obtain ⟨hscale, hunit, hxlow, hxhigh, hpos, hextent⟩ := h.bounds hk
  obtain ⟨hp, hinner⟩ := h.inset hk
  have hhalf := h.half_inset hk
  have hl := hk.sub (stands_value hhalf.finite) stands_half_roseGap
    (by linarith [hhalf.low, hinner.low]) (by linarith [hhalf.high, hinner.high])
  have hright := h.right hk
  refine h.planted hk hp.finite hl.finite (by linarith [hp.low, hl.low, hhalf.low, hinner.low])
    (fun hsmall => ?_) fun hsmall => ?_
  · linarith [hp.low, unit_le_two hsmall]
  · linarith [hp.high, hl.high, hhalf.high, hinner.high, hright.low, unit_le_two hsmall]

theorem SectorSpan.planted_secondHalf (h : SectorSpan k x w) (hk : Scale k) :
    Planted k x w (x + pad + (w - 2.0 * pad) / 2.0 + roseGap / 2.0)
      ((w - 2.0 * pad) / 2.0 - roseGap / 2.0) := by
  obtain ⟨hscale, hunit, hxlow, hxhigh, hpos, hextent⟩ := h.bounds hk
  obtain ⟨hbegin, hinner⟩ := h.inset hk
  have hhalf := h.half_inset hk
  have hmiddle := hk.add (stands_value hbegin.finite) (stands_value hhalf.finite)
    (by linarith [hbegin.low, hhalf.low, hinner.low])
    (by linarith [hbegin.high, hhalf.high, hinner.high])
  have hp := hk.add (stands_value hmiddle.finite) stands_half_roseGap
    (by linarith [hmiddle.low, hbegin.low, hhalf.low, hinner.low])
    (by linarith [hmiddle.high, hbegin.high, hhalf.high, hinner.high])
  have hl := hk.sub (stands_value hhalf.finite) stands_half_roseGap
    (by linarith [hhalf.low, hinner.low]) (by linarith [hhalf.high, hinner.high])
  have hright := h.right hk
  refine h.planted hk hp.finite hl.finite ?_ (fun hsmall => ?_) fun hsmall => ?_
  · linarith [hp.low, hmiddle.low, hbegin.low, hl.low, hhalf.low, hinner.low]
  · linarith [hp.low, hmiddle.low, hbegin.low, hhalf.low, hinner.low, unit_le_two hsmall]
  · linarith [hp.high, hmiddle.high, hbegin.high, hl.high, hhalf.high, hinner.high, hright.low,
      unit_le_two hsmall]

theorem SectorSpan.middle (h : SectorSpan k x w) (hk : Scale k) :
    Near (unit k) ((w - 2.0 * pad) * 0.5) (value (w - 2.0 * pad) / 2) ∧
      Near (unit k) (x + pad + (w - 2.0 * pad) * 0.5)
        (value (x + pad) + value ((w - 2.0 * pad) * 0.5)) := by
  obtain ⟨hscale, hunit, hxlow, hxhigh, hpos, hextent⟩ := h.bounds hk
  obtain ⟨hbegin, hinner⟩ := h.inset hk
  have hhalf := hk.mul (stands_value hinner.finite) stands_half (by linarith [hinner.low])
    (by linarith [hinner.high])
  rw [mul_one_div] at hhalf
  exact ⟨hhalf, hk.add (stands_value hbegin.finite) (stands_value hhalf.finite)
    (by linarith [hbegin.low, hhalf.low, hinner.low])
    (by linarith [hbegin.high, hhalf.high, hinner.high])⟩

theorem SectorSpan.planted_before (h : SectorSpan k x w) (hk : Scale k) :
    Planted k x w (x + pad) (x + pad + (w - 2.0 * pad) * 0.5 - crossPath / 2.0 - (x + pad) -
      tulipGap) := by
  obtain ⟨hscale, hunit, hxlow, hxhigh, hpos, hextent⟩ := h.bounds hk
  obtain ⟨hbegin, hinner⟩ := h.inset hk
  obtain ⟨hhalf, hmiddle⟩ := h.middle hk
  have hpath := hk.sub (stands_value hmiddle.finite) stands_half_crossPath
    (by linarith [hmiddle.low, hbegin.low, hhalf.low, hinner.low])
    (by linarith [hmiddle.high, hbegin.high, hhalf.high, hinner.high])
  have hfree := hk.sub (stands_value hpath.finite) (stands_value hbegin.finite)
    (by linarith [hpath.low, hmiddle.low, hhalf.low, hinner.low])
    (by linarith [hpath.high, hmiddle.high, hhalf.high, hinner.high])
  have hl := hk.sub (stands_value hfree.finite) stands_tulipGap
    (by linarith [hfree.low, hpath.low, hmiddle.low, hhalf.low, hinner.low])
    (by linarith [hfree.high, hpath.high, hmiddle.high, hhalf.high, hinner.high])
  have hright := h.right hk
  refine h.planted hk hbegin.finite hl.finite ?_ (fun hsmall => ?_) fun hsmall => ?_
  · linarith [hbegin.low, hl.low, hfree.low, hpath.low, hmiddle.low, hhalf.low, hinner.low]
  · linarith [hbegin.low, unit_le_two hsmall]
  · linarith [hbegin.high, hl.high, hfree.high, hpath.high, hmiddle.high, hhalf.high, hinner.high,
      hright.low, unit_le_two hsmall]

theorem SectorSpan.planted_behind (h : SectorSpan k x w) (hk : Scale k) :
    Planted k x w (x + pad + (w - 2.0 * pad) * 0.5 + crossPath / 2.0 + tulipGap)
      (x + pad + (w - 2.0 * pad) - (x + pad + (w - 2.0 * pad) * 0.5 + crossPath / 2.0) -
        tulipGap) := by
  obtain ⟨hscale, hunit, hxlow, hxhigh, hpos, hextent⟩ := h.bounds hk
  obtain ⟨hbegin, hinner⟩ := h.inset hk
  obtain ⟨hhalf, hmiddle⟩ := h.middle hk
  have hpath := hk.add (stands_value hmiddle.finite) stands_half_crossPath
    (by linarith [hmiddle.low, hbegin.low, hhalf.low, hinner.low])
    (by linarith [hmiddle.high, hbegin.high, hhalf.high, hinner.high])
  have hp := hk.add (stands_value hpath.finite) stands_tulipGap
    (by linarith [hpath.low, hmiddle.low, hbegin.low, hhalf.low, hinner.low])
    (by linarith [hpath.high, hmiddle.high, hbegin.high, hhalf.high, hinner.high])
  have hend := hk.add (stands_value hbegin.finite) (stands_value hinner.finite)
    (by linarith [hbegin.low, hinner.low]) (by linarith [hbegin.high, hinner.high])
  have hfree := hk.sub (stands_value hend.finite) (stands_value hpath.finite)
    (by linarith [hend.low, hpath.high, hmiddle.high, hhalf.high, hinner.low])
    (by linarith [hend.high, hpath.low, hmiddle.low, hhalf.low, hinner.high])
  have hl := hk.sub (stands_value hfree.finite) stands_tulipGap
    (by linarith [hfree.low, hend.low, hpath.high, hmiddle.high, hhalf.high, hinner.low])
    (by linarith [hfree.high, hend.high, hpath.low, hmiddle.low, hhalf.low, hinner.high])
  have hright := h.right hk
  refine h.planted hk hp.finite hl.finite ?_ (fun hsmall => ?_) fun hsmall => ?_
  · linarith [hp.low, hl.low, hfree.low, hend.low, hbegin.low, hinner.low]
  · linarith [hp.low, hpath.low, hmiddle.low, hbegin.low, hhalf.low, hinner.low,
      unit_le_two hsmall]
  · -- the path that the bed keeps away from cancels
    linarith [hp.high, hl.high, hfree.high, hend.high, hbegin.high, hinner.high, hright.low,
      unit_le_two hsmall]

/-! ### Fountains -/

/-- The middle of a span, with errors in proportion. -/
theorem SectorSpan.middle_near (h : SectorSpan k x w) (hk : Scale k) :
    Near (2 * unit k + (value w + 20) / 8000000 + 1 / 8000000)
      (x + pad + (w - 2.0 * pad) * 0.5) (value x + value w / 2) := by
  obtain ⟨hscale, hunit, hxlow, hxhigh, hpos, hextent⟩ := h.bounds hk
  obtain ⟨hbegin, -⟩ := h.inset hk
  obtain ⟨-, hmiddle⟩ := h.middle hk
  have hrange : |value w - 20| ≤ value w + 20 := abs_le.2 ⟨by linarith, by linarith⟩
  have hinner := stands_sub h.finite_extent stands_two_pads.finite
  rw [stands_two_pads.value_eq] at hinner
  have hinner := (hinner (hk.abs_le_largest (by linarith) (by linarith))).near_mul
  norm_num at hinner
  have hinnerlow := hinner.low
  have hinnerhigh := hinner.high
  have hrange' : |value (w - 2.0 * pad) * (1 / 2)| ≤ value w + 20 :=
    abs_le.2 ⟨by linarith, by linarith⟩
  have hhalf := stands_mul hinner.finite stands_half.finite
  rw [stands_half.value_eq] at hhalf
  have hhalf := (hhalf (hk.abs_le_largest (by linarith) (by linarith))).near_mul
  norm_num at hhalf hrange'
  exact ⟨hmiddle.finite, by linarith [hmiddle.low, hbegin.low, hhalf.low],
    by linarith [hmiddle.high, hbegin.high, hhalf.high]⟩

/-- A fountain in the middle of a span, whose radius is the smallest one or a small part of the
span. -/
theorem SectorSpan.holds_fountain (h : SectorSpan k x w) (hk : Scale k) (hsmall : k ≤ 25)
    {r : Float32} (hr : r.isFinite = true)
    (hradius : value r = 18 ∧ 16 + 9 * unit k ≤ value w ∨
      18 ≤ value r ∧ value r ≤ 13 / 100 * value (w - 2.0 * pad)) :
    Holds x w (x + pad + (w - 2.0 * pad) * 0.5 - r) (2.0 * r) := by
  obtain ⟨hscale, hunit, hxlow, hxhigh, hpos, hextent⟩ := h.bounds hk
  have htwo := unit_le_two hsmall
  have hupos := unit_pos k
  have hmiddle := h.middle_near hk
  obtain ⟨-, hinner⟩ := h.inset hk
  have hright := h.right hk
  refine h.holds_circle hk hmiddle.finite hr ?_ ?_ ?_
  · rcases hradius with ⟨hradius, -⟩ | ⟨hradius, -⟩ <;> linarith
  · rcases hradius with ⟨hradius, hwide⟩ | ⟨hleast, hradius⟩
    · linarith [hmiddle.low]
    · linarith [hmiddle.low, hinner.high]
  · rcases hradius with ⟨hradius, hwide⟩ | ⟨hleast, hradius⟩
    · linarith [hmiddle.high, hright.low]
    · linarith [hmiddle.high, hinner.high, hright.low]

/-! ### Ponds -/

/-- The middle of a pond that reaches by `q` to both sides, moved into the span. -/
theorem SectorSpan.pondCenter (h : SectorSpan k x w) (hk : Scale k) {wanted q : Float32}
    (hwanted : wanted.isFinite = true) (hq : q.isFinite = true) (hpos : 0 ≤ value q)
    (hfits : 2 * value q ≤ value w + 1 / 16384) :
    (clampLow wanted (x + q) (x + w - q)).isFinite = true ∧
      value x + value q - unit k ≤ value (clampLow wanted (x + q) (x + w - q)) ∧
      value (clampLow wanted (x + q) (x + w - q)) + value q ≤
        value (x + w) + 2 * unit k + 1 / 16384 := by
  obtain ⟨hscale, hunit, hxlow, hxhigh, hwpos, hextent⟩ := h.bounds hk
  have hright := h.right hk
  have hleast := hk.add (stands_value h.finite) (stands_value hq) (by linarith) (by linarith)
  have hmost := hk.sub (stands_value hright.finite) (stands_value hq) (by linarith [hright.low])
    (by linarith [hright.high])
  have hclamp := stands_clampLow hwanted hleast.finite hmost.finite
  refine ⟨hclamp.finite, ?_, ?_⟩ <;> rw [hclamp.value_eq]
  · exact le_max_of_le_right (by linarith [hleast.low])
  · rcases max_choice (min (value wanted) (value (x + w - q))) (value (x + q)) with heq | heq
    · rw [heq]
      linarith [min_le_right (value wanted) (value (x + w - q)), hmost.high]
    · rw [heq]
      linarith [hleast.high, hright.low]

/-- A tolerance with room for a pond among coordinates up to `2 ^ k`. -/
structure PondTolerance (k : ℤ) (tolerance : Float32) (t : ℚ) : Prop
    extends IsTolerance tolerance t where
  room : 4 * unit k + 1 / 8192 ≤ t

theorem pondTolerance_gridUnit (hsmall : k ≤ 25) : PondTolerance k gridUnit 10 :=
  ⟨isTolerance_gridUnit, by linarith [unit_le_two hsmall]⟩

variable {tolerance : Float32} {t : ℚ}

/-- A pond that reaches as far as its radius. -/
theorem SectorSpan.holdsUpTo_pond (h : SectorSpan k x w) (hk : Scale k) {wanted r : Float32}
    (ht : PondTolerance k tolerance t) (hwanted : wanted.isFinite = true) (hr : r.isFinite = true)
    (hpos : 0 ≤ value r) (hfits : 2 * value r ≤ value w + 1 / 16384) :
    HoldsUpTo tolerance x w (clampLow wanted (x + r) (x + w - r) - r) (2.0 * r) := by
  have hroom := ht.room
  have hupos := unit_pos k
  obtain ⟨hc, hlow, hhigh⟩ := h.pondCenter hk hwanted hr hpos hfits
  exact h.holdsUpTo_circle hk ht.toIsTolerance hc hr hpos (by linarith) (by linarith)

theorem SectorSpan.finite_pond (h : SectorSpan k x w) (hk : Scale k) {wanted r : Float32}
    (hwanted : wanted.isFinite = true) (hr : r.isFinite = true) (hpos : 0 ≤ value r)
    (hfits : 2 * value r ≤ value w + 1 / 16384) :
    (clampLow wanted (x + r) (x + w - r) - r).isFinite = true ∧ (2.0 * r).isFinite = true := by
  obtain ⟨hscale, hunit, hxlow, hxhigh, hwpos, hextent⟩ := h.bounds hk
  obtain ⟨hc, hlow, hhigh⟩ := h.pondCenter hk hwanted hr hpos hfits
  have hright := h.right hk
  have hbegin := hk.sub (stands_value hc) (stands_value hr) (by linarith)
    (by linarith [hright.high])
  have hlargest := hk.le_largest
  exact ⟨hbegin.finite, (stands_double hr (abs_le.2 ⟨by linarith, by linarith⟩)).finite⟩

/-- What a twin pond extends by: its radius `r`, the distance `o` of its lobes from its middle, and
its reach `q`. -/
structure TwinPond (w q o r : Float32) : Prop where
  finite_reach : q.isFinite = true
  finite_offset : o.isFinite = true
  finite : r.isFinite = true
  pos : 0 ≤ value q
  pos_offset : 0 ≤ value o
  offset_le : value o ≤ value r
  reach_le : value q ≤ value r + value o + 1 / 16384
  le_reach : value r + value o ≤ value q + 1 / 16384
  fits : 2 * value q ≤ value w + 1 / 16384

variable {wanted q o r : Float32}

/-- The lobes of a twin pond, and the channel between them. -/
theorem SectorSpan.near_twinPond (h : SectorSpan k x w) (hk : Scale k)
    (hwanted : wanted.isFinite = true) (hpond : TwinPond w q o r) :
    Near (unit k) (clampLow wanted (x + q) (x + w - q) + o)
        (value (clampLow wanted (x + q) (x + w - q)) + value o) ∧
      Near (unit k) (clampLow wanted (x + q) (x + w - q) - o)
        (value (clampLow wanted (x + q) (x + w - q)) - value o) ∧
      Stands (2.0 * o) (2 * value o) := by
  obtain ⟨hq, ho, hr, hqpos, hopos, hor, hqle, hleq, hfits⟩ := hpond
  obtain ⟨hscale, hunit, hxlow, hxhigh, hwpos, hextent⟩ := h.bounds hk
  have hright := h.right hk
  obtain ⟨hc, hlow, hhigh⟩ := h.pondCenter hk hwanted hq hqpos hfits
  exact ⟨hk.add (stands_value hc) (stands_value ho) (by linarith) (by linarith [hright.high]),
    hk.sub (stands_value hc) (stands_value ho) (by linarith) (by linarith [hright.high]),
    stands_double ho (hk.abs_le_largest (by linarith) (by linarith [hright.high]))⟩

theorem SectorSpan.holdsUpTo_twinPond (h : SectorSpan k x w) (hk : Scale k)
    (ht : PondTolerance k tolerance t) (hwanted : wanted.isFinite = true)
    (hpond : TwinPond w q o r) :
    HoldsUpTo tolerance x w (clampLow wanted (x + q) (x + w - q) + o - r) (2.0 * r) ∧
      HoldsUpTo tolerance x w (clampLow wanted (x + q) (x + w - q) - o - r) (2.0 * r) ∧
      HoldsUpTo tolerance x w (clampLow wanted (x + q) (x + w - q) - o) (2.0 * o) := by
  have hroom := ht.room
  have hupos := unit_pos k
  obtain ⟨hfirst, hsecond, hchannel⟩ := h.near_twinPond hk hwanted hpond
  obtain ⟨hq, ho, hr, hqpos, hopos, hor, hqle, hleq, hfits⟩ := hpond
  obtain ⟨hscale, hunit, hxlow, hxhigh, hwpos, hextent⟩ := h.bounds hk
  obtain ⟨hc, hlow, hhigh⟩ := h.pondCenter hk hwanted hq hqpos hfits
  generalize clampLow wanted (x + q) (x + w - q) = c at *
  refine ⟨?_, ?_, ?_⟩
  · exact h.holdsUpTo_circle hk ht.toIsTolerance hfirst.finite hr (by linarith)
      (by linarith [hfirst.low]) (by linarith [hfirst.high])
  · exact h.holdsUpTo_circle hk ht.toIsTolerance hsecond.finite hr (by linarith)
      (by linarith [hsecond.low]) (by linarith [hsecond.high])
  · refine h.holdsUpTo hk ht.toIsTolerance hsecond.finite hchannel.finite ?_ ?_ ?_
    · exact (rounded_mono (by linarith [hsecond.low])).trans_eq (rounded_value (c - o))
    · linarith [hsecond.low, hchannel.value_eq]
    · linarith [hsecond.high, hchannel.value_eq]

/-! ### Trees -/

/-- A tree whose circle was found to lie in the span.  The test rounds, so the circle may stick out
by as much. -/
theorem SectorSpan.holds_tree (h : SectorSpan k x w) (hk : Scale k) (hsmall : k ≤ 25)
    {c r : Float32} (hc : c.isFinite = true) (hr : r.isFinite = true)
    (hrange : |value c| ≤ 2 ^ (100 : ℤ)) (hpos : 0 ≤ value r)
    (hmost : value r ≤ 37) (hleft : c - r ≥ x) (hend : c + r ≤ x + w) :
    Holds x w (c - r) (2.0 * r) := by
  obtain ⟨hscale, hunit, hxlow, hxhigh, hwpos, hextent⟩ := h.bounds hk
  have hright := h.right hk
  have htwo := unit_le_two hsmall
  obtain ⟨hclow, hchigh⟩ := abs_le.1 hrange
  norm_num at hclow hchigh
  have hlargest : (2 : ℚ) ^ (100 : ℤ) + 37 ≤ largest := by norm_num [largest]
  norm_num at hlargest
  have hbegin := stands_sub hc hr (abs_le.2 ⟨by linarith, by linarith⟩)
  have hfar := stands_add hc hr (abs_le.2 ⟨by linarith, by linarith⟩)
  have hleft := (le_iff h.finite hbegin.finite).1 hleft
  have hend := (le_iff hfar.finite hright.finite).1 hend
  rw [hbegin.value_eq] at hleft
  rw [hfar.value_eq] at hend
  have hrepresentable : Representable (2 * 2 ^ k) :=
    (representable_two_zpow (by linarith [hk.low])).two_mul
  -- what is out of range stays so when it is rounded
  have hlow : -(2 * 2 ^ k) ≤ value c - value r := by
    by_contra hout
    linarith [rounded_le hrepresentable.neg (not_le.1 hout).le]
  have hhigh : value c + value r ≤ 2 * 2 ^ k := by
    by_contra hout
    linarith [le_rounded hrepresentable (not_le.1 hout).le, hright.high]
  have hnear := hk.sub (stands_value hc) (stands_value hr) hlow (by linarith)
  have hnear' := hk.add (stands_value hc) (stands_value hr) (by linarith) hhigh
  have hsquare := stands_double hr (abs_le.2 ⟨by linarith, by linarith⟩)
  refine h.holds hk hbegin.finite hsquare.finite ?_ ?_ ?_
  · rw [hbegin.value_eq]
    exact ((rounded_mono (by linarith)).trans_eq (rounded_value x)).trans hleft
  · rw [hbegin.value_eq, hsquare.value_eq]
    linarith
  · rw [hsquare.value_eq]
    linarith [hnear.high, hnear'.low, hfar.value_eq]

/-! ### Parts -/

variable {share : Share} {f g : ℚ}

theorem SectorSpan.planted_all (h : SectorSpan k x w) (hk : Scale k) : Planted k x w x w := by
  obtain ⟨hscale, hunit, hxlow, hxhigh, hwpos, hextent⟩ := h.bounds hk
  have hright := h.right hk
  refine h.planted hk h.finite h.finite_extent (by linarith) (fun _ => by linarith) fun hsmall => ?_
  linarith [hright.low, unit_le_two hsmall]

theorem SectorSpan.planted_firstPart (h : SectorSpan k x w) (hk : Scale k) (hs : share.Parts f g)
    (hleast : 35 ≤ value (w * share.fraction)) : Planted k x w x (w * share.fraction) := by
  obtain ⟨hscale, hunit, hxlow, hxhigh, hwpos, hextent⟩ := h.bounds hk
  obtain ⟨hfinite, hle⟩ := h.part hk hs.first hs.nonneg_first (by linarith [hs.le_first])
  obtain ⟨⟨-, hshare⟩, -, -⟩ := h.shares hs
  have hright := h.right hk
  norm_num at hle
  refine h.planted hk h.finite hfinite (by linarith) (fun _ => by linarith) fun hsmall => ?_
  linarith [hright.low, unit_le_two hsmall]

theorem SectorSpan.planted_secondPart (h : SectorSpan k x w) (hk : Scale k) (hs : share.Parts f g)
    (hfirst : 35 ≤ value (w * share.fraction)) (hsecond : 35 ≤ value (w * (1.0 - share.fraction))) :
    Planted k x w (x + w * share.fraction) (w * (1.0 - share.fraction)) := by
  obtain ⟨hscale, hunit, hxlow, hxhigh, hwpos, hextent⟩ := h.bounds hk
  obtain ⟨⟨hnonneg, hshare⟩, ⟨hnonneg', hshare'⟩, hshares⟩ := h.shares hs
  have hright := h.right hk
  have hpart := hk.mul (stands_value h.finite_extent) hs.first (by linarith) (by linarith)
  have hpart' := hk.mul (stands_value h.finite_extent) hs.second (by linarith) (by linarith)
  have hbegin := hk.add (stands_value h.finite) (stands_value hpart.finite) (by linarith)
    (by linarith [hpart.high])
  refine h.planted hk hbegin.finite hpart'.finite ?_ (fun hsmall => ?_) fun hsmall => ?_
  · linarith [hbegin.low]
  · linarith [hbegin.low, unit_le_two hsmall]
  · -- each of the three operations, the sum of the shares and the end of the span is off by a unit
    linarith [hbegin.high, hpart.high, hpart'.high, hright.low, unit_le_two hsmall]

end Spans

end Parterre
