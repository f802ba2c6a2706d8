import Parterre.Proofs.CloseSides
import Parterre.Proofs.GridLines

/-! # Errors of a chain of cuts

A span that is cut again and again, where each time the second part is kept, always ends at the same
place but for rounding errors.  A cut moves the end by the error of one sum of coordinates, and by a
small share of the extent that it takes away.  The first is paid for each cut, of which there are
few, since no part gets narrow; the second adds up to a share of the whole extent.  Among
coordinates up to 2048 the two stay below the tolerance. -/
namespace Parterre
open Binary32

/-! ### The extents of the parts -/

/-- What the extents of the two parts miss of the whole, per unit of extent that a cut takes. -/
def cutError : ℚ := 37502 / 10000 * 2 ^ (-24 : ℤ)

/-- No share is much more than three fifths, and the two shares make up the whole. -/
theorem Share.fine_parts (s : Share) : ∃ f g, s.Parts f g ∧ 1 - 2 ^ (-25 : ℤ) ≤ f + g ∧
    f ≤ 600001 / 1000000 ∧ g ≤ 600001 / 1000000 := by
  obtain ⟨f, g, h⟩ := s.parts
  have hmost : Stands 0.600001 (10066346 / 2 ^ 24) :=
    stands_of_parts (n := false) (m := 10066346) (e := -24) ⟨rfl, rfl⟩ (by norm_num)
  have hle : s.fraction ≤ 0.600001 ∧ 1.0 - s.fraction ≤ 0.600001 := by cases s <;> decide
  rw [le_iff h.first.finite hmost.finite, le_iff h.second.finite hmost.finite, h.first.value_eq,
    h.second.value_eq, hmost.value_eq] at hle
  have hsmall : |1 - f| ≤ 2 ^ (0 : ℤ) := by
    rw [abs_le]
    constructor <;> norm_num <;> linarith [h.nonneg_first, h.le_first]
  have hrest := stands_sub stands_one.finite h.first.finite
  rw [stands_one.value_eq, h.first.value_eq] at hrest
  have hnear := (hrest (abs_le_largest (by norm_num) hsmall)).near (by norm_num) hsmall
  have hlow := hnear.low
  rw [h.second.value_eq] at hlow
  norm_num at hlow hle
  refine ⟨f, g, h, ?_, ?_, ?_⟩ <;> norm_num <;> linarith

/-- The extents of the two parts that an extent `w` is cut in. -/
structure Share.Divides (s : Share) (w : Float32) : Prop where
  finite_first : (w * s.fraction).isFinite = true
  finite_second : (w * (1.0 - s.fraction)).isFinite = true
  nonneg_first : 0 ≤ value (w * s.fraction)
  first_le : value (w * s.fraction) ≤ 60001 / 100000 * value w
  second_le : value (w * (1.0 - s.fraction)) ≤ 60001 / 100000 * value w
  sum : |value (w * s.fraction) + value (w * (1.0 - s.fraction)) - value w| ≤
    cutError * (value w - value (w * (1.0 - s.fraction)))

theorem Share.divides (s : Share) {w : Float32} (hw : w.isFinite = true) (hleast : 35 ≤ value w) :
    s.Divides w := by
  obtain ⟨f, g, hs, hsum, hf, hg⟩ := s.fine_parts
  have hpos : 0 ≤ value w := by linarith
  have hpart {c : Float32} {q : ℚ} (hc : Stands c q) (hq : 0 ≤ q) (hq' : q ≤ 600001 / 1000000) :
      Near (value w * q * 2 ^ (-24 : ℤ) + 2 ^ (-150 : ℤ)) (w * c) (value w * q) := by
    have hnonneg : 0 ≤ value w * q := mul_nonneg hpos hq
    have hle : value w * q ≤ value w := mul_le_of_le_one_right hpos (by linarith)
    have hproduct := stands_mul hw hc.finite
    rw [hc.value_eq, abs_of_nonneg hnonneg] at hproduct
    have hrange := (abs_le.1 (abs_value_le_largest w)).2
    have hnear := (hproduct (by linarith)).near_mul
    rwa [abs_of_nonneg hnonneg] at hnear
  have hfirst := hpart hs.first hs.nonneg_first hf
  have hsecond := hpart hs.second hs.nonneg_second hg
  have hfle := mul_le_mul_of_nonneg_left hf hpos
  have hgle := mul_le_mul_of_nonneg_left hg hpos
  have hflow := mul_le_mul_of_nonneg_left hs.least_first hpos
  have hsumle := mul_le_mul_of_nonneg_left hs.sum_le hpos
  have hsumge := mul_le_mul_of_nonneg_left hsum hpos
  have hlow := hfirst.low
  have hhigh := hfirst.high
  have hlow' := hsecond.low
  have hhigh' := hsecond.high
  norm_num at hlow hhigh hlow' hhigh' hsumle hsumge
  refine ⟨hfirst.finite, hsecond.finite, by linarith, by linarith, by linarith, ?_⟩
  rw [cutError]
  norm_num
  exact abs_le.2 ⟨by linarith, by linarith⟩

/-! ### How far the end drifts off -/

section Drift
variable {x₀ w₀ x w : Float32} {k : ℤ} {n N : ℕ} {e d a : ℚ}

/-- What the errors may amount to if a span in the square that reaches `2 ^ k` is cut up to `N`
times: a sum that gives the begin of a part is off by `e`, and by `d` per unit of that part's
extent, and the sum that gives the end of the whole by `a`.  All of it is below the tolerance: its
bound is a representable number that is a little smaller. -/
structure Allowance (k : ℤ) (x₀ w₀ : Float32) (N : ℕ) (e d a : ℚ) : Prop where
  finite : x₀.isFinite = true
  finite_extent : w₀.isFinite = true
  least : 35 ≤ value w₀
  low : -2 ^ k ≤ value x₀
  high : value x₀ + value w₀ + 1 ≤ 2 ^ k
  scale : k ≤ 14
  nonneg : 0 ≤ e
  nonneg_slope : 0 ≤ d
  sums : ∀ z v, value x₀ ≤ z → z ≤ value x₀ + value w₀ → 0 ≤ v →
    value x₀ + value w₀ - 1 / 100 ≤ z + v → |rounded z - z| ≤ e + d * v
  whole : |rounded (value x₀ + value w₀) - (value x₀ + value w₀)| ≤ a
  total : a + 2 ^ (k - 25) + N * e + (cutError + 151 / 100 * d) * (value w₀ - 35) ≤ 131 / 131072

/-- How far the end of what is left after `n` cuts has drifted off. -/
structure Drifted (x₀ w₀ : Float32) (e d : ℚ) (n : ℕ) (x w : Float32) : Prop where
  finite : x.isFinite = true
  finite_extent : w.isFinite = true
  least : 35 ≤ value w
  begin_le : value x₀ ≤ value x
  drift_le : |value x + value w - (value x₀ + value w₀)| ≤
    n * e + (cutError + 151 / 100 * d) * (value w₀ - value w)

theorem cutError_pos : 0 < cutError := by norm_num [cutError]

theorem Allowance.drifted (ha : Allowance k x₀ w₀ N e d a) : Drifted x₀ w₀ e d 0 x₀ w₀ :=
  ⟨ha.finite, ha.finite_extent, ha.least, le_rfl, by simp⟩

/-- A square that holds a sector is far larger than the least numbers. -/
theorem neg_125_le_of_extent (hleast : 35 ≤ value w₀) (hlow : -2 ^ k ≤ value x₀)
    (hhigh : value x₀ + value w₀ ≤ 2 ^ k) : -125 ≤ k := by
  by_contra hk
  have hpow := two_zpow_le (show k ≤ 0 by linarith)
  rw [zpow_zero] at hpow
  linarith

theorem Allowance.neg_125_le (ha : Allowance k x₀ w₀ N e d a) : -125 ≤ k :=
  neg_125_le_of_extent ha.least ha.low (by linarith [ha.high])

theorem Drifted.le_total (h : Drifted x₀ w₀ e d n x w) (ha : Allowance k x₀ w₀ N e d a)
    (hn : n ≤ N) : |value x + value w - (value x₀ + value w₀)| + a + 2 ^ (k - 25) ≤
      131 / 131072 := by
  have hcuts : (n : ℚ) * e ≤ N * e :=
    mul_le_mul_of_nonneg_right (by exact_mod_cast hn) ha.nonneg
  have hslope : 0 ≤ cutError + 151 / 100 * d := by linarith [cutError_pos, ha.nonneg_slope]
  have hextent := mul_le_mul_of_nonneg_left
    (sub_le_sub_left h.least (value w₀)) hslope
  linarith [h.drift_le, ha.total]

/-- One more cut moves the end by the error of the begin, and by what the extents miss. -/
theorem Drifted.cut (h : Drifted x₀ w₀ e d n x w) (ha : Allowance k x₀ w₀ N e d a) (hn : n < N)
    (share : Share) (hleast : 35 ≤ value (w * (1.0 - share.fraction))) :
    Drifted x₀ w₀ e d (n + 1) (x + w * share.fraction) (w * (1.0 - share.fraction)) := by
  have htotal := h.le_total ha hn.le
  have hdivides := share.divides h.finite_extent h.least
  have hanonneg := (abs_nonneg _).trans ha.whole
  have hunit := two_zpow_pos (k - 25)
  have hlow := ha.low
  have hhigh := ha.high
  have hbegin := h.begin_le
  obtain ⟨hdriftlow, hdrifthigh⟩ := abs_le.1 (show |value x + value w - (value x₀ + value w₀)| ≤
    131 / 131072 by linarith)
  have hfirst := hdivides.nonneg_first
  have hsecond := hdivides.second_le
  have hsum := hdivides.sum
  generalize hp : value (w * share.fraction) = p at *
  generalize hw' : value (w * (1.0 - share.fraction)) = w' at *
  -- what the extents miss is small, as the whole extent is
  have hmiss : cutError * (value w - w') ≤ 1 / 500 := by
    have hextent : cutError * (value w - w') ≤ cutError * (value w₀ - 35 + 1 / 1000) :=
      mul_le_mul_of_nonneg_left (by linarith) cutError_pos.le
    have hslope := mul_nonneg (mul_nonneg (by norm_num : (0 : ℚ) ≤ 151 / 100) ha.nonneg_slope)
      (sub_nonneg.2 ha.least)
    have hcuts := mul_nonneg (Nat.cast_nonneg (α := ℚ) N) ha.nonneg
    have hsmall : cutError ≤ 1 := by norm_num [cutError]
    linarith [ha.total]
  obtain ⟨hmisslow, hmisshigh⟩ := abs_le.1 (hsum.trans hmiss)
  have hrange : |value x + p| ≤ 2 ^ k := abs_le.2 ⟨by linarith, by linarith⟩
  have hstands := stands_add h.finite hdivides.finite_first
  rw [hp] at hstands
  have hstands := hstands (abs_le_largest (by linarith [ha.scale]) hrange)
  have herror := ha.sums (value x + p) w' (by linarith) (by linarith) (by linarith) (by linarith)
  have hslope : d * w' ≤ d * (151 / 100 * (value w - w')) :=
    mul_le_mul_of_nonneg_left (by linarith) ha.nonneg_slope
  refine ⟨hstands.finite, hdivides.finite_second, hw' ▸ hleast, ?_, ?_⟩
  · rw [hstands.value_eq]
    exact le_rounded (representable_value x₀) (by linarith)
  · have hsplit : rounded (value x + p) + w' - (value x₀ + value w₀) =
        (rounded (value x + p) - (value x + p)) + (p + w' - value w) +
          (value x + value w - (value x₀ + value w₀)) := by ring
    have htriangle := (abs_add_le (rounded (value x + p) - (value x + p) + (p + w' - value w))
      (value x + value w - (value x₀ + value w₀)))
    have htriangle' := abs_add_le (rounded (value x + p) - (value x + p)) (p + w' - value w)
    rw [hstands.value_eq, hw', hsplit]
    push_cast
    linarith [h.drift_le]

theorem Drifted.close (h : Drifted x₀ w₀ e d n x w) (ha : Allowance k x₀ w₀ N e d a)
    (hn : n ≤ N) : Close (x + w) (x₀ + w₀) := by
  have htotal := h.le_total ha hn
  have hanonneg := (abs_nonneg _).trans ha.whole
  have hunit := two_zpow_pos (k - 25)
  have hlow := ha.low
  have hhigh := ha.high
  have hlargest : k ≤ 127 := by linarith [ha.scale]
  obtain ⟨hdriftlow, hdrifthigh⟩ := abs_le.1 (show |value x + value w - (value x₀ + value w₀)| ≤
    131 / 131072 by linarith)
  have hrange : |value x + value w| ≤ 2 ^ k :=
    abs_le.2 ⟨by linarith [h.begin_le, h.least], by linarith⟩
  have hrange₀ : |value x₀ + value w₀| ≤ 2 ^ k := abs_le.2 ⟨by linarith [ha.least], by linarith⟩
  have hend := stands_add h.finite h.finite_extent (abs_le_largest hlargest hrange)
  have hend₀ := stands_add ha.finite ha.finite_extent (abs_le_largest hlargest hrange₀)
  have herror := abs_rounded_sub_le hrange ha.neg_125_le
  refine ⟨hend.finite, hend₀.finite, ?_⟩
  rw [hend.value_eq, hend₀.value_eq]
  have hsplit : rounded (value x + value w) - rounded (value x₀ + value w₀) =
      rounded (value x + value w) - (value x + value w) +
        (value x + value w - (value x₀ + value w₀)) -
        (rounded (value x₀ + value w₀) - (value x₀ + value w₀)) := by ring
  have hfar : |rounded (value x + value w) - rounded (value x₀ + value w₀)| ≤ 131 / 131072 := by
    have htriangle := abs_sub (rounded (value x + value w) - (value x + value w) +
      (value x + value w - (value x₀ + value w₀)))
      (rounded (value x₀ + value w₀) - (value x₀ + value w₀))
    have htriangle' := abs_add_le (rounded (value x + value w) - (value x + value w))
      (value x + value w - (value x₀ + value w₀))
    rw [hsplit]
    linarith [ha.whole]
  have hrepresentable : Representable (131 / 131072) :=
    ⟨131, -17, by norm_num, by norm_num, by norm_num⟩
  exact (abs_rounded_le hrepresentable hfar).trans_lt (by norm_num [tolerance])

/-! ### How much is allowed -/

/-- Few cuts have few errors, at whatever scale the tolerance has room for them. -/
theorem Allowance.of_few (hx : x₀.isFinite = true) (hw : w₀.isFinite = true)
    (hleast : 35 ≤ value w₀) (hlow : -2 ^ k ≤ value x₀)
    (hhigh : value x₀ + 100000 / 60001 * value w₀ ≤ 2 ^ k)
    (hfew : (n + 2) * 2 ^ (k - 25) + 2 ^ (-22 : ℤ) * value w₀ ≤ 1 / 1024) :
    Allowance k x₀ w₀ n (2 ^ (k - 25)) 0 (2 ^ (k - 25)) := by
  have hunit := two_zpow_pos (k - 25)
  have hcuts := mul_nonneg (Nat.cast_nonneg (α := ℚ) n) hunit.le
  have hscale : k ≤ 14 := by
    have hpow : (2 : ℚ) ^ (k - 25) ≤ 2 ^ (-11 : ℤ) := by
      norm_num
      linarith
    have := (zpow_le_zpow_iff_right₀ (by norm_num : (1 : ℚ) < 2)).1 hpow
    omega
  have hneg : -125 ≤ k := neg_125_le_of_extent hleast hlow (by linarith)
  have herror {z : ℚ} (hz : value x₀ ≤ z) (hz' : z ≤ value x₀ + value w₀) :
      |rounded z - z| ≤ 2 ^ (k - 25) :=
    abs_rounded_sub_le (abs_le.2 ⟨by linarith, by linarith⟩) hneg
  refine ⟨hx, hw, hleast, hlow, by linarith, hscale, hunit.le, le_rfl, fun z v hz hz' _ _ => ?_,
    herror (by linarith) le_rfl, ?_⟩
  · rw [zero_mul, add_zero]
    exact herror hz hz'
  · rw [cutError]
    norm_num at hfew ⊢
    linarith

/-- A line near the origin, and coordinates up to 2048: the sums have smaller errors but those that
give the begin of a long part, which reaches far. -/
theorem Allowance.of_near (hx : x₀.isFinite = true) (hw : w₀.isFinite = true)
    (hleast : 35 ≤ value w₀) (hlow : -2048 ≤ value x₀)
    (hhigh : value x₀ + 100000 / 60001 * value w₀ ≤ 2048) (hnonneg : 0 ≤ value x₀ + value w₀)
    (hlt : value x₀ + value w₀ < 1024) :
    Allowance 11 x₀ w₀ 8 (2 ^ (-15 : ℤ)) (1001 / 1000 * 2 ^ (-25 : ℤ)) (2 ^ (-15 : ℤ)) where
  finite := hx
  finite_extent := hw
  least := hleast
  low := by
    norm_num
    exact hlow
  high := by
    norm_num
    linarith
  scale := by norm_num
  nonneg := by norm_num
  nonneg_slope := by norm_num
  sums z v hz hz' hv hsum := by
    rcases le_total (-1024) z with hnear | hfar
    · have herror := abs_rounded_sub_le (q := z) (k := 10)
        (abs_le.2 ⟨by norm_num; linarith, by norm_num; linarith⟩) (by norm_num)
      norm_num at herror ⊢
      linarith
    · have herror := abs_rounded_sub_le (q := z) (k := 11)
        (abs_le.2 ⟨by norm_num; linarith, by norm_num; linarith⟩) (by norm_num)
      norm_num at herror ⊢
      linarith
  whole := abs_rounded_sub_le (k := 10)
    (abs_le.2 ⟨by norm_num; linarith, by norm_num; linarith⟩) (by norm_num)
  total := by
    rw [cutError]
    norm_num
    linarith

/-- Coordinates up to 2048, and a first part no longer than that. -/
theorem Allowance.of_short (hx : x₀.isFinite = true) (hw : w₀.isFinite = true)
    (hleast : 35 ≤ value w₀) (hlow : -2048 ≤ value x₀)
    (hhigh : value x₀ + 100000 / 60001 * value w₀ ≤ 2048) (hshort : value w₀ ≤ 2048) :
    Allowance 11 x₀ w₀ 7 (2 ^ (-14 : ℤ)) 0 (2 ^ (-14 : ℤ)) where
  finite := hx
  finite_extent := hw
  least := hleast
  low := by
    norm_num
    exact hlow
  high := by
    norm_num
    linarith
  scale := by norm_num
  nonneg := by norm_num
  nonneg_slope := le_rfl
  sums z v hz hz' hv hsum := by
    rw [zero_mul, add_zero]
    exact abs_rounded_sub_le (k := 11)
      (abs_le.2 ⟨by norm_num; linarith, by norm_num; linarith⟩) (by norm_num)
  whole := abs_rounded_sub_le (k := 11)
    (abs_le.2 ⟨by norm_num; linarith, by norm_num; linarith⟩) (by norm_num)
  total := by
    rw [cutError]
    norm_num
    linarith

theorem cuts_le {bound : ℚ} (hleast : 35 ≤ (60001 / 100000) ^ n * value w₀) (hpos : 0 ≤ value w₀)
    (hbound : value w₀ ≤ bound) (hshort : (60001 / 100000) ^ (N + 1) * bound < 35) : n ≤ N := by
  by_contra hn
  have hpow : (60001 / 100000 : ℚ) ^ n ≤ (60001 / 100000) ^ (N + 1) :=
    pow_le_pow_of_le_one (by norm_num) (by norm_num) (by omega)
  have hle := mul_le_mul hpow hbound hpos (by positivity)
  linarith

/-- A rectangle among coordinates up to 2048 cannot be cut often enough to do harm: if the line of
the first cut is not near the origin, the first part is short. -/
theorem exists_allowance (hx : x₀.isFinite = true) (hw : w₀.isFinite = true)
    (hlow : -2048 ≤ value x₀) (hhigh : value x₀ + 100000 / 60001 * value w₀ ≤ 2048)
    (hleast : 35 ≤ value w₀) (hlong : 35 ≤ (60001 / 100000) ^ n * value w₀) :
    ∃ N e d a, Allowance 11 x₀ w₀ N e d a ∧ n ≤ N := by
  by_cases hnear : 0 ≤ value x₀ + value w₀ ∧ value x₀ + value w₀ < 1024
  · have hbound : value w₀ ≤ 2458 := by linarith
    exact ⟨8, _, _, _, .of_near hx hw hleast hlow hhigh hnear.1 hnear.2,
      cuts_le hlong (by linarith) hbound (by norm_num)⟩
  · have hbound : value w₀ ≤ 2048 := by
      by_contra hlt
      exact hnear ⟨by linarith, by linarith⟩
    exact ⟨7, _, _, _, .of_short hx hw hleast hlow hhigh hbound,
      cuts_le hlong (by linarith) hbound (by norm_num)⟩

end Drift

end Parterre
