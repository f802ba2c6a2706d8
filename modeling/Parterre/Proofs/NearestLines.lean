import Parterre.Proofs.BorderSymmetry
import Parterre.Proofs.FiniteNodes
import Parterre.Proofs.GridLines

/-! # The nearest lines of the grid

Snapping rounds a quotient and a sum before it takes the floor, and either could be rounded up to
the middle between two lines or to a line.  Up to `2 ^ 23` none is: below a middle the numbers lie
so far off that a number below the middle is nearer to the exact result.  So a number snaps to the
nearest line, halves going up.  It snaps to the same bits as every other number near that line, also
where the line is zero, so a number that was snapped stays as it is. -/
namespace Parterre
namespace Binary32
open Float.Model UnpackedFloat

section Lines
variable {q q' line : ℚ} {n k : ℤ}

/-! ### Middles between lines -/

/-- The unit of the numbers around the middle between two lines of the grid.  The middle is odd, so
it has more than the smallest full mantissa, and its unit is no larger than one. -/
structure MiddleUnit (n k : ℤ) : Prop where
  low : -21 ≤ k
  high : k ≤ 0
  full : 2 ^ 23 * 2 ^ k < |10 * (n : ℚ) + 5|
  room : |10 * (n : ℚ) + 5| < 2 ^ 24 * 2 ^ k

private theorem exists_middleUnit (hn : |10 * n + 5| < 2 ^ 24) : ∃ k, MiddleUnit n k := by
  have hlarge : (4 : ℤ) < |10 * n + 5| := by
    rcases le_or_gt 0 n with h | h
    · exact lt_abs.2 (.inl (by omega))
    · exact lt_abs.2 (.inr (by omega))
  have hlarge : (2 : ℚ) ^ (-21 + 23 : ℤ) ≤ |10 * (n : ℚ) + 5| := by
    norm_num
    exact_mod_cast hlarge.le
  have hsmall : |10 * (n : ℚ) + 5| < 2 ^ (24 : ℤ) := by
    norm_num
    exact_mod_cast hn
  have hne : 10 * (n : ℚ) + 5 ≠ 0 := by
    intro hzero
    norm_num [hzero] at hlarge
  have hlow := le_lastPlace (.inl hlarge)
  have hfull := two_zpow_le_abs hne (by omega)
  have hroom := abs_lt_lastPlace (10 * (n : ℚ) + 5)
  have hhigh := lastPlace_le hsmall hne (by norm_num)
  generalize lastPlace (10 * (n : ℚ) + 5) = k at *
  have hodd : (2 : ℚ) ^ (k + 23) ≠ |10 * (n : ℚ) + 5| := by
    obtain ⟨j, hj⟩ : ∃ j : ℕ, k + 23 = (j + 1 : ℕ) := ⟨(k + 22).toNat, by omega⟩
    rw [hj, zpow_natCast]
    intro heq
    have heq : (2 : ℤ) ^ (j + 1) = |10 * n + 5| := by exact_mod_cast heq
    rw [pow_succ] at heq
    rcases abs_choice (10 * n + 5) with h | h <;> omega
  have hfull := hfull.lt_of_ne hodd
  rw [add_comm k, two_zpow_add] at hfull hroom
  exact ⟨k, hlow, hhigh, by exact_mod_cast hfull, by exact_mod_cast hroom⟩

namespace MiddleUnit

theorem le_sub (h : MiddleUnit n k) (hq : Representable q) (hlt : q < 10 * n + 5) :
    q ≤ 10 * n + 5 - 2 ^ k := by
  have hmiddle : 10 * (n : ℚ) + 5 = ((10 * n + 5) * 2 ^ (-k).toNat : ℤ) * 2 ^ k := by
    rw [← intCast_eq_multiple _ h.high]
    push_cast
    ring
  have hfull := h.full
  rw [hmiddle, abs_mul, abs_of_pos (two_zpow_pos k)] at hfull
  have hlong : 2 ^ 23 < |(10 * n + 5) * 2 ^ (-k).toNat| := by
    exact_mod_cast lt_of_mul_lt_mul_right hfull (two_zpow_pos k).le
  have hle := hq.le_sub_of_lt hlong (hmiddle ▸ hlt)
  push_cast at hle hmiddle
  rw [hmiddle]
  linarith

/-- An eighth of the unit below a number of a tenth of the size, or near it, is representable. -/
theorem representable_sub (h : MiddleUnit n k) {m : ℤ} {v : ℚ} (hv : 2 * v = m)
    (hlow : -(2 ^ 21 * 2 ^ k) + 2 ^ k / 8 ≤ v) (hhigh : v ≤ 2 ^ 21 * 2 ^ k) :
    Representable (v - 2 ^ k / 8) := by
  have hpos := two_zpow_pos k
  have hunit : (2 : ℚ) ^ (k - 3) = 2 ^ k / 8 := by
    rw [sub_eq_add_neg, two_zpow_add]
    norm_num
    ring
  have hspan : (2 : ℚ) ^ (k - 3 + 24) = 2 ^ 21 * 2 ^ k := by
    rw [sub_add, sub_eq_add_neg, add_comm, two_zpow_add]
    norm_num
  have hmultiple := intCast_eq_multiple m h.high
  refine representable_of_multiple (k := k - 3) (m := 4 * m * 2 ^ (-k).toNat - 1) ?_
    (by linarith [h.low]) ?_
  · push_cast at hmultiple ⊢
    rw [hunit]
    linarith
  · rw [hspan]
    exact abs_le.2 ⟨by linarith, by linarith⟩

end MiddleUnit

/-- A number below the middle is scaled and moved to a number below the next line: both times there
is a number nearer to the exact result than the one that must not be reached. -/
theorem rounded_moved_lt (hq : Representable q) (hn : |10 * n + 5| < 2 ^ 24)
    (hlt : q < 10 * n + 5) : rounded (rounded (q / 10) + 1 / 2) < n + 1 := by
  obtain ⟨k, h⟩ := exists_middleUnit hn
  obtain ⟨hroomlow, hroomhigh⟩ := abs_lt.1 h.room
  have hpos := two_zpow_pos k
  have hbelow := h.le_sub hq hlt
  -- the line itself keeps to the bound, as this is a whole number
  have hline : (n : ℚ) + 1 ≤ 2 ^ 21 * 2 ^ k := by
    obtain ⟨j, hj⟩ : ∃ j : ℕ, 21 + k = j := ⟨(21 + k).toNat, by have := h.low; omega⟩
    have hwhole : (2 : ℚ) ^ 21 * 2 ^ k = (2 ^ j : ℤ) := by
      have hpower := two_zpow_add 21 k
      rw [hj, zpow_natCast] at hpower
      exact_mod_cast hpower.symm
    have hlt : (n : ℚ) < 2 ^ 21 * 2 ^ k := by linarith
    rw [hwhole] at hlt ⊢
    exact_mod_cast Int.add_one_le_of_lt (by exact_mod_cast hlt)
  have hscaled : Representable (n + 1 / 2 - 2 ^ k / 8) :=
    h.representable_sub (m := 2 * n + 1) (by push_cast; ring) (by linarith) (by linarith)
  have hmoved : Representable (n + 1 - 2 ^ k / 8) :=
    h.representable_sub (m := 2 * n + 2) (by push_cast; ring) (by linarith) hline
  have hquotient : rounded (q / 10) ≤ n + 1 / 2 - 3 / 40 * 2 ^ k := by
    have hle : q / 10 ≤ n + 1 / 2 - 2 ^ k / 10 := by linarith
    linarith [rounded_mono hle, rounded_le_two_mul_sub hscaled
      (show n + 1 / 2 - 2 ^ k / 8 ≤ n + 1 / 2 - (2 : ℚ) ^ k / 10 by linarith)]
  have hle : rounded (q / 10) + 1 / 2 ≤ n + 1 - 3 / 40 * 2 ^ k := by linarith
  linarith [rounded_mono hle, rounded_le_two_mul_sub hmoved
    (show n + 1 - 2 ^ k / 8 ≤ n + 1 - 3 / 40 * (2 : ℚ) ^ k by linarith)]

private theorem le_rounded_moved (hn : |10 * n + 5| < 2 ^ 24) (h : 10 * n - 5 ≤ q) :
    n ≤ rounded (rounded (q / 10) + 1 / 2) := by
  obtain ⟨hlow, hhigh⟩ := abs_lt.1 hn
  have hhalf : Representable (n - 1 / 2) := by
    refine ⟨2 * n - 1, -1, abs_le.2 ⟨by omega, by omega⟩, by norm_num, ?_⟩
    push_cast
    norm_num
    ring
  have hwhole : Representable n := representable_intCast (abs_le.2 ⟨by omega, by omega⟩)
  have hquotient := le_rounded hhalf (show (n : ℚ) - 1 / 2 ≤ q / 10 by linarith)
  exact le_rounded hwhole (by linarith)

/-- No rounding moves a number that is up to `2 ^ 23` past a middle between two lines. -/
theorem floor_rounded_moved (hq : Representable q) (h : |q| ≤ 2 ^ 23) :
    ⌊rounded (rounded (q / 10) + 1 / 2)⌋ = ⌊q / 10 + 1 / 2⌋ := by
  obtain ⟨n, hn⟩ : ∃ n : ℤ, ⌊q / 10 + 1 / 2⌋ = n := ⟨_, rfl⟩
  obtain ⟨hlow, hhigh⟩ := Int.floor_eq_iff.1 hn
  obtain ⟨hqlow, hqhigh⟩ := abs_le.1 h
  have hnlow : (-(2 ^ 23) - 5 : ℤ) < 10 * n := by
    have : (-(2 ^ 23) - 5 : ℚ) < 10 * n := by linarith
    exact_mod_cast this
  have hnhigh : 10 * n ≤ (2 ^ 23 + 5 : ℤ) := by
    have : 10 * n ≤ (2 ^ 23 + 5 : ℚ) := by linarith
    exact_mod_cast this
  have hsmall : |10 * n + 5| < 2 ^ 24 := abs_lt.2 ⟨by omega, by omega⟩
  rw [hn]
  exact Int.floor_eq_iff.2 ⟨le_rounded_moved hsmall (by linarith),
    rounded_moved_lt hq hsmall (by linarith)⟩

/-! ### Nearest lines -/

/-- The line of the grid that is nearest to a number, halves going up. -/
def nearestLine (q : ℚ) : ℚ := 10 * ⌊q / 10 + 1 / 2⌋

/-- Whether a line of the grid is as near to a number as any other, and above those as near. -/
structure IsNearestLine (q line : ℚ) : Prop where
  onGrid : ∃ n : ℤ, line = 10 * n
  nearest : ∀ n : ℤ, |line - q| ≤ |10 * n - q|
  upper : ∀ n : ℤ, |10 * n - q| = |line - q| → 10 * n ≤ line

theorem nearestLine_bounds (q : ℚ) : q - 5 < nearestLine q ∧ nearestLine q ≤ q + 5 := by
  have hlow := Int.lt_floor_add_one (q / 10 + 1 / 2)
  have hhigh := Int.floor_le (q / 10 + 1 / 2)
  unfold nearestLine
  constructor <;> linarith

theorem isNearestLine_iff : IsNearestLine q line ↔ line = nearestLine q := by
  obtain ⟨hlow, hhigh⟩ := nearestLine_bounds q
  obtain ⟨m, hm⟩ : ∃ m : ℤ, nearestLine q = 10 * m := ⟨_, rfl⟩
  rw [hm] at hlow hhigh ⊢
  -- the lines above are farther off, and those below are not nearer
  have habove {n : ℤ} (h : m < n) : |10 * (m : ℚ) - q| < |10 * n - q| := by
    have hn : (m : ℚ) + 1 ≤ n := by exact_mod_cast h
    exact (abs_lt.2 ⟨by linarith, by linarith⟩).trans_le (le_abs_self _)
  have hbelow {n : ℤ} (h : n < m) : |10 * (m : ℚ) - q| ≤ |10 * n - q| := by
    have hn : (n : ℚ) + 1 ≤ m := by exact_mod_cast h
    exact (abs_le.2 ⟨by linarith, by linarith⟩).trans (neg_le_abs _)
  constructor
  · rintro ⟨⟨n, rfl⟩, hnearest, hupper⟩
    rcases lt_trichotomy n m with h | rfl | h
    · have hle : (m : ℚ) ≤ n := by linarith [hupper m ((hbelow h).antisymm (hnearest m))]
      exact absurd (by exact_mod_cast hle) h.not_ge
    · rfl
    · exact absurd (hnearest m) (habove h).not_ge
  · rintro rfl
    refine ⟨⟨m, rfl⟩, fun n => ?_, fun n heq => ?_⟩
    · rcases lt_trichotomy n m with h | rfl | h
      · exact hbelow h
      · exact le_rfl
      · exact (habove h).le
    · have hle : n ≤ m := not_lt.1 fun h => (habove h).ne' heq
      have hle : (n : ℚ) ≤ m := by exact_mod_cast hle
      linarith

private theorem nearestLine_mono (h : q ≤ q') : nearestLine q ≤ nearestLine q' := by
  have hfloor : (⌊q / 10 + 1 / 2⌋ : ℚ) ≤ ⌊q' / 10 + 1 / 2⌋ := by
    exact_mod_cast Int.floor_mono (by linarith)
  exact mul_le_mul_of_nonneg_left hfloor (by norm_num)

@[simp] theorem nearestLine_line (n : ℤ) : nearestLine (10 * n) = 10 * n := by
  have hfloor : ⌊10 * (n : ℚ) / 10 + 1 / 2⌋ = n := by
    rw [mul_div_cancel_left₀ _ (by norm_num), Int.floor_intCast_add]
    norm_num
  rw [nearestLine, hfloor]

@[simp] theorem nearestLine_nearestLine (q : ℚ) : nearestLine (nearestLine q) = nearestLine q :=
  nearestLine_line _

/-- No number is moved past a line that it does not pass. -/
theorem abs_nearestLine_le (h : |q| ≤ 10 * n) : |nearestLine q| ≤ 10 * n := by
  obtain ⟨hlow, hhigh⟩ := abs_le.1 h
  have hline := nearestLine_line (-n)
  push_cast at hline
  rw [mul_neg] at hline
  exact abs_le.2 ⟨hline ▸ nearestLine_mono hlow, nearestLine_line n ▸ nearestLine_mono hhigh⟩

theorem lineOf_eq_nearestLine (hq : Representable q) (h : |q| ≤ 2 ^ 23) :
    lineOf q = nearestLine q := by
  have hline : Representable (nearestLine q) := by
    obtain ⟨hlow, hhigh⟩ := nearestLine_bounds q
    obtain ⟨hqlow, hqhigh⟩ := abs_le.1 h
    have hbound : |nearestLine q| ≤ 2 ^ 24 := abs_le.2 ⟨by linarith, by linarith⟩
    have hwhole : nearestLine q = (10 * ⌊q / 10 + 1 / 2⌋ : ℤ) := by
      rw [nearestLine]
      push_cast
      rfl
    rw [hwhole] at hbound ⊢
    exact representable_intCast (by exact_mod_cast hbound)
  rw [lineOf, floor_rounded_moved hq h, mul_comm]
  exact rounded_of_representable hline

end Lines

/-! ### Bits -/

section Bits
variable {a b v w x : Float32} {y : UnpackedFloat}

theorem alike_of_value_eq (ha : a.isFinite = true) (hb : b.isFinite = true)
    (h : value a = value b) : Alike a b := by
  obtain ⟨p, q, hp, hq, hle⟩ := le_iff_placeOf.1 ((le_iff ha hb).2 h.le)
  obtain ⟨q', p', hq', hp', hge⟩ := le_iff_placeOf.1 ((le_iff hb ha).2 h.ge)
  obtain rfl : p = p' := Option.some.inj (hp.symm.trans hp')
  obtain rfl : q = q' := Option.some.inj (hq.symm.trans hq')
  rw [Alike, hp, hq, hle.antisymm hge]

/-- The value tells finite numbers apart unless it is zero. -/
theorem unpack_eq_of_value_eq (ha : a.isFinite = true) (hb : b.isFinite = true)
    (h : value a = value b) (hne : value a ≠ 0) : a.toModel.unpack = b.toModel.unpack := by
  refine (eq_or_zeros_of_place (alike_of_value_eq ha hb h)).resolve_right ?_
  rintro ⟨s, -, hs, -⟩
  rw [value, hs] at hne
  exact hne rfl

private theorem unpack_ofModel_pack_of_isFinite (hy : Aligned y)
    (h : (Float32.ofModel (.pack y)).isFinite = true) :
    (Float32.ofModel (.pack y)).toModel.unpack = y := by
  rcases unpack_pack_or_infinity hy with hpack | ⟨s, -, -, -, -, hpack⟩
  · exact hpack
  · exact absurd ⟨s, hpack⟩ (not_infinite_of_isFinite h)

/-- Products are packed, so their values tell finite ones apart unless they are zero. -/
theorem mul_eq_mul_of_value_eq (ha : a.isFinite = true) (hb : b.isFinite = true)
    (hx : x.isFinite = true) (hax : (a * x).isFinite = true) (hbx : (b * x).isFinite = true)
    (h : value (a * x) = value (b * x)) (hne : value (a * x) ≠ 0) : a * x = b * x := by
  have hspec := mul_spec (sound_of_isFinite ha) (sound_of_isFinite hx)
  have hspec' := mul_spec (sound_of_isFinite hb) (sound_of_isFinite hx)
  have hunpack := unpack_eq_of_value_eq hax hbx h hne
  have hproduct := (unpack_ofModel_pack_of_isFinite hspec.aligned hax).symm.trans
    (hunpack.trans (unpack_ofModel_pack_of_isFinite hspec'.aligned hbx))
  exact congrArg (fun y => Float32.ofModel (.pack y)) hproduct

/-- A sum with a half is zero only if the two cancel, and that zero has no sign. -/
theorem add_half_eq_zero (hx : x.isFinite = true) (h : Stands (x + 0.5) 0) : x + 0.5 = 0.0 := by
  have hhalf : Stands (-0.5) (-(1 / 2)) := stands_half.neg
  have hsum : rounded (value x + 1 / 2) = 0 := by
    have hadd := (stands_add_or_infinite hx stands_half.finite).resolve_right
      (not_infinite_of_isFinite h.finite)
    rw [← stands_half.value_eq, ← hadd.value_eq, h.value_eq]
  have hvalue : value x = value (-0.5) := by
    rw [hhalf.value_eq]
    by_contra hne
    have hrepresentable := hhalf.value_eq ▸ representable_value (-0.5)
    rcases lt_or_gt_of_ne hne with hlt | hlt
    · have hpos := rounded_sub_pos hrepresentable (representable_value x) hlt
      rw [← neg_add', rounded_neg, add_comm, hsum, neg_zero] at hpos
      exact lt_irrefl 0 hpos
    · have hpos := rounded_sub_pos (representable_value x) hrepresentable hlt
      rw [sub_neg_eq_add, hsum] at hpos
      exact lt_irrefl 0 hpos
  have hunpack := unpack_eq_of_value_eq hx hhalf.finite hvalue
    (by rw [hvalue, hhalf.value_eq]; norm_num)
  let sum (y : UnpackedFloat) : Float32 :=
    .ofModel (.pack (y.add .binary32 (0.5 : Float32).toModel.unpack))
  calc x + 0.5 = -0.5 + 0.5 := congrArg sum hunpack
    _ = 0.0 := by decide +kernel

private theorem floor_eq_zero (hx : x.isFinite = true) (hpos : 0 < value x) (hlt : value x < 1) :
    floor x = 0.0 := by
  have hzero : value (floor x) = 0 := by
    rw [(stands_floor hx).value_eq, Int.floor_eq_zero_iff.2 ⟨hpos.le, hlt⟩, Int.cast_zero]
  have hwhole : ¬(parts x).isWhole = true := fun h => by
    have hfloor : floor x = x := if_pos h
    rw [hfloor] at hzero
    exact hpos.ne' hzero
  have hsign : (parts x).negative = false := by
    by_contra h
    rw [value_eq_fraction, if_pos (by simpa using h)] at hpos
    have hfraction : (0 : ℚ) ≤ (parts x).numerator / (parts x).denominator := by positivity
    linarith
  have hexponent : (parts x).exponent < 0 := by
    by_contra h
    exact hwhole (by simp [Parts.isWhole, not_lt.1 h])
  have hfloor : floor x = (parts x).signed (parts x).truncated := by simp [floor, hwhole, hsign]
  have hsigned := stands_signed (parts x) (truncated_lt hexponent).le
  rw [← hfloor, hsign, if_neg Bool.false_ne_true, one_mul] at hsigned
  have htruncated : (parts x).truncated = 0 := by exact_mod_cast hsigned.value_eq.symm.trans hzero
  rw [hfloor, htruncated, Parts.signed, hsign]
  decide +kernel

/-- What snaps to the line at zero becomes the zero without a sign. -/
theorem snap_eq_zero (hv : v.isFinite = true) (h : lineOf (value v) = 0) : snap v = 0.0 := by
  obtain ⟨hmoved, -⟩ := stands_moved hv
  have hfloor : ⌊rounded (rounded (value v / 10) + 1 / 2)⌋ = 0 := by
    rw [lineOf] at h
    generalize ⌊rounded (rounded (value v / 10) + 1 / 2)⌋ = n at h ⊢
    rcases lt_trichotomy n 0 with hneg | hzero | hpos
    · have hle : (n : ℚ) ≤ -1 := by exact_mod_cast Int.le_sub_one_of_lt hneg
      linarith [rounded_le representable_one.neg (show (n : ℚ) * 10 ≤ -1 by linarith)]
    · exact hzero
    · have hle : 1 ≤ (n : ℚ) := by exact_mod_cast hpos
      linarith [le_rounded representable_one (show 1 ≤ (n : ℚ) * 10 by linarith)]
  obtain ⟨hlow, hhigh⟩ := Int.floor_eq_zero_iff.1 hfloor
  have hzero : floor (v / gridUnit + 0.5) = 0.0 := by
    rcases hlow.eq_or_lt with heq | hlt
    · rw [add_half_eq_zero (stands_scaled hv).finite (heq ▸ hmoved)]
      decide +kernel
    · rw [← hmoved.value_eq] at hlt hhigh
      exact floor_eq_zero hmoved.finite hlt hhigh
  rw [snap, hzero]
  decide +kernel

/-- Numbers snap to the same bits exactly if they snap to the same line. -/
theorem snap_eq_snap_iff (hv : v.isFinite = true) (hw : w.isFinite = true) :
    snap v = snap w ↔ lineOf (value v) = lineOf (value w) := by
  have hsnap := stands_snap hv
  have hsnap' := stands_snap hw
  constructor
  · intro h
    rw [← hsnap.value_eq, ← hsnap'.value_eq, h]
  · intro h
    by_cases hzero : lineOf (value v) = 0
    · rw [snap_eq_zero hv hzero, snap_eq_zero hw (h ▸ hzero)]
    · refine mul_eq_mul_of_value_eq (stands_floor (stands_moved hv).1.finite).finite
        (stands_floor (stands_moved hw).1.finite).finite stands_gridUnit.finite hsnap.finite
        hsnap'.finite (hsnap.value_eq.trans (h.trans hsnap'.value_eq.symm)) ?_
      rwa [← hsnap.value_eq] at hzero

theorem snap_mono (hv : v.isFinite = true) (hw : w.isFinite = true) (h : v ≤ w) :
    snap v ≤ snap w := by
  have hsnap := stands_snap hv
  have hsnap' := stands_snap hw
  rw [le_iff hsnap.finite hsnap'.finite, hsnap.value_eq, hsnap'.value_eq]
  exact lineOf_mono ((le_iff hv hw).1 h)

end Bits

end Binary32
open Binary32

/-! ### Magnitudes up to 1000 -/

section Magnitudes
variable {v : Float32} {r : Rect} {field : Rect → Float32}

theorem stands_nearestLine (h : Bounded 1000 v) : Stands (snap v) (nearestLine (value v)) :=
  lineOf_eq_nearestLine (representable_value v) (h.abs_le.trans (by norm_num)) ▸
    stands_snap h.finite

theorem bounded_snap (h : Bounded 1000 v) : Bounded 1000 (snap v) := by
  refine bounded_of_stands (stands_nearestLine h) ?_
  have hbound := h.abs_le
  have hline : (1000 : ℚ) = 10 * (100 : ℤ) := by norm_num
  rw [hline] at hbound ⊢
  exact abs_nearestLine_le hbound

theorem snap_snap (h : Bounded 1000 v) : snap (snap v) = snap v := by
  have hsmall : (1000 : ℚ) ≤ 2 ^ 23 := by norm_num
  have hsnap := bounded_snap h
  rw [snap_eq_snap_iff hsnap.finite h.finite,
    lineOf_eq_nearestLine (representable_value _) (hsnap.abs_le.trans hsmall),
    lineOf_eq_nearestLine (representable_value _) (h.abs_le.trans hsmall),
    (stands_nearestLine h).value_eq, nearestLine_nearestLine]

namespace Rect

def fields : List (Rect → Float32) := [Rect.x, Rect.y, Rect.w, Rect.h]

theorem field_snapped (hfield : field ∈ fields) (r : Rect) :
    field r.snapped = snap (field r) := by
  simp only [fields, List.mem_cons, List.not_mem_nil, or_false] at hfield
  rcases hfield with rfl | rfl | rfl | rfl <;> rfl

theorem BoundedBy.bounded_field {bound : ℚ} (h : r.BoundedBy bound) (hfield : field ∈ fields) :
    Bounded bound (field r) := by
  simp only [fields, List.mem_cons, List.not_mem_nil, or_false] at hfield
  rcases hfield with rfl | rfl | rfl | rfl
  · exact h.x
  · exact h.y
  · exact h.w
  · exact h.h

theorem boundedBy_snapped (h : r.BoundedBy 1000) : r.snapped.BoundedBy 1000 :=
  ⟨bounded_snap h.x, bounded_snap h.y, bounded_snap h.w, bounded_snap h.h⟩

theorem snapped_snapped (h : r.BoundedBy 1000) : r.snapped.snapped = r.snapped := by
  simp only [snapped, snap_snap h.x, snap_snap h.y, snap_snap h.w, snap_snap h.h]

end Rect
end Magnitudes
end Parterre
