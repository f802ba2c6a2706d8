import Mathlib.Algebra.Order.Floor.Ring
import Parterre.Proofs.UnpackedNumbers
import Parterre.Binary32.Rounding

/-! # The values of binary32 numbers

A finite binary32 number stands for a rational number.  The operations give the exact result,
rounded, as long as it is in range, and comparisons compare the values.  Rounding down is exact: it
gives the floor of the value. -/
namespace Parterre.Binary32
open Float.Model UnpackedFloat

/-- The rational number that a finite number stands for; infinities and NaN stand for zero. -/
def value (x : Float32) : ℚ := number x.toModel.unpack

/-- Whether a number is finite and stands for `q`. -/
structure Stands (x : Float32) (q : ℚ) : Prop where
  finite : x.isFinite = true
  value_eq : value x = q

def largest : ℚ := (2 ^ 24 - 1) * 2 ^ (104 : ℤ)

section Values
variable {a b x : Float32} {q : ℚ} {y : UnpackedFloat}

theorem representable_largest : Representable largest :=
  ⟨2 ^ 24 - 1, 104, by norm_num, by norm_num, by norm_num [largest]⟩

theorem fits_toModel (x : Float32) : Fits x.toModel.unpack := fits_unpack _

theorem sound_of_isFinite (h : x.isFinite = true) : Sound x.toModel.unpack :=
  ⟨h, (fits_toModel x).aligned⟩

theorem representable_value (x : Float32) : Representable (value x) :=
  (fits_toModel x).aligned.representable

@[simp] theorem rounded_value (x : Float32) : rounded (value x) = value x :=
  rounded_of_representable (representable_value x)

theorem value_eq_parts (x : Float32) : value x =
    (if (parts x).negative then -1 else 1) * ((parts x).mantissa * 2 ^ (parts x).exponent) := by
  rw [value, parts_eq_unpack]
  cases x.toModel.unpack with
  | finite s m e hm => cases s <;> rfl
  | zero s => simp [number]
  | infinity s => simp [number]
  | notANumber => simp [number]

theorem stands_of_parts {n : Bool} {m : ℕ} {e : ℤ}
    (h : x.isFinite = true ∧ parts x = ⟨n, m, e⟩)
    (hq : (if n then -1 else 1) * ((m : ℚ) * 2 ^ e) = q) : Stands x q :=
  ⟨h.1, by rw [value_eq_parts, h.2, hq]⟩

theorem unpack_ofModel_pack (h : Fits y) :
    (Float32.ofModel (.pack y)).toModel.unpack = y := unpack_pack h

@[simp] theorem value_neg (x : Float32) : value (-x) = -value x := by
  change number (Float32.ofModel (.pack x.toModel.unpack.neg)).toModel.unpack = _
  rw [unpack_ofModel_pack (fits_toModel x).neg, number_neg]
  rfl

@[simp] theorem unpack_neg (x : Float32) : (-x).toModel.unpack = x.toModel.unpack.neg :=
  unpack_ofModel_pack (fits_toModel x).neg

@[simp] theorem isFinite_neg (x : Float32) : (-x).isFinite = x.isFinite := by
  change (-x).toModel.unpack.isFinite = x.toModel.unpack.isFinite
  rw [unpack_neg]
  cases x.toModel.unpack <;> rfl

theorem Stands.neg (h : Stands x q) : Stands (-x) (-q) :=
  ⟨(isFinite_neg x).trans h.finite, by rw [value_neg, h.value_eq]⟩

/-! ### Operations -/

/-- A result that is in range is packed without loss. -/
theorem Rounds.stands (h : Rounds y q) (hq : |q| ≤ largest) :
    Stands (.ofModel (.pack y)) (rounded q) := by
  have hsmall : largest < 2 ^ (128 : ℤ) := by norm_num [largest]
  have hpack := unpack_ofModel_pack
    (h.fits ((abs_rounded_le representable_largest hq).trans_lt hsmall))
  refine ⟨?_, ?_⟩
  · change (Float32.ofModel (.pack y)).toModel.unpack.isFinite = true
    rw [hpack]
    exact h.finite
  · rw [value, hpack, h.number_eq]

theorem stands_add (ha : a.isFinite = true) (hb : b.isFinite = true)
    (h : |value a + value b| ≤ largest) : Stands (a + b) (rounded (value a + value b)) :=
  (add_spec (sound_of_isFinite ha) (sound_of_isFinite hb)).stands h

theorem stands_sub (ha : a.isFinite = true) (hb : b.isFinite = true)
    (h : |value a - value b| ≤ largest) : Stands (a - b) (rounded (value a - value b)) := by
  have hrounds := add_spec (sound_of_isFinite ha) (sound_of_isFinite hb).neg
  rw [number_neg, ← sub_eq_add, ← sub_eq_add_neg] at hrounds
  exact hrounds.stands h

theorem stands_mul (ha : a.isFinite = true) (hb : b.isFinite = true)
    (h : |value a * value b| ≤ largest) : Stands (a * b) (rounded (value a * value b)) :=
  (mul_spec (sound_of_isFinite ha) (sound_of_isFinite hb)).stands h

theorem stands_div (ha : a.isFinite = true) (hb : b.isFinite = true) (hne : value b ≠ 0)
    (h : |value a / value b| ≤ largest) : Stands (a / b) (rounded (value a / value b)) :=
  (div_spec (sound_of_isFinite ha) (sound_of_isFinite hb) hne).stands h

theorem stands_toFloat32 (w : UInt32) : Stands w.toFloat32 (rounded w.toNat) := by
  have hrounds := normalize_spec (w.toNat : ℤ) 0
  rw [zpow_zero, mul_one, Int.cast_natCast] at hrounds
  refine hrounds.stands ?_
  have hlt : (w.toNat : ℚ) < 2 ^ 32 := by exact_mod_cast w.toNat_lt
  rw [Nat.abs_cast]
  refine hlt.le.trans ?_
  norm_num [largest]

/-! ### Errors -/

/-- Whether a number is finite and stands for `q`, up to an error. -/
structure Near (error : ℚ) (x : Float32) (q : ℚ) : Prop where
  finite : x.isFinite = true
  low : q - error ≤ value x
  high : value x ≤ q + error

theorem Near.of_abs {error : ℚ} (hx : x.isFinite = true) (h : |value x - q| ≤ error) :
    Near error x q := by
  obtain ⟨hlow, hhigh⟩ := abs_le.1 h
  exact ⟨hx, by linarith, by linarith⟩

theorem Stands.near {k : ℤ} (h : Stands x (rounded q)) (hk : -125 ≤ k) (hq : |q| ≤ 2 ^ k) :
    Near (2 ^ (k - 25)) x q :=
  .of_abs h.finite (h.value_eq ▸ abs_rounded_sub_le hq hk)

/-- What is rounded, in proportion. -/
theorem Stands.near_mul (h : Stands x (rounded q)) :
    Near (|q| * 2 ^ (-24 : ℤ) + 2 ^ (-150 : ℤ)) x q :=
  .of_abs h.finite (h.value_eq ▸ abs_rounded_sub_le_mul q)

theorem Stands.nonneg (h : Stands x (rounded q)) (hq : 0 ≤ q) : 0 ≤ value x := by
  rw [h.value_eq]
  exact le_rounded representable_zero hq

theorem abs_le_largest {k : ℤ} (hk : k ≤ 127) (hq : |q| ≤ 2 ^ k) : |q| ≤ largest := by
  have hlargest : (2 : ℚ) ^ (127 : ℤ) ≤ largest := by norm_num [largest]
  exact hq.trans ((two_zpow_le hk).trans hlargest)

/-! ### Order -/

theorem le_iff (ha : a.isFinite = true) (hb : b.isFinite = true) : a ≤ b ↔ value a ≤ value b := by
  have hmodel : a ≤ b ↔ a.toModel.unpack.le b.toModel.unpack = true := decide_eq_true_iff
  rw [hmodel, UnpackedFloat.le, compare_spec (sound_of_isFinite ha) (sound_of_isFinite hb),
    Option.any_some, Ordering.isLE_iff_ne_gt, compare_gt_iff_gt]
  exact not_lt

theorem lt_iff (ha : a.isFinite = true) (hb : b.isFinite = true) : a < b ↔ value a < value b := by
  have hmodel : a < b ↔ a.toModel.unpack.lt b.toModel.unpack = true := decide_eq_true_iff
  rw [hmodel, UnpackedFloat.lt, compare_spec (sound_of_isFinite ha) (sound_of_isFinite hb),
    beq_iff_eq, Option.some_inj]
  exact compare_lt_iff_lt

theorem not_isNaN_of_isFinite (h : x.isFinite = true) : x.isNaN = false := by
  change x.toModel.unpack.isFinite = true at h
  change x.toModel.unpack.isNaN = false
  cases hx : x.toModel.unpack with
  | notANumber =>
    rw [hx] at h
    cases h
  | _ => rfl

theorem stands_least (ha : a.isFinite = true) (hb : b.isFinite = true) :
    Stands (least a b) (min (value a) (value b)) := by
  unfold least
  rw [not_isNaN_of_isFinite ha, if_neg (by simp)]
  split
  · next h => exact ⟨hb, (min_eq_right ((lt_iff hb ha).1 h).le).symm⟩
  · next h => exact ⟨ha, (min_eq_left (not_lt.1 (mt (lt_iff hb ha).2 h))).symm⟩

theorem stands_greatest (ha : a.isFinite = true) (hb : b.isFinite = true) :
    Stands (greatest a b) (max (value a) (value b)) := by
  unfold greatest
  rw [not_isNaN_of_isFinite ha, if_neg (by simp)]
  split
  · next h => exact ⟨hb, (max_eq_right ((lt_iff ha hb).1 h).le).symm⟩
  · next h => exact ⟨ha, (max_eq_left (not_lt.1 (mt (lt_iff ha hb).2 h))).symm⟩

theorem stands_clampLow {lo hi : Float32} (hx : x.isFinite = true) (hlo : lo.isFinite = true)
    (hhi : hi.isFinite = true) :
    Stands (clampLow x lo hi) (max (min (value x) (value hi)) (value lo)) := by
  have hleast := stands_least hx hhi
  have hgreatest := stands_greatest hleast.finite hlo
  rwa [hleast.value_eq] at hgreatest

theorem stands_clamp {lo hi : Float32} (hx : x.isFinite = true) (hlo : lo.isFinite = true)
    (hhi : hi.isFinite = true) (hle : value lo ≤ value hi) :
    Stands (clamp x lo hi) (max (value lo) (min (value hi) (value x))) := by
  unfold clamp
  split
  · next h =>
    have h := (lt_iff hx hlo).1 h
    exact ⟨hlo, (max_eq_left (min_le_of_right_le h.le)).symm⟩
  · next hlow =>
    have hlow := not_lt.1 (mt (lt_iff hx hlo).2 hlow)
    split
    · next h =>
      have h := (lt_iff hhi hx).1 h
      exact ⟨hhi, by rw [min_eq_left h.le, max_eq_right hle]⟩
    · next h =>
      have h := not_lt.1 (mt (lt_iff hhi hx).2 h)
      exact ⟨hx, by rw [min_eq_right h, max_eq_right hlow]⟩

theorem abs_value_le_largest (x : Float32) : |value x| ≤ largest := by
  have hfits := fits_toModel x
  unfold value
  cases hunpack : x.toModel.unpack with
  | finite s m e hm =>
    rw [hunpack] at hfits
    obtain ⟨⟨hlt, -, -⟩, he⟩ := hfits
    have hmantissa : (m : ℚ) + 1 ≤ 2 ^ 24 := by exact_mod_cast hlt
    have hsign : |sgn s| = 1 := by cases s <;> norm_num [sgn]
    rw [number, abs_mul, hsign, one_mul,
      abs_of_nonneg (mul_nonneg (Nat.cast_nonneg m) (two_zpow_pos e).le)]
    exact mul_le_mul (by linarith) (two_zpow_le he) (two_zpow_pos e).le (by norm_num)
  | _ => norm_num [number, largest]

/-! ### Whole numbers -/

theorem stands_fromNat {n : ℕ} (h : n < 2 ^ 32) : Stands (fromNat n) (rounded n) := by
  have hstands := stands_toFloat32 (UInt32.ofNat n)
  rwa [UInt32.toNat_ofNat_of_lt' h] at hstands

theorem stands_fromInt (i : Int32) : Stands (fromInt i) (rounded i.toInt) := by
  have hlt : i.toInt.natAbs < 2 ^ 32 := by
    have := i.toInt_lt
    have := i.le_toInt
    omega
  have hstands := stands_fromNat hlt
  unfold fromInt
  split
  · next hneg =>
    have hneg : i.toInt < 0 := Int32.lt_iff_toInt_lt.1 hneg
    have hcast : (i.toInt : ℚ) = -(i.toInt.natAbs : ℚ) := by
      have : i.toInt = -(i.toInt.natAbs : ℤ) := by omega
      rw [this]
      simp
    rw [hcast, rounded_neg]
    exact hstands.neg
  · next hpos =>
    have hpos : 0 ≤ i.toInt := not_lt.1 fun hneg => hpos (Int32.lt_iff_toInt_lt.2 hneg)
    have hcast : (i.toInt : ℚ) = (i.toInt.natAbs : ℚ) := by
      have : i.toInt = (i.toInt.natAbs : ℤ) := by omega
      rw [this]
      simp
    rwa [hcast]

private theorem mantissa_lt (x : Float32) : (parts x).mantissa < 2 ^ 24 := by
  have hfits := fits_toModel x
  rw [parts_eq_unpack]
  cases hx : x.toModel.unpack with
  | finite s m e hm =>
    rw [hx] at hfits
    exact hfits.1.1
  | _ => norm_num

theorem truncated_lt (h : (parts x).exponent < 0) : (parts x).truncated < 2 ^ 24 := by
  rw [Parts.truncated, if_pos h, Nat.shiftRight_eq_div_pow]
  exact (Nat.div_le_self _ _).trans_lt (mantissa_lt x)

theorem stands_signed (p : Parts) {n : ℕ} (h : n ≤ 2 ^ 24) :
    Stands (p.signed n) ((if p.negative then -1 else 1) * n) := by
  have hstands := stands_fromNat (h.trans_lt (by norm_num))
  have hrepresentable : Representable ((n : ℤ) : ℚ) :=
    representable_intCast (by rw [Nat.abs_cast]; exact_mod_cast h)
  rw [Int.cast_natCast] at hrepresentable
  rw [rounded_of_representable hrepresentable] at hstands
  unfold Parts.signed
  split
  · rw [neg_one_mul]
    exact hstands.neg
  · rwa [one_mul]

theorem value_eq_fraction (x : Float32) : value x = (if (parts x).negative then -1 else 1) *
    ((parts x).numerator / (parts x).denominator : ℚ) := by
  rw [value_eq_parts]
  congr 1
  rcases lt_or_ge (parts x).exponent 0 with h | h
  · have hexponent : (parts x).exponent = -((-(parts x).exponent).toNat : ℤ) := by omega
    rw [Parts.numerator_of_neg h, Parts.denominator, hexponent, zpow_neg, zpow_natCast,
      neg_neg, Int.toNat_natCast, div_eq_mul_inv]
    simp
  · have hexponent : (parts x).exponent = ((parts x).exponent.toNat : ℤ) := by omega
    rw [Parts.denominator_of_nonneg h, Parts.numerator, hexponent, zpow_natCast,
      Int.toNat_natCast]
    simp

theorem stands_floor (hx : x.isFinite = true) : Stands (floor x) ⌊value x⌋ := by
  have hpos : (0 : ℚ) < (parts x).denominator := by
    exact_mod_cast Nat.two_pow_pos (-(parts x).exponent).toNat
  unfold floor
  simp only
  split
  · next hwhole =>
    obtain ⟨n, hn⟩ := (Parts.isWhole_iff _).1 hwhole
    refine ⟨hx, ?_⟩
    have hquotient : ((parts x).numerator / (parts x).denominator : ℚ) = n := by
      rw [hn, Nat.cast_mul, mul_div_cancel_left₀ _ hpos.ne']
    rw [value_eq_fraction, hquotient]
    split
    · rw [neg_one_mul, ← Int.cast_natCast, ← Int.cast_neg, Int.floor_intCast]
    · rw [one_mul, ← Int.cast_natCast, Int.floor_intCast]
  · next hwhole =>
    have hexponent : (parts x).exponent < 0 := by
      by_contra h
      exact hwhole (by simp [Parts.isWhole, not_lt.1 h])
    have hdvd := mt (Parts.isWhole_iff _).2 hwhole
    have hsmall := truncated_lt hexponent
    have hlow : (parts x).truncated < ((parts x).numerator / (parts x).denominator : ℚ) := by
      rw [lt_div_iff₀ hpos, Parts.truncated_eq]
      exact_mod_cast lt_of_le_of_ne (Nat.div_mul_le_self _ _)
        fun h => hdvd (Nat.dvd_iff_div_mul_eq _ _ |>.2 h)
    have hhigh : ((parts x).numerator / (parts x).denominator : ℚ) <
        (parts x).truncated + 1 := by
      rw [div_lt_iff₀ hpos, Parts.truncated_eq, mul_comm]
      exact_mod_cast Nat.lt_mul_div_succ (parts x).numerator (by exact_mod_cast hpos)
    have hfloor : (⌊value x⌋ : ℚ) = (if (parts x).negative then -1 else 1) *
        ((if (parts x).negative then (parts x).truncated + 1
          else (parts x).truncated : ℕ) : ℚ) := by
      rw [value_eq_fraction]
      split
      · have hdown : ⌊-1 * ((parts x).numerator / (parts x).denominator : ℚ)⌋ =
            -((parts x).truncated + 1 : ℕ) := by
          rw [Int.floor_eq_iff]
          push_cast
          constructor <;> linarith
        rw [hdown]
        push_cast
        ring
      · have hdown : ⌊1 * ((parts x).numerator / (parts x).denominator : ℚ)⌋ =
            (parts x).truncated := by
          rw [Int.floor_eq_iff]
          push_cast
          constructor <;> linarith
        rw [hdown]
        push_cast
        ring
    rw [hfloor]
    exact stands_signed _ (by split <;> omega)

end Values

end Parterre.Binary32
