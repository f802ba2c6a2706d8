/-! # Rounding binary32 numbers to whole numbers

A finite binary32 number is a mantissa times a power of two.  Rounding it down, up or to the
nearest whole number, and bringing it into a range of integers, is exact arithmetic on these two.
A magnitude of `2 ^ 23` or more is whole already, so every result is again a binary32 number.

Besides, the module has the order operations of the library: the smaller and the larger of two
numbers, where NaN counts as no number at all, and clamping, where NaN stays. -/
namespace Parterre.Binary32

/-- A finite number: its magnitude is `mantissa * 2 ^ exponent`. -/
structure Parts where
  negative : Bool
  mantissa : Nat
  exponent : Int
  deriving DecidableEq

/-- The parts of a number, read off its sign bit, its eight bits of exponent and its 23 bits of
fraction; infinities have a sign only, and NaN has none. -/
def parts (x : Float32) : Parts :=
  let exponent := (x.toBits >>> 23 &&& 0xff).toNat
  let fraction := (x.toBits &&& 0x7fffff).toNat
  let negative := x.toBits >>> 31 != 0
  if exponent = 255 then ⟨negative && fraction == 0, 0, 0⟩
  else if exponent = 0 then ⟨negative, fraction, if fraction = 0 then 0 else -149⟩
  else ⟨negative, Nat.pow 2 23 + fraction, exponent - 150⟩

open Float.Model UnpackedFloat in
/-- The parts are those that the model of binary32 arithmetic works with. -/
theorem parts_eq_unpack (x : Float32) : parts x =
    match x.toModel.unpack with
    | .finite sign mantissa exponent _ => ⟨sign == .negative, mantissa, exponent⟩
    | .zero sign => ⟨sign == .negative, 0, 0⟩
    | .infinity sign => ⟨sign == .negative, 0, 0⟩
    | .notANumber => ⟨false, 0, 0⟩ := by
  have exponent_eq (b : UInt32) :
      (b >>> 23 &&& 0xff).toNat = (@unpackExponent .binary32 b.toBitVec).toNat := by
    simp [unpackExponent, UInt32.toNat_and, UInt32.toNat_shiftRight,
      Nat.and_two_pow_sub_one_eq_mod _ 8]
  have fraction_eq (b : UInt32) :
      (b &&& 0x7fffff).toNat = (@unpackMantissa .binary32 b.toBitVec).toNat := by
    simp [unpackMantissa, UInt32.toNat_and, Nat.and_two_pow_sub_one_eq_mod _ 23]
  have negative_eq (b : UInt32) :
      (b >>> 31 != 0) = (Sign.ofBitVec (@unpackSign .binary32 b.toBitVec) == .negative) := by
    have hb : b.toNat >>> 31 < 2 := by have := b.toNat_lt; omega
    have h : (b >>> 31).toNat = (@unpackSign .binary32 b.toBitVec).toNat := by
      change (b >>> 31).toNat = ((b.toBitVec.extractLsb 31 31).cast _).toNat
      simp only [UInt32.toNat_shiftRight, BitVec.toNat_cast, BitVec.extractLsb_toNat]
      simpa using (Nat.mod_eq_of_lt hb).symm
    generalize @unpackSign .binary32 b.toBitVec = s at h
    rw [Bool.eq_iff_iff, bne_iff_ne, ne_eq, ← UInt32.toNat_inj, h]
    rcases BitVec.eq_zero_or_eq_one s with rfl | rfl <;> decide
  have toBits_eq : x.toBits = x.toModel.toBits := rfl
  simp only [parts, toBits_eq, exponent_eq, fraction_eq, negative_eq]
  have full_iff (e : BitVec 8) : e = -1#8 ↔ e.toNat = 255 := by simp [← BitVec.toNat_inj]
  have zero_iff {n : Nat} (v : BitVec n) : v = 0#n ↔ v.toNat = 0 := by simp [← BitVec.toNat_inj]
  by_cases he : @unpackExponent .binary32 x.toModel.toBits.toBitVec = -1#8
  · by_cases hm : @unpackMantissa .binary32 x.toModel.toBits.toBitVec = 0#23
    · have hx : x.toModel.unpack = .infinity _ := (if_pos he).trans (if_pos hm)
      simp [hx, he, hm]
    · have hx : x.toModel.unpack = .notANumber := (if_pos he).trans (if_neg hm)
      simp [hx, he, mt (zero_iff _).2 hm]
  · have he' := mt (full_iff _).2 he
    by_cases hz : @unpackExponent .binary32 x.toModel.toBits.toBitVec = 0#8
    · by_cases hm : @unpackMantissa .binary32 x.toModel.toBits.toBitVec = 0#23
      · have hx : x.toModel.unpack = .zero _ := (if_neg he).trans ((if_pos hz).trans (dif_pos hm))
        simp [hx, hz, hm]
      · have hx : x.toModel.unpack = .finite _ _ _ _ :=
          (if_neg he).trans ((if_pos hz).trans (dif_neg hm))
        rw [hx]
        simp [hz, mt (zero_iff _).2 hm, Format.exponentBias]
    · have hm (m : BitVec 23) : (1#1 ++ m).toNat = 2 ^ 23 + m.toNat := by
        rw [BitVec.toNat_append, BitVec.toNat_ofNat, Nat.one_mod, Nat.one_shiftLeft,
          Nat.or_comm, Nat.or_two_pow_eq_add_of_lt m.isLt, Nat.add_comm]
      have hx : x.toModel.unpack = .finite _ _ _ _ := (if_neg he).trans (if_neg hz)
      rw [hx]
      simp only [he', mt (zero_iff _).2 hz, hm, ↓reduceIte]
      simp [Format.exponentBias]

/-- The binary32 number nearest to a natural number below `2 ^ 32`. -/
def fromNat (n : Nat) : Float32 := (UInt32.ofNat n).toFloat32

def fromInt (i : Int32) : Float32 :=
  if i < 0 then -fromNat i.toInt.natAbs else fromNat i.toInt.natAbs

namespace Parts

/-- The power of two that the mantissa is divided by; one if the exponent is not negative. -/
def denominator (p : Parts) : Nat := Nat.pow 2 (-p.exponent).toNat

/-- The mantissa, multiplied by the power of two if the exponent is positive. -/
def numerator (p : Parts) : Nat := p.mantissa * Nat.pow 2 p.exponent.toNat

/-- The magnitude without its fraction. -/
def truncated (p : Parts) : Nat :=
  if p.exponent < 0 then p.mantissa >>> (-p.exponent).toNat else p.numerator

theorem numerator_of_neg {p : Parts} (h : p.exponent < 0) : p.numerator = p.mantissa := by
  have : p.exponent.toNat = 0 := by omega
  simp [numerator, this]

theorem denominator_of_nonneg {p : Parts} (h : 0 ≤ p.exponent) : p.denominator = 1 := by
  have : (-p.exponent).toNat = 0 := by omega
  simp [denominator, this]

theorem truncated_eq (p : Parts) : p.truncated = p.numerator / p.denominator := by
  unfold truncated
  split
  · next h =>
    rw [numerator_of_neg h, Nat.shiftRight_eq_div_pow]
    rfl
  · next h => rw [denominator_of_nonneg (Int.not_lt.1 h), Nat.div_one]

def isWhole (p : Parts) : Bool := 0 ≤ p.exponent || p.truncated * p.denominator == p.mantissa

@[simp] theorem isWhole_iff (p : Parts) : p.isWhole = true ↔ p.denominator ∣ p.numerator := by
  unfold isWhole
  by_cases h : 0 ≤ p.exponent
  · simp [h, denominator_of_nonneg h]
  · simp [h, truncated_eq, numerator_of_neg (Int.not_le.1 h), Nat.dvd_iff_div_mul_eq]

/-- The magnitude rounded to the nearest integer, halves up. -/
def nearest (p : Parts) : Nat := (2 * p.numerator + p.denominator) / (2 * p.denominator)

/-- An integer with the sign of the number. -/
def signed (p : Parts) (n : Nat) : Float32 :=
  if p.negative then -fromNat n else fromNat n

end Parts

def floor (x : Float32) : Float32 :=
  let p := parts x
  if p.isWhole then x else p.signed (if p.negative then p.truncated + 1 else p.truncated)

def ceil (x : Float32) : Float32 := -floor (-x)

def roundHalfAway (x : Float32) : Float32 :=
  let p := parts x
  if p.isWhole then x else p.signed p.nearest

/-- The integer part of `x`, brought into the range from `lo` to `hi`; NaN counts as zero. -/
def toIntWithin (lo hi : Int) (x : Float32) : Int :=
  let p := parts x
  if x.isNaN then 0
  else if !x.isFinite then if p.negative then lo else hi
  else max lo (min hi (if p.negative then -(p.truncated : Int) else p.truncated))

/-- The integer part of `x` as a 32-bit signed integer, out-of-range values going to the limits. -/
def toInt32 (x : Float32) : Int32 :=
  Int32.ofInt (toIntWithin Int32.minValue.toInt Int32.maxValue.toInt x)

/-- The integer part of `x` as a natural number up to `limit`. -/
def toNatUpTo (limit : Nat) (x : Float32) : Nat := (toIntWithin 0 limit x).toNat

/-- The smaller number; if one is NaN, the other. -/
def least (a b : Float32) : Float32 := if a.isNaN then b else if b < a then b else a

/-- The larger number; if one is NaN, the other. -/
def greatest (a b : Float32) : Float32 := if a.isNaN then b else if a < b then b else a

/-- Brings `x` into the range from `lo` to `hi`, for `lo ≤ hi`; NaN stays NaN. -/
def clamp (x lo hi : Float32) : Float32 := if x < lo then lo else if hi < x then hi else x

/-- Brings `x` into the range from `lo` to `hi`; the lower end wins if the range is empty. -/
def clampLow (x lo hi : Float32) : Float32 := greatest (least x hi) lo

end Parterre.Binary32
