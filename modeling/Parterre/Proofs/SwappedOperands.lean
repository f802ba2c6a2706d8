import Parterre.Proofs.NumberPlaces
import Parterre.Shape.Circle

/-! # Operands that change places

A sum is the same, bit for bit, whichever operand comes first, and this holds of all numbers.  A
difference the other way round has the other sign, unless it is zero or NaN, so its square is the
same again.  Hence it does not matter of which of two circles one asks whether it collides with the
other. -/
namespace Parterre
namespace Binary32
open Float.Model UnpackedFloat

/-! ### Unpacked numbers -/

section Unpacked
variable (x y : UnpackedFloat) (s : Sign)

theorem unpacked_add_comm : x.add .binary32 y = y.add .binary32 x := by
  cases x with
  | notANumber => cases y <;> rfl
  | infinity s =>
    cases y with
    | infinity t => cases s <;> cases t <;> rfl
    | _ => rfl
  | zero s =>
    cases y with
    | zero t => cases s <;> cases t <;> rfl
    | _ => rfl
  | finite s m e hm =>
    cases y with
    | finite t n d hn =>
      unfold UnpackedFloat.add
      simp only
      rw [min_comm d e, add_comm (s.apply _)]
    | _ => rfl

private theorem round_neg (m : ℕ) (e : ℤ) :
    UnpackedFloat.round .binary32 (-s) m e = (UnpackedFloat.round .binary32 s m e).neg := by
  unfold UnpackedFloat.round roundWithAccuracy
  simp only
  split <;> rfl

private theorem normalize_neg {i : ℤ} (hi : i ≠ 0) (e : ℤ) :
    UnpackedFloat.normalize .binary32 (-i) e s = (UnpackedFloat.normalize .binary32 i e s).neg := by
  unfold UnpackedFloat.normalize
  rcases lt_or_gt_of_ne hi with h | h
  · rw [compare_lt_iff_lt.2 h, compare_gt_iff_gt.2 (neg_pos.2 h)]
    exact round_neg .negative _ e
  · rw [compare_gt_iff_gt.2 h, compare_lt_iff_lt.2 (neg_lt_zero.2 h)]
    simp only [neg_neg]
    exact round_neg .positive _ e

/-- A difference the other way round is negated, or the same. -/
theorem unpacked_sub_swap : x.sub .binary32 y = y.sub .binary32 x ∨
    x.sub .binary32 y = (y.sub .binary32 x).neg := by
  cases x with
  | notANumber => cases y <;> exact .inl rfl
  | infinity s =>
    cases y with
    | notANumber => exact .inl rfl
    | infinity t =>
      cases s <;> cases t
      · exact .inl rfl
      · exact .inr rfl
      · exact .inr rfl
      · exact .inl rfl
    | zero t => cases s <;> exact .inr rfl
    | finite t n d hn => cases s <;> exact .inr rfl
  | zero s =>
    cases y with
    | notANumber => exact .inl rfl
    | infinity t => cases t <;> exact .inr rfl
    | zero t =>
      cases s <;> cases t
      · exact .inl rfl
      · exact .inr rfl
      · exact .inr rfl
      · exact .inl rfl
    | finite t n d hn => cases t <;> exact .inr rfl
  | finite s m e hm =>
    cases y with
    | notANumber => exact .inl rfl
    | infinity t => cases t <;> exact .inr rfl
    | zero t => cases s <;> exact .inr rfl
    | finite t n d hn =>
      unfold UnpackedFloat.sub
      simp only [min_comm d e]
      rw [← neg_sub]
      generalize t.apply _ - s.apply _ = i
      -- the sum of opposite numbers is zero, whose sign is always the same
      by_cases hi : i = 0
      · exact .inl (by rw [hi, neg_zero])
      · exact .inr (normalize_neg .positive hi _)

private theorem unpacked_mul_neg_neg : x.neg.mul .binary32 y.neg = x.mul .binary32 y := by
  have hsign (s t : Sign) : -s * -t = s * t := by cases s <;> cases t <;> rfl
  cases x <;> cases y <;> simp [UnpackedFloat.neg, UnpackedFloat.mul, hsign]

private theorem unpack_packComponents_neg (e : BitVec 8) (m : BitVec 23) :
    UnpackedFloat.unpack .binary32 (packComponents .binary32 (-s) e m) =
      (UnpackedFloat.unpack .binary32 (packComponents .binary32 s e m)).neg := by
  simp only [UnpackedFloat.unpack, unpackSign_packComponents, Sign.ofBitVec_toBitVec,
    unpackMantissa_packComponents, unpackExponent_packComponents]
  split
  · split <;> rfl
  · split
    · split <;> rfl
    · rfl

/-- Packing keeps the sign apart, also of what is out of range. -/
theorem unpack_pack_neg : UnpackedFloat.unpack .binary32 (UnpackedFloat.pack .binary32 x.neg) =
    (UnpackedFloat.unpack .binary32 (UnpackedFloat.pack .binary32 x)).neg := by
  cases x with
  | notANumber => rfl
  | infinity s => cases s <;> rfl
  | zero s => cases s <;> rfl
  | finite s m e hm =>
    unfold UnpackedFloat.neg UnpackedFloat.pack
    simp only
    split
    · cases s <;> rfl
    · split <;> exact unpack_packComponents_neg s _ _

end Unpacked

/-! ### Numbers -/

theorem add_swap (a b : Float32) : a + b = b + a :=
  congrArg (fun x => Float32.ofModel (.pack x)) (unpacked_add_comm _ _)

theorem square_sub_swap (a b : Float32) : (a - b) * (a - b) = (b - a) * (b - a) := by
  let x := (b.toModel.unpack).sub .binary32 a.toModel.unpack
  let square (y : UnpackedFloat) : Float32 := .ofModel (.pack (y.mul .binary32 y))
  have hsquare (y : UnpackedFloat) : square (UnpackedFloat.unpack .binary32
      (UnpackedFloat.pack .binary32 y.neg)) =
        square (UnpackedFloat.unpack .binary32 (UnpackedFloat.pack .binary32 y)) := by
    simp only [square, unpack_pack_neg, unpacked_mul_neg_neg]
  have hleft : (a - b) * (a - b) = square (UnpackedFloat.unpack .binary32
      (UnpackedFloat.pack .binary32 (a.toModel.unpack.sub .binary32 b.toModel.unpack))) := rfl
  rcases unpacked_sub_swap a.toModel.unpack b.toModel.unpack with h | h
  · rw [hleft, h]
    rfl
  · rw [hleft, h, hsquare]
    rfl

end Binary32

open Binary32

theorem Point.distanceSquared_comm (p q : Point) : p.distanceSquared q = q.distanceSquared p := by
  unfold distanceSquared
  simp only [square_sub_swap p.x q.x, square_sub_swap p.y q.y]

theorem Circle.collides_comm (a b : Circle) : a.collides b = b.collides a := by
  unfold collides
  simp only [Point.distanceSquared_comm a.center b.center, add_swap a.r b.r]

end Parterre
