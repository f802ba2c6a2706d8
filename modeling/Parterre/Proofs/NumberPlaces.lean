import Mathlib.Data.Prod.Lex
import Parterre.Proofs.NumberValues

/-! # The places of numbers in their order

Infinities and finite numbers have their places in a linear order, and to compare two numbers is to
compare their places.  NaN has no place, and the two zeros share one, so a smaller or larger number
may come with another sign if the numbers change places.  Numbers with the same place are alike: a
comparison does not tell them apart, and their differences are alike again. -/
namespace Parterre.Binary32
open Float.Model

/-- Places are ordered by the kind of number first, then by exponent, then by mantissa. -/
abbrev Place := ℤ ×ₗ ℤ ×ₗ ℤ

def place : UnpackedFloat → Option Place
  | .notANumber => none
  | .infinity s => some (toLex (s.apply 2, toLex (0, 0)))
  | .zero _ => some (toLex (0, toLex (0, 0)))
  | .finite s m e _ => some (toLex (s.apply 1, toLex (s.apply e, s.apply m)))

/-! ### Unpacked numbers -/

section Unpacked
variable {x x' y y' : UnpackedFloat}

/-- To compare two numbers is to compare their places. -/
theorem compare_eq_compare_place (x y : UnpackedFloat) :
    x.compare y = (place x).bind fun p => (place y).map (compare p) := by
  have hneg (i j : ℤ) : compare (-i) (-j) = compare j i := by
    rcases lt_trichotomy i j with h | rfl | h
    · rw [compare_gt_iff_gt.2 h, compare_gt_iff_gt.2 (neg_lt_neg h)]
    · rw [compare_eq_iff_eq.2 rfl, compare_eq_iff_eq.2 rfl]
    · rw [compare_lt_iff_lt.2 h, compare_lt_iff_lt.2 (neg_lt_neg h)]
  have hcast (m n : ℕ) : compare (m : ℤ) n = compare m n := by
    rw [← cmp_eq_compare, ← cmp_eq_compare]
    exact Nat.strictMono_cast.cmp_map_eq m n
  cases x with
  | notANumber => rfl
  | infinity s =>
    cases y with
    | notANumber => cases s <;> rfl
    | infinity t => cases s <;> cases t <;> rfl
    | zero t => cases s <;> rfl
    | finite t n d hn => cases s <;> cases t <;> rfl
  | zero s =>
    cases y with
    | notANumber => rfl
    | infinity t => cases t <;> rfl
    | zero t => rfl
    | finite t n d hn => cases t <;> rfl
  | finite s m e hm =>
    cases y with
    | notANumber => cases s <;> rfl
    | infinity t => cases s <;> cases t <;> rfl
    | zero t => cases s <;> rfl
    -- kinds and signs decide, unless both numbers are finite, not zero and of one sign
    | finite t n d hn =>
      cases s <;> cases t
      · change some ((compare e d).then (compare m n)).swap =
          some ((compare (-e) (-d)).then (compare (-m : ℤ) (-n)))
        rw [hneg, hneg, hcast, Ordering.swap_then, Int.compare_swap, Nat.compare_swap]
      · rfl
      · rfl
      · change some ((compare e d).then (compare m n)) =
          some ((compare e d).then (compare (m : ℤ) n))
        rw [hcast]

/-- Only the zeros share a place. -/
theorem eq_or_zeros_of_place (h : place x = place x') :
    x = x' ∨ ∃ s s', x = .zero s ∧ x' = .zero s' := by
  cases x with
  | notANumber =>
    cases x' with
    | notANumber => exact .inl rfl
    | _ => cases h
  | infinity s =>
    left
    cases x' with
    | notANumber => cases h
    | infinity t => cases s <;> cases t <;> simp [place, UnpackedFloat.Sign.apply] at h ⊢
    | zero t => cases s <;> simp [place, UnpackedFloat.Sign.apply] at h
    | finite t n d hn => cases s <;> cases t <;> simp [place, UnpackedFloat.Sign.apply] at h
  | zero s =>
    right
    cases x' with
    | notANumber => cases h
    | infinity t => cases t <;> simp [place, UnpackedFloat.Sign.apply] at h
    | zero t => exact ⟨s, t, rfl, rfl⟩
    | finite t n d hn => cases t <;> simp [place, UnpackedFloat.Sign.apply] at h
  | finite s m e hm =>
    left
    cases x' with
    | notANumber => cases h
    | infinity t => cases s <;> cases t <;> simp [place, UnpackedFloat.Sign.apply] at h
    | zero t => cases s <;> simp [place, UnpackedFloat.Sign.apply] at h
    | finite t n d hn => cases s <;> cases t <;> simp_all [place, UnpackedFloat.Sign.apply]

private theorem place_sub_congr (hx : place x = place x') (hy : place y = place y') :
    place (x.sub .binary32 y) = place (x'.sub .binary32 y') := by
  rcases eq_or_zeros_of_place hx with rfl | ⟨s, s', rfl, rfl⟩ <;>
    rcases eq_or_zeros_of_place hy with rfl | ⟨t, t', rfl, rfl⟩
  · rfl
  · cases x with
    | zero r => cases r <;> cases t <;> cases t' <;> rfl
    | _ => rfl
  · cases y with
    | zero r => cases r <;> cases s <;> cases s' <;> rfl
    | _ => rfl
  · cases s <;> cases s' <;> cases t <;> cases t' <;> rfl

end Unpacked

/-! ### Numbers -/

def placeOf (a : Float32) : Option Place := place a.toModel.unpack

/-- Whether two numbers have the same place, or are both NaN. -/
def Alike (a b : Float32) : Prop := placeOf a = placeOf b

section Numbers
variable {a a' b b' : Float32}

theorem lt_iff_placeOf : a < b ↔ ∃ p q, placeOf a = some p ∧ placeOf b = some q ∧ p < q := by
  have hmodel : a < b ↔ a.toModel.unpack.lt b.toModel.unpack = true := decide_eq_true_iff
  rw [hmodel, UnpackedFloat.lt, compare_eq_compare_place, beq_iff_eq, Option.bind_eq_some_iff]
  simp only [Option.map_eq_some_iff, compare_lt_iff_lt, placeOf, exists_and_left]

theorem isNaN_iff : a.isNaN = true ↔ placeOf a = none := by
  change a.toModel.unpack.isNaN = true ↔ place a.toModel.unpack = none
  cases a.toModel.unpack <;> simp [UnpackedFloat.isNaN, place]

theorem le_iff_placeOf : a ≤ b ↔ ∃ p q, placeOf a = some p ∧ placeOf b = some q ∧ p ≤ q := by
  have hmodel : a ≤ b ↔ a.toModel.unpack.le b.toModel.unpack = true := decide_eq_true_iff
  have hisLE {p q : Place} : (compare p q).isLE = true ↔ p ≤ q := by
    rw [Ordering.isLE_iff_ne_gt, compare_gt_iff_gt]
    exact not_lt
  rw [hmodel, UnpackedFloat.le, compare_eq_compare_place, Option.any_eq_true]
  simp only [Option.bind_eq_some_iff, Option.map_eq_some_iff, placeOf]
  constructor
  · rintro ⟨_, ⟨p, hp, q, hq, rfl⟩, hle⟩
    exact ⟨p, q, hp, hq, hisLE.1 hle⟩
  · rintro ⟨p, q, hp, hq, hle⟩
    exact ⟨_, ⟨p, hp, q, hq, rfl⟩, hisLE.2 hle⟩

theorem Alike.le_iff (ha : Alike a a') (hb : Alike b b') : a ≤ b ↔ a' ≤ b' := by
  rw [le_iff_placeOf, le_iff_placeOf, ha, hb]

theorem Alike.sub (ha : Alike a a') (hb : Alike b b') : Alike (a - b) (a' - b') := by
  have hpack {x x' : UnpackedFloat} (h : place x = place x') :
      Alike (Float32.ofModel (.pack x)) (Float32.ofModel (.pack x')) := by
    rcases eq_or_zeros_of_place h with rfl | ⟨s, s', rfl, rfl⟩
    · rfl
    · have hfits (s : UnpackedFloat.Sign) : Fits (.zero s) := trivial
      rw [Alike, placeOf, placeOf, unpack_ofModel_pack (hfits s), unpack_ofModel_pack (hfits s'), h]
  exact hpack (place_sub_congr ha hb)

/-- A choice of two numbers by their places has the place chosen; if there is only one place, it has
that place. -/
theorem placeOf_choice {second : Prop} [Decidable second] {choice : Place → Place → Place}
    (hsecond : second → ∃ p q, placeOf a = some p ∧ placeOf b = some q ∧ choice p q = q)
    (hfirst : ¬second → ∀ p q, placeOf a = some p → placeOf b = some q → choice p q = p) :
    placeOf (if a.isNaN then b else if second then b else a) =
      Option.merge choice (placeOf a) (placeOf b) := by
  cases ha : placeOf a with
  | none => rw [if_pos (isNaN_iff.2 ha), Option.merge_none_left]
  | some p =>
    have hnumber : ¬a.isNaN = true := by
      rw [isNaN_iff, ha]
      exact Option.some_ne_none p
    rw [if_neg hnumber]
    by_cases h : second
    · obtain ⟨p', q, hp, hb, hchoice⟩ := hsecond h
      obtain rfl : p' = p := Option.some.inj (hp.symm.trans ha)
      rw [if_pos h, hb, Option.merge_some_some, hchoice]
    · rw [if_neg h, ha]
      cases hb : placeOf b with
      | none => rw [Option.merge_none_right]
      | some q => rw [Option.merge_some_some, hfirst h p q ha hb]

@[simp] theorem placeOf_least (a b : Float32) :
    placeOf (least a b) = Option.merge min (placeOf a) (placeOf b) := by
  apply placeOf_choice
  · intro h
    obtain ⟨q, p, hb, ha, hlt⟩ := lt_iff_placeOf.1 h
    exact ⟨p, q, ha, hb, min_eq_right hlt.le⟩
  · intro h p q ha hb
    exact min_eq_left (not_lt.1 fun hlt => h (lt_iff_placeOf.2 ⟨q, p, hb, ha, hlt⟩))

@[simp] theorem placeOf_greatest (a b : Float32) :
    placeOf (greatest a b) = Option.merge max (placeOf a) (placeOf b) := by
  apply placeOf_choice
  · intro h
    obtain ⟨p, q, ha, hb, hlt⟩ := lt_iff_placeOf.1 h
    exact ⟨p, q, ha, hb, max_eq_right hlt.le⟩
  · intro h p q ha hb
    exact max_eq_left (not_lt.1 fun hlt => h (lt_iff_placeOf.2 ⟨p, q, ha, hb, hlt⟩))

theorem alike_least_comm (a b : Float32) : Alike (least a b) (least b a) := by
  rw [Alike, placeOf_least, placeOf_least]
  exact Std.Commutative.comm _ _

theorem alike_greatest_comm (a b : Float32) : Alike (greatest a b) (greatest b a) := by
  rw [Alike, placeOf_greatest, placeOf_greatest]
  exact Std.Commutative.comm _ _

end Numbers

end Parterre.Binary32
