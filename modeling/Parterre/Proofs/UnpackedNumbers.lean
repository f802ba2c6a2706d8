import Mathlib
import Parterre.Proofs.NearestNumbers

/-! # Arithmetic on unpacked numbers

Sums, products and quotients are taken exactly, as a mantissa with some bits about what was cut off
behind it, and then rounded.  The rounded result is the representable number nearest to the exact
one. -/
namespace Parterre.Binary32
open Float.Model UnpackedFloat

def sgn : Sign → ℚ
  | .negative => -1
  | .positive => 1

/-- The rational number that an unpacked number stands for; infinities and NaN stand for zero. -/
def number : UnpackedFloat → ℚ
  | .finite s m e _ => sgn s * (m * 2 ^ e)
  | _ => 0

/-- Whether the mantissa has all 24 bits, or as many as the smallest exponent leaves it. -/
def Aligned : UnpackedFloat → Prop
  | .finite _ m e _ => m < 2 ^ 24 ∧ -149 ≤ e ∧ (2 ^ 23 ≤ m ∨ e = -149)
  | _ => True

/-! ### Mantissas that are cut off -/

/-- Whether a mantissa is what is left of `x` once its fraction is cut off, and the two bits beside
it tell how the fraction compares to nothing and to one half. -/
structure Truncates (em : ExtendedMantissa) (x : ℚ) : Prop where
  nonneg : 0 ≤ x - em.mantissa
  lt_one : x - em.mantissa < 1
  round : em.roundBit = true ↔ 1 / 2 ≤ x - em.mantissa
  sticky : em.stickyBit = true ↔ x - em.mantissa ≠ 0 ∧ x - em.mantissa ≠ 1 / 2

section Truncates
variable {em : ExtendedMantissa} {x : ℚ}

theorem truncates_exact (m : Nat) : Truncates ⟨m, false, false⟩ m := by
  constructor <;> norm_num

private theorem Truncates.shiftRightOne (h : Truncates em x) :
    Truncates em.shiftRightOne (x / 2) := by
  obtain ⟨m, r, s⟩ := em
  obtain ⟨hnonneg, hlt, hround, hsticky⟩ := h
  simp only at hnonneg hlt hround hsticky
  have hrest : (r || s) = true ↔ x - m ≠ 0 := by
    rw [Bool.or_eq_true, hround, hsticky]
    constructor
    · rintro (h | h)
      · exact fun hzero => by rw [hzero] at h; norm_num at h
      · exact h.1
    · intro h
      by_cases hhalf : x - m = 1 / 2
      · exact .inl hhalf.ge
      · exact .inr ⟨h, hhalf⟩
  obtain ⟨half, hhalf | hhalf⟩ : ∃ half, m = 2 * half ∨ m = 2 * half + 1 := ⟨m / 2, by omega⟩
  · have hdiv : m / 2 = half := by omega
    have hsub : x / 2 - (half : ℚ) = (x - m) / 2 := by rw [hhalf]; push_cast; ring
    constructor <;> simp only [ExtendedMantissa.shiftRightOne, hdiv, hsub, hrest]
    · linarith
    · linarith
    · refine iff_of_false (by simp [hhalf]) (by linarith)
    · refine ⟨fun h => ⟨fun hzero => h (by linarith), fun heq => by linarith⟩, fun h hzero => ?_⟩
      exact h.1 (by rw [hzero, zero_div])
  · have hdiv : m / 2 = half := by omega
    have hsub : x / 2 - (half : ℚ) = 1 / 2 + (x - m) / 2 := by rw [hhalf]; push_cast; ring
    constructor <;> simp only [ExtendedMantissa.shiftRightOne, hdiv, hsub, hrest]
    · linarith
    · linarith
    · refine iff_of_true (by simp [hhalf]) (by linarith)
    · refine ⟨fun h => ⟨fun hzero => by linarith, fun heq => h (by linarith)⟩, fun h hzero => ?_⟩
      exact h.2 (by rw [hzero]; norm_num)

private theorem Truncates.shiftRight (h : Truncates em x) (n : Nat) :
    Truncates (em >>> n) (x / 2 ^ n) := by
  induction n with
  | zero =>
    rw [pow_zero, div_one]
    exact h
  | succ n ih =>
    have hone : x / 2 ^ (n + 1) = x / 2 ^ n / 2 := by rw [pow_succ, div_div]
    rw [hone]
    exact ih.shiftRightOne

private theorem Truncates.floor_eq (h : Truncates em x) : ⌊x⌋ = em.mantissa := by
  rw [Int.floor_eq_iff]
  push_cast
  constructor <;> linarith [h.nonneg, h.lt_one]

/-- The two bits are enough to round. -/
theorem Truncates.roundedMantissa (h : Truncates em x) :
    (em.roundedMantissa : ℤ) = nearestEven x := by
  have hfract : Int.fract x = x - em.mantissa := by
    rw [Int.fract, h.floor_eq]
    rfl
  unfold nearestEven
  rw [h.floor_eq, hfract]
  obtain ⟨m, r, s⟩ := em
  obtain ⟨hnonneg, hlt, hround, hsticky⟩ := h
  simp only at hnonneg hlt hround hsticky ⊢
  cases r with
  | false =>
    have hless : x - m < 1 / 2 := not_le.1 fun hle => by simpa using hround.2 hle
    rw [if_pos hless]
    cases s <;> rfl
  | true =>
    have hleast : 1 / 2 ≤ x - m := hround.1 rfl
    rw [if_neg (not_lt.2 hleast)]
    cases s with
    | false =>
      have hhalf : x - m = 1 / 2 := by
        by_contra hne
        have hzero : x - m ≠ 0 := fun hzero => by rw [hzero] at hleast; norm_num at hleast
        simpa using hsticky.2 ⟨hzero, hne⟩
      rw [if_neg hhalf.le.not_gt]
      simp [ExtendedMantissa.roundedMantissa, ExtendedMantissa.accuracy,
        Accuracy.roundToNearestEven]
    | true =>
      have hmore : 1 / 2 < x - m := lt_of_le_of_ne hleast (Ne.symm (hsticky.1 rfl).2)
      rw [if_pos hmore]
      simp [ExtendedMantissa.roundedMantissa, ExtendedMantissa.accuracy,
        Accuracy.roundToNearestEven]

end Truncates

/-! ### Rounding -/

section Rounding
variable {em : ExtendedMantissa} {x q : ℚ} {m : Nat} {e : ℤ} {acc : Accuracy}

theorem targetExponent_eq (n : ℤ) :
    Format.binary32.targetExponent n = max (n - 24) (-149) := rfl

/-- The exponent that a number is to be shifted to is that of its last place. -/
theorem targetExponent_totalExponent (hm : m ≠ 0) (hlow : m ≤ x) (hhigh : x < m + 1) :
    Format.binary32.targetExponent (totalExponent m e) = lastPlace (x * 2 ^ e) := by
  have hfloor : (2 : ℚ) ^ (m.log2 : ℤ) ≤ m := by exact_mod_cast Nat.log2_self_le hm
  have hceil : (m : ℚ) + 1 ≤ 2 ^ ((m.log2 : ℤ) + 1) := by exact_mod_cast Nat.lt_log2_self
  have hpos := two_zpow_pos e
  have hlog : Int.log 2 |x * 2 ^ e| = m.log2 + e := by
    rw [abs_of_pos (mul_pos ((two_zpow_pos _).trans_le (hfloor.trans hlow)) hpos)]
    refine log_eq ?_ ?_
    · rw [two_zpow_add]
      exact mul_le_mul_of_nonneg_right (hfloor.trans hlow) hpos.le
    · rw [add_right_comm, two_zpow_add]
      exact mul_lt_mul_of_pos_right (hhigh.trans_le hceil) hpos
  rw [targetExponent_eq, totalExponent, lastPlace, hlog]
  congr 1
  omega

/-- What is smaller than the unit it is given in, and no finer than it may be, is as small as the
smallest exponent. -/
theorem exponent_le_of_lt_one (hpos : 0 < x) (hx : x < 1) (he : e ≤ lastPlace (x * 2 ^ e)) :
    e ≤ -149 ∧ lastPlace (x * 2 ^ e) = -149 := by
  have hqpos : 0 < x * 2 ^ e := mul_pos hpos (two_zpow_pos e)
  have hlt : x * 2 ^ e < 2 ^ e := by
    have := mul_lt_mul_of_pos_right hx (two_zpow_pos e)
    rwa [one_mul] at this
  have hlog : Int.log 2 (x * 2 ^ e) < e :=
    (Int.lt_zpow_iff_log_lt (by norm_num) hqpos).1 hlt
  unfold lastPlace at he ⊢
  rw [abs_of_pos hqpos] at he ⊢
  omega

/-- The first shift leaves a mantissa in units of the last place. -/
theorem shiftToTargetExponent_spec
    (hx : Truncates (.ofMantissaAndAccuracy m acc) x) (hpos : 0 < x)
    (he : e ≤ lastPlace (x * 2 ^ e)) :
    ∃ em, shiftToTargetExponent Format.binary32 m e acc = (em, lastPlace (x * 2 ^ e)) ∧
      Truncates em (x * 2 ^ e / 2 ^ lastPlace (x * 2 ^ e)) := by
  have hmantissa : (ExtendedMantissa.ofMantissaAndAccuracy m acc).mantissa = m := by
    cases acc with
    | exact => rfl
    | inexact o => cases o <;> rfl
  have hlow := hx.nonneg
  have hhigh := hx.lt_one
  rw [hmantissa] at hlow hhigh
  let n := (lastPlace (x * 2 ^ e) - e).toNat
  have hn : (n : ℤ) = lastPlace (x * 2 ^ e) - e := Int.toNat_of_nonneg (by omega)
  have htarget : (Format.binary32.targetExponent (totalExponent m e) - e).toNat = n := by
    by_cases hm : m = 0
    · subst hm
      obtain ⟨hsmall, hplace⟩ := exponent_le_of_lt_one hpos (by simpa using hhigh) he
      have htotal : totalExponent 0 e = 1 + e := by simp [totalExponent]
      rw [targetExponent_eq, htotal]
      omega
    · rw [targetExponent_totalExponent hm (by linarith) (by linarith)]
  refine ⟨ExtendedMantissa.ofMantissaAndAccuracy m acc >>> n, ?_, ?_⟩
  · unfold shiftToTargetExponent shiftToExponent
    simp only [htarget, hn]
    rw [add_sub_cancel]
  · have hunit : x * 2 ^ e / 2 ^ lastPlace (x * 2 ^ e) = x / 2 ^ n := by
      have hsplit : lastPlace (x * 2 ^ e) = n + e := by omega
      rw [hsplit, two_zpow_add, zpow_natCast]
      have := (two_zpow_pos e).ne'
      field_simp
    rw [hunit]
    exact hx.shiftRight n

private theorem shiftToTargetExponent_of_lt (hm : m < 2 ^ 24) (he : -149 ≤ e) :
    shiftToTargetExponent Format.binary32 m e .exact = (⟨m, false, false⟩, e) := by
  have hlog : m.log2 < 24 := by
    by_cases hzero : m = 0
    · simp [hzero]
    · exact (Nat.log2_lt hzero).2 hm
  have htarget : (Format.binary32.targetExponent (totalExponent m e) - e).toNat = 0 := by
    rw [targetExponent_eq, totalExponent]
    omega
  unfold shiftToTargetExponent shiftToExponent
  simp only [htarget]
  exact congrArg _ (add_zero e)

private theorem shiftToTargetExponent_two_pow (he : -149 ≤ e) :
    shiftToTargetExponent Format.binary32 (2 ^ 24) e .exact = (⟨2 ^ 23, false, false⟩, e + 1) := by
  have htarget : (Format.binary32.targetExponent (totalExponent (2 ^ 24) e) - e).toNat = 1 := by
    rw [targetExponent_eq, totalExponent, Nat.log2_two_pow]
    omega
  unfold shiftToTargetExponent shiftToExponent
  simp only [htarget]
  rfl

/-- An unpacked number that stands for the rational number `q`, rounded. -/
structure Rounds (y : UnpackedFloat) (q : ℚ) : Prop where
  finite : y.isFinite = true
  aligned : Aligned y
  number_eq : number y = rounded q

theorem roundWithAccuracy_spec (s : Sign)
    (hx : Truncates (.ofMantissaAndAccuracy m acc) x) (hpos : 0 < x)
    (he : e ≤ lastPlace (x * 2 ^ e)) :
    Rounds (roundWithAccuracy Format.binary32 s m e acc) (sgn s * (x * 2 ^ e)) := by
  obtain ⟨em, hshift, hem⟩ := shiftToTargetExponent_spec hx hpos he
  have hqpos : 0 < x * 2 ^ e := mul_pos hpos (two_zpow_pos e)
  generalize x * 2 ^ e = q at *
  have hrounded := hem.roundedMantissa
  have hplace := neg_149_le_lastPlace q
  have hmost : em.roundedMantissa ≤ 2 ^ 24 := by
    have h := abs_nearestEven_le q
    rw [← hrounded, Nat.abs_cast] at h
    exact_mod_cast h
  have hleast : 2 ^ 23 ≤ em.roundedMantissa ∨ lastPlace q = -149 := by
    rcases hplace.lt_or_eq with hlt | heq
    · have h := le_nearestEven hqpos hlt
      rw [← hrounded] at h
      exact .inl (by exact_mod_cast h)
    · exact .inr heq.symm
  have hvalue : rounded (sgn s * q) = sgn s * (em.roundedMantissa * 2 ^ lastPlace q) := by
    have hr : rounded q = em.roundedMantissa * 2 ^ lastPlace q := by
      rw [rounded, ← hrounded]
      norm_cast
    cases s with
    | positive => rw [sgn, one_mul, one_mul, hr]
    | negative => rw [sgn, neg_one_mul, neg_one_mul, rounded_neg, hr]
  unfold roundWithAccuracy
  rw [hshift]
  simp only
  rcases hmost.lt_or_eq with hlt | heq
  · rw [shiftToTargetExponent_of_lt hlt hplace]
    simp only
    split
    · next hzero => exact ⟨rfl, trivial, by rw [hvalue, hzero]; simp [number]⟩
    · exact ⟨rfl, ⟨hlt, hplace, hleast⟩, hvalue.symm⟩
  · -- rounding has carried over into a 25th bit, which is shifted out again
    rw [heq, shiftToTargetExponent_two_pow hplace]
    have hne : ¬(2 : Nat) ^ 23 = 0 := by norm_num
    simp only [hne, ↓reduceDIte]
    refine ⟨rfl, ⟨by norm_num, by omega, .inl le_rfl⟩, ?_⟩
    rw [hvalue, heq, number, two_zpow_add, zpow_one]
    push_cast
    ring

end Rounding

/-! ### Operations -/

section Operations
variable {m : Nat} {e : ℤ} {a b : UnpackedFloat}

theorem decreaseExponent_spec (m : Nat) (e t : ℤ) :
    ((decreaseExponent m e t).1 : ℚ) * 2 ^ (min e t) = m * 2 ^ e ∧
      (decreaseExponent m e t).2 = min e t ∧ (0 < m → 0 < (decreaseExponent m e t).1) := by
  have hn : (((e - t).toNat : ℕ) : ℤ) = e - min e t := by omega
  unfold decreaseExponent
  simp only [Nat.shiftLeft_eq, hn, sub_sub_cancel, true_and]
  refine ⟨?_, fun hm => Nat.mul_pos hm (Nat.two_pow_pos _)⟩
  push_cast
  rw [← zpow_natCast, hn, mul_assoc, ← two_zpow_add, sub_add_cancel]

private theorem round_spec (s : Sign) (hm : 0 < m) :
    Rounds (UnpackedFloat.round Format.binary32 s m e) (sgn s * (m * 2 ^ e)) := by
  have htarget : Format.binary32.targetExponent (totalExponent m e) = lastPlace (m * 2 ^ e) :=
    targetExponent_totalExponent hm.ne' le_rfl (lt_add_one _)
  unfold UnpackedFloat.round
  simp only [htarget]
  generalize hplace : lastPlace (m * 2 ^ e) = p
  obtain ⟨hvalue, hexp, hpos⟩ := decreaseExponent_spec m e p
  rw [← hvalue, hexp]
  refine roundWithAccuracy_spec s (truncates_exact _) (by exact_mod_cast hpos hm) ?_
  rw [hvalue, hplace]
  exact min_le_right _ _

theorem normalize_spec (n : ℤ) (e : ℤ) :
    Rounds (UnpackedFloat.normalize Format.binary32 n e .positive) (n * 2 ^ e) := by
  unfold UnpackedFloat.normalize
  rcases lt_trichotomy n 0 with h | rfl | h
  · rw [compare_lt_iff_lt.2 h]
    have hcast : sgn .negative * (((-n).toNat : ℕ) * 2 ^ e) = (n : ℚ) * 2 ^ e := by
      have : ((-n).toNat : ℤ) = -n := Int.toNat_of_nonneg (by omega)
      have : (((-n).toNat : ℕ) : ℚ) = -n := by exact_mod_cast this
      rw [this, sgn]
      ring
    rw [← hcast]
    exact round_spec .negative (by omega)
  · refine ⟨rfl, trivial, ?_⟩
    simp [number, rounded_of_representable representable_zero]
  · rw [compare_gt_iff_gt.2 h]
    have hcast : sgn .positive * ((n.toNat : ℕ) * 2 ^ e) = (n : ℚ) * 2 ^ e := by
      have : (n.toNat : ℤ) = n := Int.toNat_of_nonneg h.le
      have : ((n.toNat : ℕ) : ℚ) = n := by exact_mod_cast this
      rw [this, sgn, one_mul]
    rw [← hcast]
    exact round_spec .positive (by omega)

/-- Whether an unpacked number is finite, with the exponents that fit. -/
structure Sound (a : UnpackedFloat) : Prop where
  finite : a.isFinite = true
  aligned : Aligned a

@[simp] theorem apply_eq (s : Sign) (n : ℕ) : ((s.apply n : ℤ) : ℚ) = sgn s * n := by
  cases s <;> simp [Sign.apply, sgn]

@[simp] theorem sgn_neg (s : Sign) : sgn (-s) = -sgn s := by
  cases s
  · exact (neg_neg 1).symm
  · rfl

@[simp] theorem sgn_mul (s t : Sign) : sgn (s * t) = sgn s * sgn t := by
  cases s <;> cases t <;> norm_num [sgn]

@[simp] theorem sgn_div (s t : Sign) : sgn (s / t) = sgn s / sgn t := by
  cases s <;> cases t <;> norm_num [sgn] <;> rfl

@[simp] theorem number_neg (a : UnpackedFloat) : number a.neg = -number a := by
  cases a <;> simp [UnpackedFloat.neg, number, sgn_neg]

theorem Sound.neg (h : Sound a) : Sound a.neg := by
  obtain ⟨hfinite, haligned⟩ := h
  cases a <;> exact ⟨hfinite, haligned⟩

theorem Aligned.representable (h : Aligned a) : Representable (number a) := by
  cases a with
  | finite s m e hm =>
    obtain ⟨hlt, he, -⟩ := h
    refine ⟨s.apply m, e, ?_, he, by rw [apply_eq, number, mul_assoc]⟩
    have habs : |s.apply m| = m := by cases s <;> simp [Sign.apply]
    rw [habs]
    exact_mod_cast hlt.le
  | _ => exact representable_zero

private theorem Sound.rounds (h : Sound a) : Rounds a (number a) :=
  ⟨h.finite, h.aligned, (rounded_of_representable h.aligned.representable).symm⟩

theorem add_spec (ha : Sound a) (hb : Sound b) :
    Rounds (UnpackedFloat.add Format.binary32 a b) (number a + number b) := by
  obtain ⟨hafinite, -⟩ := id ha
  obtain ⟨hbfinite, -⟩ := id hb
  cases a with
  | infinity s => cases hafinite
  | notANumber => cases hafinite
  | zero s =>
    cases b with
    | infinity t => cases hbfinite
    | notANumber => cases hbfinite
    | zero t =>
      have hzero : number (.zero s) + number (.zero t) = 0 := add_zero 0
      rw [hzero, UnpackedFloat.add]
      split <;> exact ⟨rfl, trivial, (rounded_of_representable representable_zero).symm⟩
    | finite t m e hm =>
      rw [show number (.zero s) = 0 from rfl, zero_add]
      exact hb.rounds
  | finite s m e hm =>
    cases b with
    | infinity t => cases hbfinite
    | notANumber => cases hbfinite
    | zero t =>
      rw [show number (.zero t) = 0 from rfl, add_zero]
      exact ha.rounds
    | finite t n d hn =>
      -- both are brought to the smaller exponent
      have hsum : ((s.apply (decreaseExponent m e (min e d)).1 +
          t.apply (decreaseExponent n d (min e d)).1 : ℤ) : ℚ) * 2 ^ min e d =
            sgn s * (m * 2 ^ e) + sgn t * (n * 2 ^ d) := by
        obtain ⟨hm, -⟩ := decreaseExponent_spec m e (min e d)
        obtain ⟨hn, -⟩ := decreaseExponent_spec n d (min e d)
        rw [min_eq_right (min_le_left e d)] at hm
        rw [min_eq_right (min_le_right e d)] at hn
        rw [Int.cast_add, apply_eq, apply_eq, ← hm, ← hn]
        ring
      rw [number, number, ← hsum]
      exact normalize_spec _ _

theorem sub_eq_add (a b : UnpackedFloat) :
    UnpackedFloat.sub Format.binary32 a b = UnpackedFloat.add Format.binary32 a b.neg := by
  have happly : ∀ (n : ℤ) (t : Sign) (k : ℕ), n - t.apply k = n + (-t).apply k := by
    intro n t k
    cases t
    · exact sub_neg_eq_add n k
    · rfl
  cases a <;> cases b <;> try rfl
  simp only [UnpackedFloat.sub, UnpackedFloat.neg, UnpackedFloat.add, happly]

theorem rounds_zero (s : Sign) : Rounds (.zero s) 0 :=
  ⟨rfl, trivial, (rounded_of_representable representable_zero).symm⟩

theorem mul_spec (ha : Sound a) (hb : Sound b) :
    Rounds (UnpackedFloat.mul Format.binary32 a b) (number a * number b) := by
  obtain ⟨hafinite, haligned⟩ := ha
  obtain ⟨hbfinite, hbaligned⟩ := hb
  cases a with
  | infinity s => cases hafinite
  | notANumber => cases hafinite
  | zero s =>
    rw [show number (.zero s) = 0 from rfl, zero_mul]
    cases b with
    | infinity t => cases hbfinite
    | notANumber => cases hbfinite
    | _ => exact rounds_zero _
  | finite s m e hm =>
    cases b with
    | infinity t => cases hbfinite
    | notANumber => cases hbfinite
    | zero t =>
      rw [show number (.zero t) = 0 from rfl, mul_zero]
      exact rounds_zero _
    | finite t n d hn =>
      have hprod : sgn (s * t) * (((m * n : ℕ) : ℚ) * 2 ^ (e + d)) =
          number (.finite s m e hm) * number (.finite t n d hn) := by
        rw [sgn_mul, number, number, two_zpow_add]
        push_cast
        ring
      have hpos : (0 : ℚ) < (m * n : ℕ) := by exact_mod_cast Nat.mul_pos hm hn
      rw [← hprod]
      refine roundWithAccuracy_spec _ (truncates_exact _) hpos (le_lastPlace ?_)
      -- a mantissa with all its bits makes the product long enough; two others are tiny
      obtain ⟨-, he, hfull⟩ := haligned
      obtain ⟨-, hd, hfull'⟩ := hbaligned
      by_cases hlong : 2 ^ 23 ≤ m * n
      · left
        have hcast : (2 : ℚ) ^ (23 : ℤ) ≤ (m * n : ℕ) := by exact_mod_cast hlong
        rw [abs_of_pos (mul_pos hpos (two_zpow_pos _)), add_comm, two_zpow_add]
        exact mul_le_mul_of_nonneg_right hcast (two_zpow_pos _).le
      · right
        have hm' : ¬2 ^ 23 ≤ m := fun h => hlong (h.trans (Nat.le_mul_of_pos_right m hn))
        have hn' : ¬2 ^ 23 ≤ n := fun h => hlong (h.trans (Nat.le_mul_of_pos_left n hm))
        have := hfull.resolve_left hm'
        have := hfull'.resolve_left hn'
        omega

private theorem truncates_div (m : ℕ) {n : ℕ} (hn : 0 < n) :
    Truncates (.ofMantissaAndAccuracy (m / n) (accuracyOfFraction (m % n) n)) ((m : ℚ) / n) := by
  have hn' : (0 : ℚ) < n := by exact_mod_cast hn
  have hsub : (m : ℚ) / n - (m / n : ℕ) = (m % n : ℕ) / n := by
    have h : ((n * (m / n) + m % n : ℕ) : ℚ) = m := by exact_mod_cast Nat.div_add_mod m n
    push_cast at h
    field_simp
    linarith
  have hnonneg : (0 : ℚ) ≤ (m % n : ℕ) / n := by positivity
  have hlt : ((m % n : ℕ) : ℚ) / n < 1 := by
    rw [div_lt_one hn']
    exact_mod_cast Nat.mod_lt m hn
  have hhalf : (1 / 2 : ℚ) ≤ (m % n : ℕ) / n ↔ n ≤ 2 * (m % n) := by
    rw [div_le_div_iff₀ (by norm_num) hn']
    constructor <;> intro h
    · have h : (n : ℚ) ≤ 2 * (m % n : ℕ) := by linarith
      exact_mod_cast h
    · have h : (n : ℚ) ≤ 2 * (m % n : ℕ) := by exact_mod_cast h
      linarith
  have hequal : ((m % n : ℕ) : ℚ) / n = 1 / 2 ↔ 2 * (m % n) = n := by
    rw [div_eq_div_iff hn'.ne' (by norm_num)]
    constructor <;> intro h
    · have h : 2 * ((m % n : ℕ) : ℚ) = n := by linarith
      exact_mod_cast h
    · have h : 2 * ((m % n : ℕ) : ℚ) = n := by exact_mod_cast h
      linarith
  have hzero : ((m % n : ℕ) : ℚ) / n = 0 ↔ m % n = 0 := by
    rw [div_eq_zero_iff, or_iff_left hn'.ne']
    norm_cast
  have hmantissa : ∀ r t, r = decide (n ≤ 2 * (m % n)) →
      t = decide (m % n ≠ 0 ∧ 2 * (m % n) ≠ n) → Truncates ⟨m / n, r, t⟩ ((m : ℚ) / n) := by
    rintro r t rfl rfl
    constructor <;> simp only [hsub, decide_eq_true_eq]
    · exact hnonneg
    · exact hlt
    · exact hhalf.symm
    · rw [Ne, Ne, Ne, Ne, hzero, hequal]
  unfold accuracyOfFraction
  by_cases hrest : m % n = 0
  · rw [if_pos hrest]
    exact hmantissa _ _ (by simp [hrest]; omega) (by simp [hrest])
  · rw [if_neg hrest]
    rcases lt_trichotomy (2 * (m % n)) n with h | h | h
    · rw [compare_lt_iff_lt.2 h]
      exact hmantissa _ _ (by simp [h]) (by simp [hrest, h.ne])
    · rw [compare_eq_iff_eq.2 h]
      exact hmantissa _ _ (by simp [h]) (by simp [h])
    · rw [compare_gt_iff_gt.2 h]
      exact hmantissa _ _ (by simp [h.le]) (by simp [hrest, h.ne'])

/-- A quotient is given in units small enough to leave it all its bits. -/
theorem divCore_spec {m n : ℕ} (e d : ℤ) (hm : 0 < m) (hn : 0 < n) :
    ∃ m' e' acc x, divCore Format.binary32 m e n d = (m', e', acc) ∧
      Truncates (.ofMantissaAndAccuracy m' acc) x ∧ 0 < x ∧
      x * 2 ^ e' = m * 2 ^ e / (n * 2 ^ d) ∧ e' ≤ lastPlace (x * 2 ^ e') := by
  let target := Format.binary32.targetExponent (totalExponent m e - totalExponent n d)
  let e' := min (e - d) target
  let k := (e - d - e').toNat
  have hm' : (0 : ℚ) < m := by exact_mod_cast hm
  have hn' : (0 : ℚ) < n := by exact_mod_cast hn
  have hk : (k : ℤ) = e - d - e' := Int.toNat_of_nonneg (by omega)
  have hvalue : ((m <<< k : ℕ) : ℚ) / n * 2 ^ e' = m * 2 ^ e / (n * 2 ^ d) := by
    have hexp : e = k + e' + d := by omega
    have hd := (two_zpow_pos d).ne'
    rw [Nat.shiftLeft_eq, hexp, two_zpow_add, two_zpow_add, zpow_natCast]
    push_cast
    field_simp
  refine ⟨_, e', _, ((m <<< k : ℕ) : ℚ) / n, rfl, truncates_div _ hn, ?_, hvalue, ?_⟩
  · rw [Nat.shiftLeft_eq]
    positivity
  · have hlow : (2 : ℚ) ^ (m.log2 : ℤ) ≤ m := by exact_mod_cast Nat.log2_self_le hm.ne'
    have hhigh : (n : ℚ) ≤ 2 ^ ((n.log2 : ℤ) + 1) := by exact_mod_cast Nat.lt_log2_self.le
    have hleast : (2 : ℚ) ^ (totalExponent m e - totalExponent n d - 24 + 23) ≤
        m * 2 ^ e / (n * 2 ^ d) := by
      have hn_pos := mul_pos hn' (two_zpow_pos d)
      have hexp : totalExponent m e - totalExponent n d - 24 + 23 + (n.log2 + 1 + d) =
          m.log2 + e := by
        unfold totalExponent
        omega
      rw [le_div_iff₀ hn_pos]
      calc (2 : ℚ) ^ (totalExponent m e - totalExponent n d - 24 + 23) * (n * 2 ^ d)
          ≤ 2 ^ (totalExponent m e - totalExponent n d - 24 + 23) *
              (2 ^ ((n.log2 : ℤ) + 1) * 2 ^ d) := by gcongr
        _ = 2 ^ (m.log2 : ℤ) * 2 ^ e := by
          rw [← two_zpow_add, ← two_zpow_add, hexp, two_zpow_add]
        _ ≤ m * 2 ^ e := by gcongr
    rw [hvalue]
    refine (min_le_right _ _).trans (max_le (le_lastPlace (.inl ?_)) (neg_149_le_lastPlace _))
    rwa [abs_of_pos (by positivity)]

theorem div_spec (ha : Sound a) (hb : Sound b) (hne : number b ≠ 0) :
    Rounds (UnpackedFloat.div Format.binary32 a b) (number a / number b) := by
  obtain ⟨hafinite, -⟩ := ha
  obtain ⟨hbfinite, -⟩ := hb
  cases b with
  | infinity t => cases hbfinite
  | notANumber => cases hbfinite
  | zero t => exact absurd rfl hne
  | finite t n d hn =>
    cases a with
    | infinity s => cases hafinite
    | notANumber => cases hafinite
    | zero s =>
      rw [show number (.zero s) = 0 from rfl, zero_div]
      exact rounds_zero _
    | finite s m e hm =>
      obtain ⟨m', e', acc, x, hcore, htruncates, hpos, hvalue, hplace⟩ := divCore_spec e d hm hn
      have hquotient : sgn (s / t) * (x * 2 ^ e') =
          number (.finite s m e hm) / number (.finite t n d hn) := by
        rw [hvalue, sgn_div, number, number]
        exact (mul_div_mul_comm _ _ _ _).symm
      rw [UnpackedFloat.div, hcore, ← hquotient]
      exact roundWithAccuracy_spec _ htruncates hpos hplace

end Operations

/-! ### Order -/

section Order
variable {a b : UnpackedFloat}

/-- Of two aligned numbers the one with the greater exponent is the greater. -/
theorem lt_of_exponent_lt {m n : ℕ} {e d : ℤ} (hlt : e < d) (hm : m < 2 ^ 24)
    (hn : 2 ^ 23 ≤ n) : (m : ℚ) * 2 ^ e < n * 2 ^ d := by
  have hm' : (m : ℚ) < 2 ^ (24 : ℤ) := by exact_mod_cast hm
  have hn' : (2 : ℚ) ^ (23 : ℤ) ≤ n := by exact_mod_cast hn
  calc (m : ℚ) * 2 ^ e < 2 ^ (24 : ℤ) * 2 ^ e := mul_lt_mul_of_pos_right hm' (two_zpow_pos e)
    _ = 2 ^ (24 + e) := (two_zpow_add _ _).symm
    _ ≤ 2 ^ (23 + d) := two_zpow_le (by omega)
    _ = 2 ^ (23 : ℤ) * 2 ^ d := two_zpow_add _ _
    _ ≤ n * 2 ^ d := mul_le_mul_of_nonneg_right hn' (two_zpow_pos d).le

/-- Comparing first the exponents and then the mantissas compares the numbers. -/
theorem compare_exponents {m n : ℕ} {e d : ℤ} (hm : m < 2 ^ 24) (hn : n < 2 ^ 24)
    (he : -149 ≤ e) (hd : -149 ≤ d) (hfull : 2 ^ 23 ≤ m ∨ e = -149)
    (hfull' : 2 ^ 23 ≤ n ∨ d = -149) :
    (compare e d).then (compare m n) = compare ((m : ℚ) * 2 ^ e) (n * 2 ^ d) := by
  rcases lt_trichotomy e d with h | rfl | h
  · have hlt := lt_of_exponent_lt h hm (hfull'.resolve_right (by omega))
    rw [compare_lt_iff_lt.2 h, compare_lt_iff_lt.2 hlt]
    rfl
  · have hscale : compare ((m : ℚ) * 2 ^ e) (n * 2 ^ e) = compare m n := by
      rcases lt_trichotomy m n with h | rfl | h
      · rw [compare_lt_iff_lt.2 h, compare_lt_iff_lt]
        exact mul_lt_mul_of_pos_right (by exact_mod_cast h) (two_zpow_pos e)
      · rw [compare_eq_iff_eq.2 rfl, eq_comm, compare_eq_iff_eq]
      · rw [compare_gt_iff_gt.2 h, compare_gt_iff_gt]
        exact mul_lt_mul_of_pos_right (by exact_mod_cast h) (two_zpow_pos e)
    rw [compare_eq_iff_eq.2 rfl, hscale]
    rfl
  · have hgt := lt_of_exponent_lt h hn (hfull.resolve_right (by omega))
    rw [compare_gt_iff_gt.2 h, compare_gt_iff_gt.2 hgt]
    rfl

theorem number_positive {m : ℕ} {e : ℤ} (hm : 0 < m) :
    number (.finite .positive m e hm) = m * 2 ^ e := one_mul _

theorem number_negative {m : ℕ} {e : ℤ} (hm : 0 < m) :
    number (.finite .negative m e hm) = -(m * 2 ^ e) := neg_one_mul _

private theorem swap_compare (x y : ℚ) : (compare x y).swap = compare (-x) (-y) := by
  rcases lt_trichotomy x y with h | rfl | h
  · rw [compare_lt_iff_lt.2 h, compare_gt_iff_gt.2 (neg_lt_neg h)]
    rfl
  · rw [compare_eq_iff_eq.2 rfl, compare_eq_iff_eq.2 rfl]
    rfl
  · rw [compare_gt_iff_gt.2 h, compare_lt_iff_lt.2 (neg_lt_neg h)]
    rfl

theorem compare_spec (ha : Sound a) (hb : Sound b) :
    UnpackedFloat.compare a b = some (compare (number a) (number b)) := by
  obtain ⟨hafinite, haligned⟩ := ha
  obtain ⟨hbfinite, hbaligned⟩ := hb
  have hpositive : ∀ {m e} (hm : 0 < m), 0 < number (.finite .positive m e hm) := by
    intro m e hm
    rw [number_positive]
    exact mul_pos (by exact_mod_cast hm) (two_zpow_pos e)
  have hnegative : ∀ {m e} (hm : 0 < m), number (.finite .negative m e hm) < 0 := by
    intro m e hm
    rw [number_negative, neg_lt_zero]
    exact mul_pos (by exact_mod_cast hm) (two_zpow_pos e)
  cases a with
  | infinity s => cases hafinite
  | notANumber => cases hafinite
  | zero s =>
    cases b with
    | infinity t => cases hbfinite
    | notANumber => cases hbfinite
    | zero t => exact congrArg some (compare_eq_iff_eq.2 rfl).symm
    | finite t n d hn =>
      cases t with
      | positive => exact congrArg some (compare_lt_iff_lt.2 (hpositive hn)).symm
      | negative => exact congrArg some (compare_gt_iff_gt.2 (hnegative hn)).symm
  | finite s m e hm =>
    cases b with
    | infinity t => cases hbfinite
    | notANumber => cases hbfinite
    | zero t =>
      cases s with
      | positive => exact congrArg some (compare_gt_iff_gt.2 (hpositive hm)).symm
      | negative => exact congrArg some (compare_lt_iff_lt.2 (hnegative hm)).symm
    | finite t n d hn =>
      obtain ⟨hmlt, he, hmfull⟩ := haligned
      obtain ⟨hnlt, hd, hnfull⟩ := hbaligned
      have hcompare := compare_exponents hmlt hnlt he hd hmfull hnfull
      cases s with
      | positive =>
        cases t with
        | positive =>
          rw [number_positive, number_positive, ← hcompare]
          rfl
        | negative =>
          exact congrArg some (compare_gt_iff_gt.2 ((hnegative hn).trans (hpositive hm))).symm
      | negative =>
        cases t with
        | positive =>
          exact congrArg some (compare_lt_iff_lt.2 ((hnegative hm).trans (hpositive hn))).symm
        | negative =>
          rw [number_negative, number_negative, ← swap_compare, ← hcompare]
          rfl

end Order

/-! ### Packing -/

section Packing
variable {a : UnpackedFloat} {q : ℚ} {s : Sign} {m : ℕ} {e : ℤ} {hm : 0 < m}

/-- Whether a number is packed without overflow. -/
def Fits : UnpackedFloat → Prop
  | .finite s m e hm => Aligned (.finite s m e hm) ∧ e ≤ 104
  | _ => True

/-- What is smaller than the first power of two that is out of range fits. -/
theorem Rounds.fits (h : Rounds a q) (hq : |rounded q| < 2 ^ (128 : ℤ)) : Fits a := by
  obtain ⟨-, haligned, hnumber⟩ := h
  cases a with
  | finite s m e hm =>
    refine ⟨haligned, ?_⟩
    obtain ⟨-, -, hfull⟩ := haligned
    rw [← hnumber, number, abs_mul, abs_of_pos (mul_pos (by exact_mod_cast hm) (two_zpow_pos e)),
      show |sgn s| = 1 by cases s <;> norm_num [sgn], one_mul] at hq
    by_contra he
    have hm' : (2 : ℚ) ^ (23 : ℤ) ≤ m := by exact_mod_cast hfull.resolve_right (by omega)
    refine hq.not_ge ?_
    calc (2 : ℚ) ^ (128 : ℤ) ≤ 2 ^ (23 + e) := two_zpow_le (by omega)
      _ = 2 ^ (23 : ℤ) * 2 ^ e := two_zpow_add _ _
      _ ≤ m * 2 ^ e := mul_le_mul_of_nonneg_right hm' (two_zpow_pos e).le
  | _ => trivial

/-- The leading bit that a packed mantissa leaves out. -/
theorem toNat_one_append (m : BitVec 23) : (1#1 ++ m).toNat = 2 ^ 23 + m.toNat := by
  rw [BitVec.toNat_append, BitVec.toNat_ofNat, Nat.one_mod, Nat.one_shiftLeft, Nat.or_comm,
    Nat.or_two_pow_eq_add_of_lt m.isLt, Nat.add_comm]

theorem log2_add_one_eq_iff (hlt : m < 2 ^ 24) :
    m.log2 + 1 = Format.binary32.mantissaBits ↔ 2 ^ 23 ≤ m := by
  rw [show Format.binary32.mantissaBits = 24 from rfl]
  by_cases hm : m = 0
  · simp [hm]
  · have hupper : m.log2 < 24 := (Nat.log2_lt hm).2 hlt
    rw [← Nat.le_log2 hm]
    omega

private theorem unpack_normal (hlt : m < 2 ^ 24) (hfull : 2 ^ 23 ≤ m) (he : -149 ≤ e)
    (hmax : e ≤ 104) : UnpackedFloat.unpack Format.binary32 (packComponents Format.binary32 s
      (BitVec.ofNat 8 (e + (Format.binary32.exponentBias : ℤ) + (23 : ℕ)).toNat)
      (BitVec.ofNat 23 m)) = .finite s m e hm := by
  have hbias : (Format.binary32.exponentBias : ℤ) = 127 := rfl
  have hmantissa : (1#1 ++ BitVec.ofNat 23 m).toNat = m := by
    rw [toNat_one_append, BitVec.toNat_ofNat]
    omega
  have hexponent : (BitVec.ofNat 8 (e + 127 + (23 : ℕ)).toNat).toNat = (e + 150).toNat := by
    rw [BitVec.toNat_ofNat]
    omega
  have hzero : BitVec.ofNat 8 (e + 127 + (23 : ℕ)).toNat ≠ 0#8 := by
    rw [Ne, ← BitVec.toNat_inj, hexponent, BitVec.toNat_ofNat]
    omega
  have hones : BitVec.ofNat 8 (e + 127 + (23 : ℕ)).toNat ≠ -1#8 := by
    rw [Ne, ← BitVec.toNat_inj, hexponent, show (-1#8).toNat = 255 from rfl]
    omega
  simp only [UnpackedFloat.unpack, unpackSign_packComponents, Sign.ofBitVec_toBitVec,
    unpackMantissa_packComponents, unpackExponent_packComponents, hbias, hones, hzero, ↓reduceIte,
    hmantissa, hexponent]
  congr 1
  omega

private theorem unpack_subnormal (hlt : m < 2 ^ 23) :
    UnpackedFloat.unpack Format.binary32 (packComponents Format.binary32 s 0#8
      (BitVec.ofNat 23 m)) = .finite s m (-149) hm := by
  have hmantissa : (BitVec.ofNat 23 m).toNat = m := by
    rw [BitVec.toNat_ofNat]
    omega
  have hne : BitVec.ofNat 23 m ≠ 0#23 := by
    rw [Ne, ← BitVec.toNat_inj, hmantissa, BitVec.toNat_ofNat]
    omega
  have hones : 0#8 ≠ -1#8 := by decide
  simp only [UnpackedFloat.unpack, unpackSign_packComponents, Sign.ofBitVec_toBitVec,
    unpackMantissa_packComponents, unpackExponent_packComponents, hones, hne, ↓reduceIte,
    ↓reduceDIte, hmantissa]
  rfl

/-- What fits is unpacked as it was packed. -/
theorem unpack_pack (h : Fits a) :
    UnpackedFloat.unpack Format.binary32 (UnpackedFloat.pack Format.binary32 a) = a := by
  cases a with
  | infinity s =>
    cases s <;> rfl
  | notANumber =>
    rfl
  | zero s =>
    cases s <;> rfl
  | finite s m e hm =>
    obtain ⟨⟨hlt, he, hfull⟩, hmax⟩ := h
    have hbias : (Format.binary32.exponentBias : ℤ) = 127 := rfl
    have hsmall : ¬2 ^ 8 ≤ (e + (Format.binary32.exponentBias : ℤ) + (23 : ℕ)).toNat + 1 := by
      omega
    unfold UnpackedFloat.pack
    simp only [hsmall, ↓reduceIte]
    by_cases hnormal : 2 ^ 23 ≤ m
    · rw [if_pos ((log2_add_one_eq_iff hlt).2 hnormal)]
      exact unpack_normal hlt hnormal he hmax
    · rw [if_neg (mt (log2_add_one_eq_iff hlt).1 hnormal)]
      obtain rfl := hfull.resolve_left hnormal
      exact unpack_subnormal (not_le.1 hnormal)

theorem fits_unpack (b : BitVec 32) : Fits (UnpackedFloat.unpack Format.binary32 b) := by
  have hbias : (Format.binary32.exponentBias : ℤ) = 127 := rfl
  have hmantissa : (@unpackMantissa .binary32 b).toNat < 2 ^ 23 := BitVec.isLt _
  have hexponent : (@unpackExponent .binary32 b).toNat < 2 ^ 8 := BitVec.isLt _
  unfold UnpackedFloat.unpack
  simp only
  split
  · split <;> trivial
  · next hones =>
    have hones : (@unpackExponent .binary32 b).toNat ≠ 255 := fun h =>
      hones (BitVec.eq_of_toNat_eq h)
    split
    · next hzero =>
      split
      · trivial
      · have hexp : (@unpackExponent .binary32 b).toNat = 0 := by rw [hzero]; rfl
        exact ⟨⟨by omega, by omega, .inr (by omega)⟩, by omega⟩
    · next hzero =>
      have hzero : (@unpackExponent .binary32 b).toNat ≠ 0 := fun h =>
        hzero (BitVec.eq_of_toNat_eq h)
      refine ⟨⟨(toNat_one_append _).trans_lt (by omega), by omega, .inl ?_⟩, by omega⟩
      exact (Nat.le_add_right _ _).trans_eq (toNat_one_append _).symm

theorem Fits.aligned (h : Fits a) : Aligned a := by
  cases a with
  | finite s m e hm => exact h.1
  | _ => trivial

theorem Fits.neg (h : Fits a) : Fits a.neg := by
  cases a <;> exact h

end Packing

end Parterre.Binary32
