import Mathlib.Algebra.Order.Field.Power
import Mathlib.Algebra.Order.Floor.Ring
import Mathlib.Data.Int.Log
import Mathlib.Data.Rat.Floor
import Mathlib.Tactic.FieldSimp
import Mathlib.Tactic.Linarith
import Mathlib.Tactic.NormNum
import Mathlib.Tactic.Positivity
import Mathlib.Tactic.Ring

/-! # The nearest binary32 number

A rational number that has a mantissa of at most 24 bits and an exponent of at least `-149` is
representable.  Every rational number is rounded to the nearest of them, a tie to the one with the
even mantissa; that the exponents of binary32 numbers are bounded above as well is left out here. -/
namespace Parterre.Binary32

/-! ### Whole numbers -/

/-- The whole number nearest to `x`; of two the even one. -/
def nearestEven (x : ℚ) : ℤ :=
  if Int.fract x < 1 / 2 then ⌊x⌋
  else if 1 / 2 < Int.fract x then ⌊x⌋ + 1
  else ⌊x⌋ + ⌊x⌋ % 2

theorem abs_nearestEven_sub_le (x : ℚ) : |(nearestEven x : ℚ) - x| ≤ 1 / 2 := by
  have hfloor := Int.floor_add_fract x
  have hnonneg := Int.fract_nonneg x
  have hlt := Int.fract_lt_one x
  rw [abs_le]
  unfold nearestEven
  split
  · constructor <;> linarith
  · split
    · push_cast
      constructor <;> linarith
    · -- at a tie both neighbours are half a unit away
      have hhalf : Int.fract x = 1 / 2 := by linarith
      rcases Int.emod_two_eq_zero_or_one ⌊x⌋ with h | h <;> rw [h] <;> push_cast <;>
        constructor <;> linarith

theorem abs_nearestEven_sub_le_abs (x : ℚ) (n : ℤ) : |(nearestEven x : ℚ) - x| ≤ |(n : ℚ) - x| := by
  by_cases hn : n = nearestEven x
  · rw [hn]
  · have hgap : (1 : ℚ) ≤ |(n : ℚ) - nearestEven x| := by
      exact_mod_cast Int.one_le_abs (sub_ne_zero.2 hn)
    have htriangle := abs_sub_le (n : ℚ) x (nearestEven x)
    have hhalf := abs_nearestEven_sub_le x
    rw [abs_sub_comm x] at htriangle
    linarith

@[simp] theorem nearestEven_intCast (n : ℤ) : nearestEven n = n := by
  rw [nearestEven, Int.fract_intCast, if_pos (by norm_num), Int.floor_intCast]

@[simp] theorem nearestEven_neg (x : ℚ) : nearestEven (-x) = -nearestEven x := by
  by_cases hx : Int.fract x = 0
  · obtain ⟨n, rfl⟩ : ∃ n : ℤ, (n : ℚ) = x := ⟨⌊x⌋, by linarith [Int.floor_add_fract x]⟩
    rw [← Int.cast_neg, nearestEven_intCast, nearestEven_intCast]
  · have hfract := Int.fract_neg hx
    have hfloor : ⌊-x⌋ = -⌊x⌋ - 1 := by
      have h : ((⌊-x⌋ : ℤ) : ℚ) = -⌊x⌋ - 1 := by
        linarith [Int.floor_add_fract x, Int.floor_add_fract (-x)]
      exact_mod_cast h
    unfold nearestEven
    rw [hfract, hfloor]
    rcases lt_trichotomy (Int.fract x) (1 / 2) with h | h | h
    · rw [if_neg (by linarith), if_pos (by linarith), if_pos h]
      ring
    · rw [if_neg (by linarith), if_neg (by linarith), if_neg (by linarith), if_neg (by linarith)]
      omega
    · rw [if_pos (by linarith), if_neg (by linarith), if_pos h]
      ring

/-! ### Representable numbers -/

/-- Whether a number has a mantissa of at most 24 bits and an exponent of at least `-149`. -/
def Representable (v : ℚ) : Prop :=
  ∃ (m : ℤ) (e : ℤ), |m| ≤ 2 ^ 24 ∧ -149 ≤ e ∧ v = m * 2 ^ e

/-- The exponent of the last place of the representable numbers near `q`. -/
def lastPlace (q : ℚ) : ℤ := max (Int.log 2 |q| - 23) (-149)

/-- The representable number nearest to `q`; of two the one with the even mantissa. -/
def rounded (q : ℚ) : ℚ := nearestEven (q / 2 ^ lastPlace q) * 2 ^ lastPlace q

section Representable
variable {q q' v w : ℚ} {k : ℤ}

theorem two_zpow_pos (e : ℤ) : (0 : ℚ) < 2 ^ e := zpow_pos (by norm_num) e

theorem two_zpow_le {d e : ℤ} (h : d ≤ e) : (2 : ℚ) ^ d ≤ 2 ^ e :=
  zpow_le_zpow_right₀ (by norm_num) h

theorem two_zpow_add (d e : ℤ) : (2 : ℚ) ^ (d + e) = 2 ^ d * 2 ^ e := zpow_add₀ (by norm_num) d e

theorem representable_two_zpow (h : -149 ≤ k) : Representable (2 ^ k) :=
  ⟨1, k, by norm_num, h, by simp⟩

theorem representable_intCast {n : ℤ} (h : |n| ≤ 2 ^ 24) : Representable n :=
  ⟨n, 0, h, by norm_num, by simp⟩

theorem representable_zero : Representable 0 := ⟨0, 0, by norm_num, by norm_num, by simp⟩

theorem representable_one : Representable 1 := ⟨1, 0, by norm_num, by norm_num, by simp⟩

theorem Representable.neg (h : Representable v) : Representable (-v) := by
  obtain ⟨m, e, hm, he, rfl⟩ := h
  exact ⟨-m, e, by rwa [abs_neg], he, by push_cast; ring⟩

theorem neg_149_le_lastPlace (q : ℚ) : -149 ≤ lastPlace q := le_max_right _ _

@[simp] theorem lastPlace_neg (q : ℚ) : lastPlace (-q) = lastPlace q := by
  rw [lastPlace, abs_neg, lastPlace]

theorem abs_lt_lastPlace (q : ℚ) : |q| < 2 ^ (lastPlace q + 24) := by
  have hlog : |q| < 2 ^ (Int.log 2 |q| + 1) := Int.lt_zpow_succ_log_self (by norm_num) |q|
  refine hlog.trans_le (two_zpow_le ?_)
  have := le_max_left (Int.log 2 |q| - 23) (-149)
  unfold lastPlace
  omega

/-- Above the smallest exponent a mantissa takes all 24 bits. -/
theorem two_zpow_le_abs (hq : q ≠ 0) (h : -149 < lastPlace q) : 2 ^ (lastPlace q + 23) ≤ |q| := by
  have hplace : lastPlace q + 23 = Int.log 2 |q| := by
    unfold lastPlace at h ⊢
    omega
  rw [hplace]
  exact Int.zpow_log_le_self (by norm_num) (abs_pos.2 hq)

theorem log_eq (hlow : 2 ^ k ≤ q) (hhigh : q < 2 ^ (k + 1)) : Int.log 2 q = k := by
  have hpos : 0 < q := (two_zpow_pos k).trans_le hlow
  have hlt : Int.log 2 q < k + 1 := (Int.lt_zpow_iff_log_lt (by norm_num) hpos).1 hhigh
  have hle : k ≤ Int.log 2 q := (Int.zpow_le_iff_le_log (by norm_num) hpos).1 hlow
  omega

theorem lastPlace_le (h : |q| < 2 ^ k) (hq : q ≠ 0) (hk : -125 ≤ k) : lastPlace q ≤ k - 24 := by
  have hlog : Int.log 2 |q| < k := (Int.lt_zpow_iff_log_lt (by norm_num) (abs_pos.2 hq)).1 h
  unfold lastPlace
  omega

theorem le_lastPlace (h : 2 ^ (k + 23) ≤ |q| ∨ k ≤ -149) : k ≤ lastPlace q := by
  rcases h with h | h
  · have hpos : 0 < |q| := (two_zpow_pos _).trans_le h
    have hlog : k + 23 ≤ Int.log 2 |q| := (Int.zpow_le_iff_le_log (by norm_num) hpos).1 h
    exact le_max_of_le_left (by omega)
  · exact le_max_of_le_right h

/-! ### Rounding -/

@[simp] theorem rounded_neg (q : ℚ) : rounded (-q) = -rounded q := by
  rw [rounded, lastPlace_neg, neg_div, nearestEven_neg, rounded]
  push_cast
  ring

theorem abs_nearestEven_le (q : ℚ) : |nearestEven (q / 2 ^ lastPlace q)| ≤ 2 ^ 24 := by
  have hbound : |q / 2 ^ lastPlace q| < 2 ^ 24 := by
    rw [abs_div, abs_of_pos (two_zpow_pos _), div_lt_iff₀ (two_zpow_pos _)]
    have h := abs_lt_lastPlace q
    rw [two_zpow_add] at h
    norm_num at h ⊢
    linarith
  have hnear := abs_nearestEven_sub_le (q / 2 ^ lastPlace q)
  have hle : |(nearestEven (q / 2 ^ lastPlace q) : ℚ)| < 2 ^ 24 + 1 := by
    have htriangle := abs_sub_abs_le_abs_sub (nearestEven (q / 2 ^ lastPlace q) : ℚ)
      (q / 2 ^ lastPlace q)
    linarith
  have hlt : |nearestEven (q / 2 ^ lastPlace q)| < 2 ^ 24 + 1 := by exact_mod_cast hle
  exact Int.lt_add_one_iff.1 hlt

theorem le_nearestEven (hq : 0 < q) (h : -149 < lastPlace q) :
    2 ^ 23 ≤ nearestEven (q / 2 ^ lastPlace q) := by
  have hfull : (2 : ℚ) ^ 23 ≤ q / 2 ^ lastPlace q := by
    have hpower := two_zpow_le_abs hq.ne' h
    rw [abs_of_pos hq, two_zpow_add, mul_comm] at hpower
    rw [le_div_iff₀ (two_zpow_pos _)]
    exact_mod_cast hpower
  obtain ⟨hlow, -⟩ := abs_le.1 (abs_nearestEven_sub_le (q / 2 ^ lastPlace q))
  have hlt : (2 : ℚ) ^ 23 - 1 < nearestEven (q / 2 ^ lastPlace q) := by linarith
  have hlt : (2 : ℤ) ^ 23 - 1 < nearestEven (q / 2 ^ lastPlace q) := by exact_mod_cast hlt
  omega

theorem representable_rounded (q : ℚ) : Representable (rounded q) :=
  ⟨_, _, abs_nearestEven_le q, neg_149_le_lastPlace q, rfl⟩

theorem abs_rounded_sub_le_abs_of_multiple (q : ℚ) (n : ℤ) :
    |rounded q - q| ≤ |n * 2 ^ lastPlace q - q| := by
  have hne : (2 : ℚ) ^ lastPlace q ≠ 0 := (two_zpow_pos _).ne'
  have hscaled : ∀ m : ℤ, m * 2 ^ lastPlace q - q =
      (m - q / 2 ^ lastPlace q) * 2 ^ lastPlace q := by
    intro m
    field_simp
  rw [rounded, hscaled, hscaled, abs_mul, abs_mul]
  exact mul_le_mul_of_nonneg_right (abs_nearestEven_sub_le_abs _ n) (abs_nonneg _)

/-- A representable number is a multiple of the last place, or at most as large as all that have the
last place of `q`. -/
theorem Representable.multiple_or_le (h : Representable v) (q : ℚ) :
    (∃ n : ℤ, v = n * 2 ^ lastPlace q) ∨
      -149 < lastPlace q ∧ |v| ≤ 2 ^ (lastPlace q + 23) := by
  obtain ⟨m, e, hm, he, rfl⟩ := h
  rcases le_or_gt (lastPlace q) e with hle | hlt
  · refine .inl ⟨m * 2 ^ (e - lastPlace q).toNat, ?_⟩
    have hexp : ((e - lastPlace q).toNat : ℤ) = e - lastPlace q := Int.toNat_of_nonneg (by omega)
    push_cast
    rw [← zpow_natCast, hexp, mul_assoc, ← two_zpow_add, sub_add_cancel]
  · refine .inr ⟨by omega, ?_⟩
    have hm' : |(m : ℚ)| ≤ 2 ^ (24 : ℤ) := by exact_mod_cast hm
    rw [abs_mul, abs_of_pos (two_zpow_pos e)]
    calc |(m : ℚ)| * 2 ^ e ≤ 2 ^ (24 : ℤ) * 2 ^ e :=
          mul_le_mul_of_nonneg_right hm' (two_zpow_pos e).le
      _ = 2 ^ (24 + e) := (two_zpow_add _ _).symm
      _ ≤ 2 ^ (lastPlace q + 23) := two_zpow_le (by omega)

/-- No representable number is nearer. -/
theorem abs_rounded_sub_le_abs (h : Representable v) (q : ℚ) : |rounded q - q| ≤ |v - q| := by
  rcases h.multiple_or_le q with ⟨n, rfl⟩ | ⟨hplace, hv⟩
  · exact abs_rounded_sub_le_abs_of_multiple q n
  by_cases hq : q = 0
  · rw [hq]
    exact (abs_rounded_sub_le_abs_of_multiple 0 0).trans (by simp)
  -- the power of two that is next to `q` towards zero is a multiple, and lies between `v` and `q`
  have hpower := two_zpow_le_abs hq hplace
  have hcast : ((2 ^ 23 : ℤ) : ℚ) * 2 ^ lastPlace q = 2 ^ (lastPlace q + 23) := by
    rw [two_zpow_add]
    norm_num
    ring
  have hbelow := abs_rounded_sub_le_abs_of_multiple q (2 ^ 23)
  have habove := abs_rounded_sub_le_abs_of_multiple q (-2 ^ 23)
  rw [Int.cast_neg, neg_mul, hcast] at habove
  rw [hcast] at hbelow
  obtain ⟨hlow, hhigh⟩ := abs_le.1 hv
  rcases le_or_gt 0 q with hpos | hneg
  · rw [abs_of_nonneg hpos] at hpower
    refine hbelow.trans ?_
    rw [abs_of_nonpos (by linarith), abs_of_nonpos (by linarith)]
    linarith
  · rw [abs_of_neg hneg] at hpower
    refine habove.trans ?_
    rw [abs_of_nonneg (by linarith), abs_of_nonneg (by linarith)]
    linarith

theorem rounded_of_representable (h : Representable v) : rounded v = v := by
  have hzero := abs_rounded_sub_le_abs h v
  rw [sub_self, abs_zero] at hzero
  exact sub_eq_zero.1 (abs_nonpos_iff.1 hzero)

/-- The larger of two numbers is at least as near to all from their middle on. -/
theorem add_le_two_mul_of_abs_le (hvw : v < w) (h : |w - q| ≤ |v - q|) : v + w ≤ 2 * q := by
  have hsq := sq_le_sq.2 h
  have hprod : 0 ≤ (w - v) * (2 * q - (v + w)) := by linarith
  linarith [nonneg_of_mul_nonneg_right hprod (sub_pos.2 hvw)]

theorem rounded_mono (h : q ≤ q') : rounded q ≤ rounded q' := by
  by_contra hlt
  have hlt := not_le.1 hlt
  have hnear := abs_rounded_sub_le_abs (representable_rounded q') q
  have hnear' := abs_rounded_sub_le_abs (representable_rounded q) q'
  have hmiddle := add_le_two_mul_of_abs_le hlt hnear
  -- the mirror image tells that `q'` is not above the middle
  have hmiddle' : -rounded q + -rounded q' ≤ 2 * -q' := by
    have hflip : ∀ a b : ℚ, |-a - -b| = |a - b| := fun a b => by rw [neg_sub_neg, abs_sub_comm]
    exact add_le_two_mul_of_abs_le (neg_lt_neg hlt) (by rwa [hflip, hflip])
  obtain rfl : q = q' := le_antisymm h (by linarith)
  exact lt_irrefl _ hlt

theorem rounded_le (hv : Representable v) (h : q ≤ v) : rounded q ≤ v :=
  (rounded_mono h).trans_eq (rounded_of_representable hv)

theorem le_rounded (hv : Representable v) (h : v ≤ q) : v ≤ rounded q :=
  (rounded_of_representable hv).symm.trans_le (rounded_mono h)

theorem lt_of_rounded_lt (hv : Representable v) (h : rounded q < v) : q < v :=
  not_le.1 fun hle => h.not_ge (le_rounded hv hle)

theorem lt_of_lt_rounded (hv : Representable v) (h : v < rounded q) : v < q :=
  not_le.1 fun hle => h.not_ge (rounded_le hv hle)

theorem abs_rounded_le (hv : Representable v) (h : |q| ≤ v) : |rounded q| ≤ v := by
  obtain ⟨hlow, hhigh⟩ := abs_le.1 h
  exact abs_le.2 ⟨le_rounded hv.neg hlow, rounded_le hv hhigh⟩

/-- Rounding moves a number by at most half of its last place. -/
theorem abs_rounded_sub_le_lastPlace (q : ℚ) : |rounded q - q| ≤ 2 ^ (lastPlace q - 1) := by
  have hne : (2 : ℚ) ^ lastPlace q ≠ 0 := (two_zpow_pos _).ne'
  have hscaled : rounded q - q =
      (nearestEven (q / 2 ^ lastPlace q) - q / 2 ^ lastPlace q) * 2 ^ lastPlace q := by
    rw [rounded]
    field_simp
  rw [hscaled, abs_mul, abs_of_pos (two_zpow_pos _)]
  calc |(nearestEven (q / 2 ^ lastPlace q) : ℚ) - q / 2 ^ lastPlace q| * 2 ^ lastPlace q
      ≤ 1 / 2 * 2 ^ lastPlace q :=
        mul_le_mul_of_nonneg_right (abs_nearestEven_sub_le _) (two_zpow_pos _).le
    _ = 2 ^ (lastPlace q - 1) := by rw [sub_eq_add_neg, two_zpow_add]; norm_num; ring

/-- The error among the numbers up to a power of two. -/
theorem abs_rounded_sub_le (h : |q| ≤ 2 ^ k) (hk : -125 ≤ k) :
    |rounded q - q| ≤ 2 ^ (k - 25) := by
  have hpos := (two_zpow_pos (k - 25)).le
  by_cases hq : q = 0
  · rw [hq, rounded_of_representable representable_zero, sub_zero, abs_zero]
    exact hpos
  rcases h.eq_or_lt with heq | hlt
  · -- a power of two is not moved at all
    have hexact : Representable q := by
      rcases abs_choice q with hsign | hsign
      · rw [← hsign, heq]
        exact representable_two_zpow (by omega)
      · rw [← neg_neg q, ← hsign, heq]
        exact (representable_two_zpow (by omega)).neg
    rw [rounded_of_representable hexact, sub_self, abs_zero]
    exact hpos
  · refine (abs_rounded_sub_le_lastPlace q).trans (two_zpow_le ?_)
    have := lastPlace_le hlt hq hk
    omega

/-- The error in proportion to the number. -/
theorem abs_rounded_sub_le_mul (q : ℚ) :
    |rounded q - q| ≤ |q| * 2 ^ (-24 : ℤ) + 2 ^ (-150 : ℤ) := by
  have hproportion : 0 ≤ |q| * 2 ^ (-24 : ℤ) := mul_nonneg (abs_nonneg q) (two_zpow_pos _).le
  by_cases hq : q = 0
  · rw [hq, rounded_of_representable representable_zero, sub_zero, abs_zero, zero_mul, zero_add]
    exact (two_zpow_pos _).le
  refine (abs_rounded_sub_le_lastPlace q).trans ?_
  rcases (neg_149_le_lastPlace q).eq_or_lt with heq | hlt
  · rw [← heq]
    exact le_add_of_nonneg_left hproportion
  · have hsplit : lastPlace q - 1 = lastPlace q + 23 + -24 := by ring
    rw [hsplit, two_zpow_add]
    have hpower := mul_le_mul_of_nonneg_right (two_zpow_le_abs hq hlt) (two_zpow_pos (-24)).le
    linarith [two_zpow_pos (-150)]

theorem Representable.two_mul (h : Representable v) : Representable (2 * v) := by
  obtain ⟨m, e, hm, he, rfl⟩ := h
  exact ⟨m, e + 1, hm, by omega, by rw [two_zpow_add, zpow_one]; ring⟩

/-- What is rounded up goes no farther than what is as far off as a number below. -/
theorem rounded_le_two_mul_sub (hv : Representable v) (h : v ≤ q) : rounded q ≤ 2 * q - v := by
  have hnear := (le_abs_self _).trans (abs_rounded_sub_le_abs hv q)
  rw [abs_of_nonpos (sub_nonpos.2 h)] at hnear
  linarith

/-! ### Multiples -/

theorem Representable.exists_multiple (h : Representable v) : ∃ n : ℤ, v = n * 2 ^ (-149 : ℤ) := by
  obtain ⟨m, e, -, he, rfl⟩ := h
  refine ⟨m * 2 ^ (e + 149).toNat, ?_⟩
  have hexp : ((e + 149).toNat : ℤ) = e + 149 := Int.toNat_of_nonneg (by omega)
  push_cast
  rw [← zpow_natCast, hexp, mul_assoc, ← two_zpow_add, add_neg_cancel_right]

/-- Two representable numbers differ by more than what would be rounded to zero. -/
theorem rounded_sub_pos (hv : Representable v) (hw : Representable w) (h : w < v) :
    0 < rounded (v - w) := by
  obtain ⟨m, rfl⟩ := hv.exists_multiple
  obtain ⟨n, rfl⟩ := hw.exists_multiple
  have hpos := two_zpow_pos (-149)
  have hlt : (n : ℚ) + 1 ≤ m := by exact_mod_cast lt_of_mul_lt_mul_right h hpos.le
  have hleast : (2 : ℚ) ^ (-149 : ℤ) ≤ m * 2 ^ (-149 : ℤ) - n * 2 ^ (-149 : ℤ) := by
    rw [← sub_mul]
    exact le_mul_of_one_le_left hpos.le (by linarith)
  exact hpos.trans_le (le_rounded (representable_two_zpow le_rfl) hleast)

/-- What is large enough for a full mantissa is a multiple of the unit. -/
theorem Representable.exists_multiple_of_le (hq : Representable q) (h : 2 ^ (k + 23) ≤ |q|) :
    ∃ m : ℤ, q = m * 2 ^ k := by
  obtain ⟨d, hd⟩ : ∃ d : ℕ, lastPlace q = d + k :=
    ⟨(lastPlace q - k).toNat, by have := le_lastPlace (.inl h); omega⟩
  refine ⟨nearestEven (q / 2 ^ lastPlace q) * 2 ^ d, ?_⟩
  nth_rewrite 1 [← rounded_of_representable hq, rounded, hd]
  rw [hd, two_zpow_add, zpow_natCast]
  push_cast
  ring

/-- A multiple of a unit whose mantissa has room for it is representable. -/
theorem representable_of_multiple {m : ℤ} (hv : v = m * 2 ^ k) (hk : -149 ≤ k)
    (h : |v| ≤ 2 ^ (k + 24)) : Representable v := by
  refine ⟨m, k, ?_, hk, hv⟩
  rw [hv, abs_mul, abs_of_pos (two_zpow_pos k), add_comm, two_zpow_add] at h
  exact_mod_cast le_of_mul_le_mul_right h (two_zpow_pos k)

/-- Whole numbers are multiples of every unit that is no larger than one. -/
theorem intCast_eq_multiple (m : ℤ) (hk : k ≤ 0) :
    (m : ℚ) = (m * 2 ^ (-k).toNat : ℤ) * 2 ^ k := by
  have hexp : ((-k).toNat : ℤ) = -k := Int.toNat_of_nonneg (by omega)
  push_cast
  rw [mul_assoc, ← zpow_natCast, hexp, ← two_zpow_add, neg_add_cancel, zpow_zero, mul_one]

end Representable

end Parterre.Binary32
