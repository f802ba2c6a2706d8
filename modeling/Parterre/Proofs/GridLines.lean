import Parterre.Proofs.PlantedSpans

/-! # Lines of the grid

Snapping scales, adds a half, takes the floor and scales back, where all but the floor is rounded.
It keeps finite numbers finite, and a larger number never snaps to a smaller line. -/
namespace Parterre.Binary32
variable {v v' : Float32} {q q' : ℚ}

/-- A representable number below a multiple of a unit that has more than the smallest full mantissa
is no larger than the multiple before it. -/
theorem Representable.le_sub_of_lt {n k : ℤ} (hq : Representable q) (hn : 2 ^ 23 < |n|)
    (h : q < n * 2 ^ k) : q ≤ (n - 1 : ℤ) * 2 ^ k := by
  have hunit := two_zpow_pos k
  have hfull : (2 : ℚ) ^ (k + 23) = (2 ^ 23 : ℤ) * 2 ^ k := by
    rw [add_comm, two_zpow_add]
    norm_num
  rcases le_or_gt (2 ^ (k + 23)) |q| with hlong | hshort
  · obtain ⟨m, rfl⟩ := hq.exists_multiple_of_le hlong
    have hlt : m < n := by exact_mod_cast lt_of_mul_lt_mul_right h hunit.le
    exact mul_le_mul_of_nonneg_right (by exact_mod_cast Int.le_sub_one_of_lt hlt) hunit.le
  · rw [hfull] at hshort
    rcases le_total 0 n with hpos | hneg
    · rw [abs_of_nonneg hpos] at hn
      exact (le_abs_self q).trans (hshort.le.trans
        (mul_le_mul_of_nonneg_right (by exact_mod_cast Int.le_sub_one_of_lt hn) hunit.le))
    · -- a negative number below the multiple is larger than that
      rw [abs_of_nonpos hneg] at hn
      have hlow : ((2 ^ 23 : ℤ) : ℚ) * 2 ^ k ≤ (-n : ℤ) * 2 ^ k :=
        mul_le_mul_of_nonneg_right (by exact_mod_cast hn.le) hunit.le
      push_cast at hlow hshort
      linarith [neg_abs_le q]

/-- Near a number with a full mantissa the representable numbers are multiples of a unit. -/
theorem Representable.le_of_lt {n k : ℤ} (hq : Representable q) (h : q < (n + 1) * 2 ^ k)
    (hn : 2 ^ 23 ≤ n) : q ≤ n * 2 ^ k := by
  have hle := hq.le_sub_of_lt (n := n + 1) (lt_abs.2 (.inl (by omega))) (by exact_mod_cast h)
  rwa [add_sub_cancel_right] at hle

/-- The line of the grid that a number snaps to. -/
def lineOf (q : ℚ) : ℚ := rounded (⌊rounded (rounded (q / 10) + 1 / 2)⌋ * 10)

theorem lineOf_mono (h : q ≤ q') : lineOf q ≤ lineOf q' := by
  have hscaled : rounded (q / 10) ≤ rounded (q' / 10) := rounded_mono (by linarith)
  have hsum : rounded (rounded (q / 10) + 1 / 2) ≤ rounded (rounded (q' / 10) + 1 / 2) :=
    rounded_mono (by linarith)
  have hfloor : (⌊rounded (rounded (q / 10) + 1 / 2)⌋ : ℚ) ≤
      ⌊rounded (rounded (q' / 10) + 1 / 2)⌋ := by exact_mod_cast Int.floor_mono hsum
  exact rounded_mono (by linarith)

theorem stands_scaled (hv : v.isFinite = true) :
    Stands (v / gridUnit) (rounded (value v / 10)) := by
  have hten : value gridUnit = 10 := stands_gridUnit.value_eq
  have hscaled := stands_div hv stands_gridUnit.finite (by rw [hten]; norm_num)
  rw [hten] at hscaled
  refine hscaled ?_
  rw [abs_div, abs_of_pos (by norm_num : (0 : ℚ) < 10)]
  linarith [abs_value_le_largest v, abs_nonneg (value v)]

/-- Before the floor is taken a finite number is still finite, and ten times that is so too, as the
largest number is ten times a representable one. -/
theorem stands_moved (hv : v.isFinite = true) :
    Stands (v / gridUnit + 0.5) (rounded (rounded (value v / 10) + 1 / 2)) ∧
      |rounded (rounded (value v / 10) + 1 / 2)| ≤ (13421772 : ℤ) * 2 ^ (101 : ℤ) := by
  obtain ⟨t, ht⟩ : ∃ t : ℚ, t = (13421772 : ℤ) * 2 ^ (101 : ℤ) := ⟨_, rfl⟩
  have hlargest : largest = 10 * t := by norm_num [ht, largest]
  have hone : 1 ≤ t := by norm_num [ht]
  have htenth : Representable t := ⟨13421772, 101, by norm_num, by norm_num, ht⟩
  have hquotient : |value v / 10| ≤ t := by
    rw [abs_div, abs_of_pos (by norm_num : (0 : ℚ) < 10), div_le_iff₀ (by norm_num)]
    linarith [abs_value_le_largest v]
  obtain ⟨hlow, hhigh⟩ := abs_le.1 (abs_rounded_le htenth hquotient)
  have hsum := stands_add (stands_scaled hv).finite stands_half.finite
  rw [(stands_scaled hv).value_eq, stands_half.value_eq] at hsum
  generalize rounded (value v / 10) = s at *
  have hsumlow : -t ≤ rounded (s + 1 / 2) := le_rounded htenth.neg (by linarith)
  -- a half more than the bound is rounded back to it
  have hsumhigh : rounded (s + 1 / 2) ≤ t := by
    have hbound : rounded (t + 1 / 2) ≤ t := by
      have hnear := abs_rounded_sub_le_abs htenth (t + 1 / 2)
      rw [sub_add_cancel_left, abs_neg, abs_of_pos (by norm_num : (0 : ℚ) < 1 / 2)] at hnear
      have hbelow : rounded (t + 1 / 2) < ((13421772 : ℤ) + 1) * 2 ^ (101 : ℤ) := by
        rw [add_mul, ← ht]
        norm_num
        linarith [(abs_le.1 hnear).2]
      exact ((representable_rounded _).le_of_lt hbelow (by norm_num)).trans_eq ht.symm
    exact (rounded_mono (by linarith)).trans hbound
  exact ⟨hsum (abs_le.2 ⟨by linarith, by linarith⟩), ht ▸ abs_le.2 ⟨hsumlow, hsumhigh⟩⟩

theorem stands_snap (hv : v.isFinite = true) : Stands (snap v) (lineOf (value v)) := by
  obtain ⟨hmoved, hbound⟩ := stands_moved hv
  have hlargest : largest = 10 * ((13421772 : ℤ) * 2 ^ (101 : ℤ)) := by norm_num [largest]
  have hfloor := stands_floor hmoved.finite
  rw [hmoved.value_eq] at hfloor
  have hproduct := stands_mul hfloor.finite stands_gridUnit.finite
  rw [hfloor.value_eq, stands_gridUnit.value_eq] at hproduct
  unfold lineOf
  generalize rounded (rounded (value v / 10) + 1 / 2) = s at *
  obtain ⟨hlow, hhigh⟩ := abs_le.1 hbound
  have hfloorlow : -((13421772 : ℤ) * 2 ^ (101 : ℤ)) ≤ (⌊s⌋ : ℚ) := by
    have hwhole : -((13421772 : ℤ) * 2 ^ (101 : ℤ) : ℚ) = (-(13421772 * 2 ^ 101) : ℤ) := by
      norm_num
    rw [hwhole] at hlow ⊢
    exact_mod_cast Int.le_floor.2 hlow
  exact hproduct (abs_le.2 ⟨by linarith, by linarith [Int.floor_le s]⟩)

end Parterre.Binary32
