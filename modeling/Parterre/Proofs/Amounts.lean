import Parterre.Proofs.CloseSides
import Parterre.Proofs.SwappedOperands

/-! # Amounts

Weights, extents and the coordinates on a plot are not negative.  Such a number is finite or
boundless, and once a sum is boundless it stays so, whatever is added to it or taken off it.  Hence
a sum that is in range has operands that are; so has a product, and a difference on its left. -/
namespace Parterre.Binary32
open Float.Model UnpackedFloat

def Boundless (x : Float32) : Prop := x.toModel.unpack = .infinity .positive

section Amounts
variable {a b x y lo hi : Float32} {p q : ℚ} {z : UnpackedFloat}

theorem boundless_ofModel_pack (h : z = .infinity .positive) :
    Boundless (Float32.ofModel (.pack z)) := by
  have hfits : Fits z := h ▸ trivial
  rw [Boundless, unpack_ofModel_pack hfits, h]

/-- A result that is not negative is what it is rounded to, or it is boundless. -/
theorem Rounds.stands_or_boundless (h : Rounds z q) (hq : 0 ≤ q) :
    Stands (.ofModel (.pack z)) (rounded q) ∨ Boundless (.ofModel (.pack z)) := by
  rcases unpack_pack_or_infinity h.aligned with hpack | ⟨s, m, e, hm, rfl, hpack⟩
  · refine .inl ⟨?_, ?_⟩
    · change (UnpackedFloat.unpack .binary32 (UnpackedFloat.pack .binary32 z)).isFinite = true
      rw [hpack]
      exact h.finite
    · change number (UnpackedFloat.unpack .binary32 (UnpackedFloat.pack .binary32 z)) = _
      rw [hpack, h.number_eq]
  · right
    cases s with
    | positive => exact hpack
    | negative =>
      have hnonneg := le_rounded representable_zero hq
      have hpos : (0 : ℚ) < m * 2 ^ e := mul_pos (by exact_mod_cast hm) (two_zpow_pos e)
      rw [← h.number_eq, number_negative] at hnonneg
      linarith

theorem nonneg_iff : 0.0 ≤ x ↔ x.isFinite = true ∧ 0 ≤ value x ∨ Boundless x := by
  have hle : 0.0 ≤ x ↔ UnpackedFloat.le (.zero .positive) x.toModel.unpack = true :=
    decide_eq_true_iff
  have hfinite : x.isFinite = x.toModel.unpack.isFinite := rfl
  by_cases hx : x.isFinite = true
  · rw [le_iff stands_zero.finite hx, stands_zero.value_eq, and_iff_right hx]
    refine (or_iff_left fun h => ?_).symm
    rw [hfinite, h] at hx
    cases hx
  · rw [or_iff_right fun h => hx h.1, hle, Boundless]
    rw [hfinite] at hx
    cases hunpack : x.toModel.unpack with
    | notANumber => simp [UnpackedFloat.le, UnpackedFloat.compare]
    | infinity s => cases s <;> simp [UnpackedFloat.le, UnpackedFloat.compare]
    | zero s => exact absurd (hunpack ▸ rfl) hx
    | finite s m e hm => exact absurd (hunpack ▸ rfl) hx

theorem pos_iff (hx : x.isFinite = true) : 0.0 < x ↔ 0 < value x := by
  rw [lt_iff stands_zero.finite hx, stands_zero.value_eq]

theorem value_nonneg (hx : x.isFinite = true) (h : 0.0 ≤ x) : 0 ≤ value x := by
  rwa [le_iff stands_zero.finite hx, stands_zero.value_eq] at h

theorem nonneg_of_pos (h : 0.0 < x) : 0.0 ≤ x := by
  obtain ⟨p, q, hp, hq, hlt⟩ := lt_iff_placeOf.1 h
  exact le_iff_placeOf.2 ⟨p, q, hp, hq, hlt.le⟩

theorem nonneg_of_value (hx : x.isFinite = true) (h : 0 ≤ value x) : 0.0 ≤ x :=
  nonneg_iff.2 (.inl ⟨hx, h⟩)

theorem Boundless.not_le (h : Boundless x) (hy : y.isFinite = true) : ¬x ≤ y := by
  have hle : x ≤ y ↔ x.toModel.unpack.le y.toModel.unpack = true := decide_eq_true_iff
  change y.toModel.unpack.isFinite = true at hy
  rw [hle, h]
  cases hunpack : y.toModel.unpack with
  | notANumber => simp [UnpackedFloat.le, UnpackedFloat.compare]
  | infinity s => simp [hunpack, UnpackedFloat.isFinite] at hy
  | zero s => simp [UnpackedFloat.le, UnpackedFloat.compare]
  | finite s m e hm => simp [UnpackedFloat.le, UnpackedFloat.compare]

theorem isFinite_of_le (hx : 0.0 ≤ x) (hy : y.isFinite = true) (h : x ≤ y) :
    x.isFinite = true := by
  rcases nonneg_iff.1 hx with ⟨hx, -⟩ | hx
  · exact hx
  · exact absurd h (hx.not_le hy)

theorem le_chain (hax : a ≤ x) (hxb : x ≤ b) : a ≤ b := by
  obtain ⟨p, q, ha, hx, hpq⟩ := le_iff_placeOf.1 hax
  obtain ⟨q', r, hx', hb, hqr⟩ := le_iff_placeOf.1 hxb
  obtain rfl : q = q' := Option.some_inj.1 (hx.symm.trans hx')
  exact le_iff_placeOf.2 ⟨p, r, ha, hb, hpq.trans hqr⟩

theorem between_iff (hlo : Stands lo p) (hp : 0 ≤ p) (hhi : Stands hi q) :
    lo ≤ x ∧ x ≤ hi ↔ x.isFinite = true ∧ p ≤ value x ∧ value x ≤ q := by
  constructor
  · rintro ⟨hlow, hhigh⟩
    have hpos : 0.0 ≤ lo := nonneg_of_value hlo.finite (hlo.value_eq ▸ hp)
    have hx := isFinite_of_le (le_chain hpos hlow) hhi.finite hhigh
    rw [le_iff hlo.finite hx, hlo.value_eq] at hlow
    rw [le_iff hx hhi.finite, hhi.value_eq] at hhigh
    exact ⟨hx, hlow, hhigh⟩
  · rintro ⟨hx, hlow, hhigh⟩
    rw [le_iff hlo.finite hx, le_iff hx hhi.finite, hlo.value_eq, hhi.value_eq]
    exact ⟨hlow, hhigh⟩

/-! ### Sums -/

theorem stands_add_or_boundless (ha : a.isFinite = true) (hb : b.isFinite = true)
    (h : 0 ≤ value a + value b) :
    Stands (a + b) (rounded (value a + value b)) ∨ Boundless (a + b) :=
  (add_spec (sound_of_isFinite ha) (sound_of_isFinite hb)).stands_or_boundless h

theorem Boundless.add (ha : Boundless a) (hb : 0.0 ≤ b) : Boundless (a + b) := by
  refine boundless_ofModel_pack ?_
  rw [ha]
  rcases nonneg_iff.1 hb with ⟨hb, -⟩ | hb
  · change b.toModel.unpack.isFinite = true at hb
    cases hunpack : b.toModel.unpack with
    | notANumber => simp [hunpack, UnpackedFloat.isFinite] at hb
    | infinity s => simp [hunpack, UnpackedFloat.isFinite] at hb
    | _ => rfl
  · rw [hb]
    rfl

theorem Boundless.sub (ha : Boundless a) (hb : b.isFinite = true) : Boundless (a - b) := by
  refine boundless_ofModel_pack ?_
  rw [ha]
  change b.toModel.unpack.isFinite = true at hb
  cases hunpack : b.toModel.unpack with
  | notANumber => simp [hunpack, UnpackedFloat.isFinite] at hb
  | infinity s => simp [hunpack, UnpackedFloat.isFinite] at hb
  | _ => rfl

theorem nonneg_add (ha : 0.0 ≤ a) (hb : 0.0 ≤ b) : 0.0 ≤ a + b := by
  rcases nonneg_iff.1 ha with ⟨hafinite, hapos⟩ | hbound
  · rcases nonneg_iff.1 hb with ⟨hbfinite, hbpos⟩ | hbound
    · have hsum : 0 ≤ value a + value b := add_nonneg hapos hbpos
      rcases stands_add_or_boundless hafinite hbfinite hsum with h | h
      · exact nonneg_of_value h.finite (h.nonneg hsum)
      · exact nonneg_iff.2 (.inr h)
    · rw [add_swap]
      exact nonneg_iff.2 (.inr (hbound.add ha))
  · exact nonneg_iff.2 (.inr (hbound.add hb))

theorem isFinite_of_add (ha : 0.0 ≤ a) (hb : 0.0 ≤ b) (h : (a + b).isFinite = true) :
    a.isFinite = true ∧ b.isFinite = true := by
  have hfinite {x : Float32} (hx : 0.0 ≤ x) (hbound : ¬Boundless x) : x.isFinite = true :=
    ((nonneg_iff.1 hx).resolve_right hbound).1
  have hsum : ¬Boundless (a + b) := by
    intro hbound
    change (a + b).toModel.unpack.isFinite = true at h
    rw [hbound] at h
    cases h
  refine ⟨hfinite ha fun hbound => hsum (hbound.add hb), hfinite hb fun hbound => hsum ?_⟩
  rw [add_swap]
  exact hbound.add ha

theorem stands_sum (ha : 0.0 ≤ a) (hb : 0.0 ≤ b) (h : (a + b).isFinite = true) :
    Stands (a + b) (rounded (value a + value b)) := by
  obtain ⟨hafinite, hbfinite⟩ := isFinite_of_add ha hb h
  have hsum := add_nonneg (value_nonneg hafinite ha) (value_nonneg hbfinite hb)
  refine (stands_add_or_boundless hafinite hbfinite hsum).resolve_right fun hbound => ?_
  exact hbound.not_le h ((le_iff h h).2 le_rfl)

/-! ### Results in range -/

theorem not_isFinite_pack (h : z.isFinite = false) :
    (Float32.ofModel (.pack z)).isFinite = false := by
  change (Float32.ofModel (.pack z)).toModel.unpack.isFinite = false
  cases z with
  | notANumber =>
    have hfits : Fits .notANumber := trivial
    rw [unpack_ofModel_pack hfits]
    rfl
  | infinity s =>
    have hfits : Fits (.infinity s) := trivial
    rw [unpack_ofModel_pack hfits]
    rfl
  | zero s => cases h
  | finite s m e hm => cases h

theorem isFinite_of_mul (h : (a * b).isFinite = true) : a.isFinite = true := by
  by_contra ha
  change ¬a.toModel.unpack.isFinite = true at ha
  have hproduct : (a.toModel.unpack.mul .binary32 b.toModel.unpack).isFinite = false := by
    cases hunpack : a.toModel.unpack with
    | notANumber => rfl
    | infinity s => cases b.toModel.unpack <;> rfl
    | zero s => exact absurd (hunpack ▸ rfl) ha
    | finite s m e hm => exact absurd (hunpack ▸ rfl) ha
  exact Bool.false_ne_true ((not_isFinite_pack hproduct).symm.trans h)

theorem isFinite_of_sub (h : (a - b).isFinite = true) : a.isFinite = true := by
  by_contra ha
  change ¬a.toModel.unpack.isFinite = true at ha
  have hdifference : (a.toModel.unpack.sub .binary32 b.toModel.unpack).isFinite = false := by
    cases hunpack : a.toModel.unpack with
    | notANumber => rfl
    | infinity s =>
      cases b.toModel.unpack with
      | infinity s' => cases s <;> cases s' <;> rfl
      | _ => rfl
    | zero s => exact absurd (hunpack ▸ rfl) ha
    | finite s m e hm => exact absurd (hunpack ▸ rfl) ha
  exact Bool.false_ne_true ((not_isFinite_pack hdifference).symm.trans h)

theorem clamp_mem (hlo : Stands lo p) (hhi : Stands hi q) (hle : p ≤ q)
    (h : (clamp x lo hi).isFinite = true) :
    p ≤ value (clamp x lo hi) ∧ value (clamp x lo hi) ≤ q := by
  unfold clamp at h ⊢
  split
  · exact ⟨hlo.value_eq.ge, hlo.value_eq.trans_le hle⟩
  · next hlow =>
    rw [if_neg hlow] at h
    split
    · exact ⟨hle.trans_eq hhi.value_eq.symm, hhi.value_eq.le⟩
    · next hhigh =>
      rw [if_neg hhigh] at h
      rw [lt_iff h hlo.finite, hlo.value_eq, not_lt] at hlow
      rw [lt_iff hhi.finite h, hhi.value_eq, not_lt] at hhigh
      exact ⟨hlow, hhigh⟩

end Amounts
end Parterre.Binary32
