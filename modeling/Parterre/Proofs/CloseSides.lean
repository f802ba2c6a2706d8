import Parterre.Proofs.Renumbering
import Parterre.Proofs.SectorSpans

/-! # Sides that lie on each other

The distance of two sides is a rounded difference, so it is compared with the tolerance as the
rounded difference of the values.  A side that is out of range lies on no other: a sum of finite
numbers is the rounded sum of their values or infinite, and the distance from an infinite number
is infinite. -/
namespace Parterre
namespace Binary32
open Float.Model UnpackedFloat

/-! ### Infinite results -/

/-- What does not fit is packed as the infinity of its sign. -/
theorem unpack_pack_or_infinity {y : UnpackedFloat} (h : Aligned y) :
    UnpackedFloat.unpack .binary32 (UnpackedFloat.pack .binary32 y) = y ∨
      ∃ s m e hm, y = .finite s m e hm ∧
        UnpackedFloat.unpack .binary32 (UnpackedFloat.pack .binary32 y) = .infinity s := by
  cases y with
  | notANumber => exact .inl rfl
  | infinity s => cases s <;> exact .inl rfl
  | zero s => cases s <;> exact .inl rfl
  | finite s m e hm =>
    by_cases he : e ≤ 104
    · exact .inl (unpack_pack ⟨h, he⟩)
    · have hbias : (Format.binary32.exponentBias : ℤ) = 127 := rfl
      have hlarge : 2 ^ 8 ≤ (e + (Format.binary32.exponentBias : ℤ) + (23 : ℕ)).toNat + 1 := by
        omega
      have hpack : UnpackedFloat.pack .binary32 (.finite s m e hm) =
          UnpackedFloat.packedInfinity .binary32 s := if_pos hlarge
      exact .inr ⟨s, m, e, hm, rfl, by rw [hpack]; cases s <;> rfl⟩

section Values
variable {a b x y : Float32} {q : ℚ} {z : UnpackedFloat}

def Infinite (x : Float32) : Prop := ∃ s, x.toModel.unpack = .infinity s

private theorem Infinite.isFinite_eq_false (h : Infinite x) : x.isFinite = false := by
  obtain ⟨s, hs⟩ := h
  change x.toModel.unpack.isFinite = false
  rw [hs]
  rfl

theorem not_infinite_of_isFinite (h : x.isFinite = true) : ¬Infinite x := fun hinfinite =>
  Bool.false_ne_true (hinfinite.isFinite_eq_false.symm.trans h)

theorem Rounds.stands_or_infinite (h : Rounds z q) :
    Stands (.ofModel (.pack z)) (rounded q) ∨ Infinite (.ofModel (.pack z)) := by
  rcases unpack_pack_or_infinity h.aligned with hpack | ⟨s, -, -, -, -, hpack⟩
  · refine .inl ⟨?_, ?_⟩
    · change (UnpackedFloat.unpack .binary32 (UnpackedFloat.pack .binary32 z)).isFinite = true
      rw [hpack]
      exact h.finite
    · change number (UnpackedFloat.unpack .binary32 (UnpackedFloat.pack .binary32 z)) = _
      rw [hpack, h.number_eq]
  · exact .inr ⟨s, hpack⟩

theorem stands_add_or_infinite (ha : a.isFinite = true) (hb : b.isFinite = true) :
    Stands (a + b) (rounded (value a + value b)) ∨ Infinite (a + b) :=
  (add_spec (sound_of_isFinite ha) (sound_of_isFinite hb)).stands_or_infinite

theorem stands_sub_or_infinite (ha : a.isFinite = true) (hb : b.isFinite = true) :
    Stands (a - b) (rounded (value a - value b)) ∨ Infinite (a - b) := by
  have hrounds := add_spec (sound_of_isFinite ha) (sound_of_isFinite hb).neg
  rw [number_neg, ← sub_eq_add, ← sub_eq_add_neg] at hrounds
  exact hrounds.stands_or_infinite

theorem Infinite.sub (h : Infinite a) (hb : b.isFinite = true) : Infinite (a - b) := by
  obtain ⟨s, hs⟩ := h
  have hsub : a.toModel.unpack.sub .binary32 b.toModel.unpack = .infinity s := by
    change b.toModel.unpack.isFinite = true at hb
    rw [hs]
    cases hunpack : b.toModel.unpack with
    | notANumber => simp [hunpack, UnpackedFloat.isFinite] at hb
    | infinity t => simp [hunpack, UnpackedFloat.isFinite] at hb
    | zero t => rfl
    | finite t n d hn => rfl
  have hfits : Fits (.infinity s) := trivial
  exact ⟨s, hsub ▸ unpack_ofModel_pack (hsub ▸ hfits)⟩

/-! ### Magnitudes -/

@[simp] theorem unpack_abs (x : Float32) : x.abs.toModel.unpack = x.toModel.unpack.abs := by
  have hfits : Fits x.toModel.unpack.abs := by
    have h := fits_toModel x
    cases hx : x.toModel.unpack with
    | finite s m e hm =>
      rw [hx] at h
      exact h
    | _ => trivial
  exact unpack_ofModel_pack hfits

theorem Stands.abs (h : Stands x q) : Stands x.abs |q| := by
  obtain ⟨hfinite, rfl⟩ := h
  constructor
  · rw [← hfinite]
    change x.abs.toModel.unpack.isFinite = x.toModel.unpack.isFinite
    rw [unpack_abs]
    cases x.toModel.unpack <;> rfl
  · rw [value, unpack_abs, value]
    cases x.toModel.unpack with
    | finite s m e hm =>
      have hpos : (0 : ℚ) ≤ m * 2 ^ e := mul_nonneg (Nat.cast_nonneg m) (two_zpow_pos e).le
      change number (.finite .positive m e hm) = |number (.finite s m e hm)|
      cases s with
      | positive => rw [number_positive, abs_of_nonneg hpos]
      | negative => rw [number_positive, number_negative, abs_neg, abs_of_nonneg hpos]
    | _ => exact abs_zero.symm

/-! ### Closeness -/

def tolerance : ℚ := 8589935 / 2 ^ 33

theorem stands_touchTolerance : Stands touchTolerance tolerance :=
  stands_of_parts (n := false) (m := 8589935) (e := -33) ⟨rfl, rfl⟩ (by norm_num [tolerance])

private theorem Infinite.touchTolerance_le_abs (h : Infinite x) : touchTolerance ≤ x.abs := by
  obtain ⟨s, hs⟩ := h
  have habs : placeOf x.abs = some (toLex (2, toLex (0, 0))) := by
    rw [placeOf, unpack_abs, hs]
    rfl
  exact le_iff_placeOf.2 ⟨_, _, rfl, habs, by decide⟩

/-- Whether two numbers are less far apart than the tolerance. -/
def Close (a b : Float32) : Prop :=
  a.isFinite = true ∧ b.isFinite = true ∧ |rounded (value a - value b)| < tolerance

theorem Close.symm (h : Close a b) : Close b a := by
  obtain ⟨ha, hb, hlt⟩ := h
  exact ⟨hb, ha, by rwa [← abs_neg, ← rounded_neg, neg_sub]⟩

theorem Close.stands_sub (h : Close a b) : Stands (a - b) (rounded (value a - value b)) := by
  obtain ⟨ha, hb, hlt⟩ := h
  refine Binary32.stands_sub ha hb ?_
  have hone : tolerance ≤ 1 := by norm_num [tolerance]
  have hsmall : |value a - value b| ≤ 1 := by
    obtain ⟨hlow, hhigh⟩ := abs_lt.1 hlt
    exact abs_le.2 ⟨(lt_of_lt_rounded representable_one.neg (by linarith)).le,
      (lt_of_rounded_lt representable_one (by linarith)).le⟩
  exact hsmall.trans (by norm_num [largest])

theorem Close.distance_lt (h : Close a b) : (a - b).abs < touchTolerance := by
  have habs := h.stands_sub.abs
  rw [lt_iff habs.finite stands_touchTolerance.finite, habs.value_eq,
    stands_touchTolerance.value_eq]
  exact h.2.2

/-- A number in range is close to another one unless their distance reaches the tolerance. -/
theorem close_iff (hb : b.isFinite = true) (ha : a.isFinite = true ∨ Infinite a) :
    Close a b ↔ ¬touchTolerance ≤ (a - b).abs := by
  constructor
  · intro h hle
    have habs := h.stands_sub.abs
    rw [le_iff stands_touchTolerance.finite habs.finite, habs.value_eq,
      stands_touchTolerance.value_eq] at hle
    exact not_lt.2 hle h.2.2
  · intro h
    rcases ha with ha | ha
    · rcases stands_sub_or_infinite ha hb with hsub | hsub
      · rw [le_iff stands_touchTolerance.finite hsub.abs.finite, hsub.abs.value_eq,
          stands_touchTolerance.value_eq] at h
        exact ⟨ha, hb, not_le.1 h⟩
      · exact absurd hsub.touchTolerance_le_abs h
    · exact absurd (ha.sub hb).touchTolerance_le_abs h

/-- Where each of two intervals begins close to the end of the other, they end close to each
other. -/
theorem Close.ends {a₁ a₂ b₁ b₂ : Float32} (hfirst : Close a₂ b₁) (hsecond : Close b₂ a₁)
    (ha : value a₁ ≤ value a₂) (hb : value b₁ ≤ value b₂) : Close a₂ b₂ := by
  obtain ⟨ha₂, -, hfirst⟩ := hfirst
  obtain ⟨hb₂, -, hsecond⟩ := hsecond
  refine ⟨ha₂, hb₂, abs_lt.2 ⟨?_, ?_⟩⟩
  · have hle : rounded (value b₂ - value a₂) ≤ rounded (value b₂ - value a₁) :=
      rounded_mono (by linarith)
    rw [← neg_sub, rounded_neg]
    linarith [(abs_lt.1 hsecond).2]
  · have hle : rounded (value a₂ - value b₂) ≤ rounded (value a₂ - value b₁) :=
      rounded_mono (by linarith)
    linarith [(abs_lt.1 hfirst).2]

end Values
end Binary32
open Binary32

namespace Side

/-- The direction of the line where rectangles touch at a side. -/
def axis : Side → Axis
  | right | left => .vertical
  | below | above => .horizontal

def line (r : Rect) : Side → Float32
  | right => r.right
  | left => r.x
  | below => r.bottom
  | above => r.y

variable {a b : Rect} {minOverlap : Float32} {side : Side}

@[simp] theorem axis_opposite (side : Side) :
    side.opposite.axis = side.axis := by cases side <;> rfl

private theorem line_cases (ha : a.isFinite = true) (side : Side) :
    (side.line a).isFinite = true ∨ Infinite (side.line a) := by
  obtain ⟨hx, hy, hw, hh⟩ := Rect.isFinite_iff.1 ha
  cases side with
  | right => exact (stands_add_or_infinite hx hw).imp_left Stands.finite
  | left => exact .inl hx
  | below => exact (stands_add_or_infinite hy hh).imp_left Stands.finite
  | above => exact .inl hy

theorem close_of_touches (ha : a.isFinite = true) (hb : b.isFinite = true)
    (h : side.touches a b minOverlap = true) : Close (side.line a) (side.opposite.line b) := by
  have hgap : ¬touchTolerance ≤ side.gap a b := by
    simp only [touches, Bool.and_eq_true, Bool.not_eq_true', decide_eq_false_iff_not] at h
    exact h.1
  obtain ⟨hax, hay, -, -⟩ := Rect.isFinite_iff.1 ha
  obtain ⟨hbx, hby, -, -⟩ := Rect.isFinite_iff.1 hb
  cases side with
  | right => exact (close_iff hbx (line_cases ha right)).2 hgap
  | left => exact ((close_iff hax (line_cases hb right)).2 hgap).symm
  | below => exact (close_iff hby (line_cases ha below)).2 hgap
  | above => exact ((close_iff hay (line_cases hb below)).2 hgap).symm

end Side
end Parterre
