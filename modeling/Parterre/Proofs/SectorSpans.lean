import Parterre.Plan.Plot
import Parterre.Proofs.NumberValues
import Parterre.Rule.Standard

/-! # How far sectors reach

The working rectangle may lie anywhere in a square around the origin.  Cutting it moves coordinates
by rounding errors, but never far: what a coordinate drifts off is paid for by the extent that the
cut takes away.  So the coordinates of all sectors stay in range, and every operation on them has
the same small error. -/
namespace Parterre
open Binary32

/-- Whether a rectangle lies in the square that reaches `2 ^ k` from the origin along both axes. -/
structure Rect.InSquare (r : Rect) (k : ℤ) : Prop where
  left : -2 ^ k ≤ value r.x
  top : -2 ^ k ≤ value r.y
  right : value r.x + value r.w ≤ 2 ^ k
  bottom : value r.y + value r.h ≤ 2 ^ k

/-- The squares for which no coordinate is out of range, and the lengths in the grammar are small
beside them. -/
structure Scale (k : ℤ) : Prop where
  low : 8 ≤ k
  high : k ≤ 126

def unit (k : ℤ) : ℚ := 2 ^ (k - 24)

section Operations
variable {k : ℤ} {a b x : Float32} {u v : ℚ}

theorem unit_pos (k : ℤ) : 0 < unit k := two_zpow_pos _

theorem two_zpow_eq (k : ℤ) : (2 : ℚ) ^ k = 16777216 * unit k := by
  have hsplit : k = 24 + (k - 24) := by ring
  rw [unit]
  nth_rewrite 1 [hsplit]
  rw [two_zpow_add]
  norm_num

theorem Scale.le (h : Scale k) : 256 ≤ (2 : ℚ) ^ k := by
  have := two_zpow_le h.low
  norm_num at this ⊢
  exact this

theorem stands_value (h : x.isFinite = true) : Stands x (value x) := ⟨h, rfl⟩

theorem abs_le_two_zpow (hlow : -(2 * 2 ^ k) ≤ u) (hhigh : u ≤ 2 * 2 ^ k) : |u| ≤ 2 ^ (k + 1) := by
  have htwo : (2 : ℚ) * 2 ^ k = 2 ^ (k + 1) := by
    rw [two_zpow_add, zpow_one, mul_comm]
  exact abs_le.2 ⟨by linarith, by linarith⟩

theorem Scale.abs_le_largest (hk : Scale k) (hlow : -(2 * 2 ^ k) ≤ u) (hhigh : u ≤ 2 * 2 ^ k) :
    |u| ≤ largest :=
  Binary32.abs_le_largest (by linarith [hk.high]) (abs_le_two_zpow hlow hhigh)

theorem Scale.le_largest (hk : Scale k) : 7 / 2 * 2 ^ k ≤ largest := by
  have hle := two_zpow_le hk.high
  norm_num [largest] at hle ⊢
  linarith

theorem Scale.near (hk : Scale k) (h : |u| ≤ largest → Stands x (rounded u))
    (hlow : -(2 * 2 ^ k) ≤ u) (hhigh : u ≤ 2 * 2 ^ k) : Near (unit k) x u := by
  have hnear := (h (hk.abs_le_largest hlow hhigh)).near (by linarith [hk.low])
    (abs_le_two_zpow hlow hhigh)
  rwa [show k + 1 - 25 = k - 24 by ring] at hnear

theorem Scale.add (hk : Scale k) (ha : Stands a u) (hb : Stands b v) (hlow : -(2 * 2 ^ k) ≤ u + v)
    (hhigh : u + v ≤ 2 * 2 ^ k) : Near (unit k) (a + b) (u + v) := by
  obtain ⟨ha, rfl⟩ := ha
  obtain ⟨hb, rfl⟩ := hb
  exact hk.near (stands_add ha hb) hlow hhigh

theorem Scale.sub (hk : Scale k) (ha : Stands a u) (hb : Stands b v) (hlow : -(2 * 2 ^ k) ≤ u - v)
    (hhigh : u - v ≤ 2 * 2 ^ k) : Near (unit k) (a - b) (u - v) := by
  obtain ⟨ha, rfl⟩ := ha
  obtain ⟨hb, rfl⟩ := hb
  exact hk.near (stands_sub ha hb) hlow hhigh

theorem Scale.mul (hk : Scale k) (ha : Stands a u) (hb : Stands b v) (hlow : -(2 * 2 ^ k) ≤ u * v)
    (hhigh : u * v ≤ 2 * 2 ^ k) : Near (unit k) (a * b) (u * v) := by
  obtain ⟨ha, rfl⟩ := ha
  obtain ⟨hb, rfl⟩ := hb
  exact hk.near (stands_mul ha hb) hlow hhigh

theorem Scale.div (hk : Scale k) (ha : Stands a u) (hb : Stands b v) (hne : v ≠ 0)
    (hlow : -(2 * 2 ^ k) ≤ u / v) (hhigh : u / v ≤ 2 * 2 ^ k) : Near (unit k) (a / b) (u / v) := by
  obtain ⟨ha, rfl⟩ := ha
  obtain ⟨hb, rfl⟩ := hb
  exact hk.near (stands_div ha hb hne) hlow hhigh

end Operations

/-! ### Constants -/

theorem stands_gridUnit : Stands gridUnit 10 :=
  stands_of_parts (n := false) (m := 10485760) (e := -20) ⟨rfl, rfl⟩ (by norm_num)

/-- The shares of the two parts of a cut. -/
structure Share.Parts (s : Share) (f g : ℚ) : Prop where
  first : Stands s.fraction f
  second : Stands (1.0 - s.fraction) g
  least_first : 39 / 100 ≤ f
  least_second : 39 / 100 ≤ g
  sum_le : f + g ≤ 1 + 2 ^ (-25 : ℤ)

theorem Share.parts (s : Share) : ∃ f g, s.Parts f g := by
  cases s with
  | half =>
    refine ⟨1 / 2, 1 / 2, ?_, ?_, by norm_num, by norm_num, by norm_num⟩
    · exact stands_of_parts (n := false) (m := 8388608) (e := -24) ⟨rfl, rfl⟩ (by norm_num)
    · exact stands_of_parts (n := false) (m := 8388608) (e := -24) ⟨rfl, rfl⟩ (by norm_num)
  | threeFifths =>
    refine ⟨10066330 / 2 ^ 24, 13421772 / 2 ^ 25, ?_, ?_, by norm_num, by norm_num, by norm_num⟩
    · exact stands_of_parts (n := false) (m := 10066330) (e := -24) ⟨rfl, rfl⟩ (by norm_num)
    · exact stands_of_parts (n := false) (m := 13421772) (e := -25) ⟨rfl, rfl⟩ (by norm_num)
  | twoFifths =>
    refine ⟨13421773 / 2 ^ 25, 10066330 / 2 ^ 24, ?_, ?_, by norm_num, by norm_num, by norm_num⟩
    · exact stands_of_parts (n := false) (m := 13421773) (e := -25) ⟨rfl, rfl⟩ (by norm_num)
    · exact stands_of_parts (n := false) (m := 10066330) (e := -24) ⟨rfl, rfl⟩ (by norm_num)

theorem stands_minCutSide : Stands minCutSide 35 :=
  stands_of_parts (n := false) (m := 9175040) (e := -18) ⟨rfl, rfl⟩ (by norm_num)

/-! ### Sides -/

/-- Whether a side is finite, not negative and no longer than a bound. -/
structure SideUpTo (bound : ℚ) (side : Float32) : Prop where
  finite : side.isFinite = true
  nonneg : 0 ≤ value side
  le : value side ≤ bound

/-- A share of a side is no longer than the side, as the side is a number to round to. -/
theorem SideUpTo.share {bound : ℚ} {w c : Float32} {f : ℚ} (h : SideUpTo bound w)
    (hc : Stands c f) (hf : 0 ≤ f) (hf' : f ≤ 1) : SideUpTo bound (w * c) := by
  have hnonneg : 0 ≤ value w * f := mul_nonneg h.nonneg hf
  have hle : value w * f ≤ value w := mul_le_of_le_one_right h.nonneg hf'
  have hproduct := stands_mul h.finite hc.finite
  rw [hc.value_eq, abs_of_nonneg hnonneg] at hproduct
  have hproduct := hproduct (hle.trans (abs_le.1 (abs_value_le_largest w)).2)
  refine ⟨hproduct.finite, hproduct.nonneg hnonneg, ?_⟩
  rw [hproduct.value_eq]
  exact (rounded_le (representable_value w) hle).trans h.le

/-! ### Spans -/

/-- How far the end of a span may drift off by further cuts.  A cut moves it by a rounding error,
but never by more than the extent that is cut off: so short spans have their extent to pay with, and
of longer ones a small part of the extent is enough. -/
def drift (k : ℤ) (w : ℚ) : ℚ := min (2 * w) (400 * unit k + w / 64)

/-- A sector along one axis, from its begin `x` by its extent `w`. -/
structure SectorSpan (k : ℤ) (x w : Float32) : Prop where
  finite : x.isFinite = true
  finite_extent : w.isFinite = true
  pos : 0 < value w
  extent_le : value w ≤ 2 * 2 ^ k
  low : -2 ^ k ≤ value x
  high : value x + value w + drift k (value w) ≤ 17 / 16 * 2 ^ k

section SectorSpan
variable {k : ℤ} {x w : Float32}

theorem drift_nonneg {q : ℚ} (h : 0 ≤ q) : 0 ≤ drift k q :=
  le_min (by linarith) (by linarith [unit_pos k])

theorem drift_mono {p q : ℚ} (h : p ≤ q) : drift k p ≤ drift k q :=
  min_le_min (by linarith) (by linarith)

/-- The error of a cut is paid for by the extent that is cut off. -/
theorem add_drift_le {error p q : ℚ} (hq : 0 ≤ q) (hunit : error ≤ unit k)
    (hcut : error ≤ 63 / 100 * q) (hpart : p ≤ 63 / 100 * q) :
    error + q / 4194304 + drift k p ≤ drift k q := by
  have hupos := unit_pos k
  have hleft : drift k p ≤ 2 * p := min_le_left _ _
  have hright : drift k p ≤ 400 * unit k + p / 64 := min_le_right _ _
  refine le_min (by linarith) ?_
  -- a short span has not used up what it may drift off
  rcases le_total q (200 * unit k) with hshort | hlong <;> linarith

theorem SectorSpan.of_inSquare (hx : x.isFinite = true) (hw : w.isFinite = true)
    (hpos : 0 < value w) (hlow : -2 ^ k ≤ value x) (hhigh : value x + value w ≤ 2 ^ k) :
    SectorSpan k x w := by
  have hdrift : drift k (value w) ≤ 400 * unit k + value w / 64 := min_le_right _ _
  have hunit := two_zpow_eq k
  exact ⟨hx, hw, hpos, by linarith, hlow, by linarith [unit_pos k]⟩

/-- The part of an extent that a share takes. -/
theorem SectorSpan.part (h : SectorSpan k x w) (hk : Scale k) {c : Float32} {f : ℚ}
    (hc : Stands c f) (hf : 0 ≤ f) (hf' : f ≤ 1) : (w * c).isFinite = true ∧
      value (w * c) ≤ (1 + 2 ^ (-24 : ℤ)) * (value w * f) + 2 ^ (-150 : ℤ) := by
  have hnonneg : 0 ≤ value w * f := mul_nonneg h.pos.le hf
  have hle : value w * f ≤ 2 * 2 ^ k := (mul_le_of_le_one_right h.pos.le hf').trans h.extent_le
  have hproduct := stands_mul h.finite_extent hc.finite
  rw [hc.value_eq] at hproduct
  have hnear := (hproduct (hk.abs_le_largest (by linarith [two_zpow_pos k]) hle)).near_mul
  have hhigh := hnear.high
  rw [abs_of_nonneg hnonneg] at hhigh
  exact ⟨hnear.finite, by linarith⟩

variable {share : Share} {f g : ℚ}

theorem Share.Parts.nonneg_first (h : share.Parts f g) : 0 ≤ f := by linarith [h.least_first]

theorem Share.Parts.nonneg_second (h : share.Parts f g) : 0 ≤ g := by linarith [h.least_second]

theorem Share.Parts.le_first (h : share.Parts f g) : f ≤ 62 / 100 := by
  have hsum := h.sum_le
  norm_num at hsum
  linarith [h.least_second]

theorem Share.Parts.le_second (h : share.Parts f g) : g ≤ 62 / 100 := by
  have hsum := h.sum_le
  norm_num at hsum
  linarith [h.least_first]

theorem Share.Parts.sides {bound : ℚ} (hs : share.Parts f g) (h : SideUpTo bound w) :
    SideUpTo bound (w * share.fraction) ∧ SideUpTo bound (w * (1.0 - share.fraction)) :=
  ⟨h.share hs.first hs.nonneg_first (by linarith [hs.le_first]),
    h.share hs.second hs.nonneg_second (by linarith [hs.le_second])⟩

theorem SectorSpan.shares (h : SectorSpan k x w) (hs : share.Parts f g) :
    (0 ≤ value w * f ∧ value w * f ≤ 62 / 100 * value w) ∧
      (0 ≤ value w * g ∧ value w * g ≤ 62 / 100 * value w) ∧
      value w * f + value w * g ≤ 33554433 / 33554432 * value w := by
  have hpos := h.pos.le
  have hle := mul_le_mul_of_nonneg_left hs.le_first hpos
  have hle' := mul_le_mul_of_nonneg_left hs.le_second hpos
  have hsum := mul_le_mul_of_nonneg_left hs.sum_le hpos
  norm_num at hsum
  exact ⟨⟨mul_nonneg hpos hs.nonneg_first, by linarith⟩,
    ⟨mul_nonneg hpos hs.nonneg_second, by linarith⟩, by linarith⟩

/-- Where a span ends, and how far that may still drift off. -/
def spanReach (k : ℤ) (x w : Float32) : ℚ := value x + value w + drift k (value w)

/-- The first part of a cut ends before the span does. -/
theorem SectorSpan.firstPart_upTo (h : SectorSpan k x w) (hs : share.Parts f g) :
    SideUpTo (value w) (w * share.fraction) :=
  (hs.sides ⟨h.finite_extent, h.pos.le, le_rfl⟩).1

theorem SectorSpan.firstPart (h : SectorSpan k x w) (hs : share.Parts f g)
    (hleast : 35 ≤ value (w * share.fraction)) : SectorSpan k x (w * share.fraction) := by
  obtain ⟨hfinite, -, hextent⟩ := h.firstPart_upTo hs
  have hdrift := drift_mono (k := k) hextent
  exact ⟨h.finite, hfinite, by linarith, hextent.trans h.extent_le, h.low, by linarith [h.high]⟩

theorem SectorSpan.reach_firstPart_le (h : SectorSpan k x w) (hs : share.Parts f g) :
    spanReach k x (w * share.fraction) ≤ spanReach k x w := by
  have hextent := (h.firstPart_upTo hs).le
  have hdrift := drift_mono (k := k) hextent
  unfold spanReach
  linarith

/-- The second part of a cut begins after the span does, and reaches no farther. -/
theorem SectorSpan.reach_secondPart_le (h : SectorSpan k x w) (hk : Scale k) (hs : share.Parts f g)
    (hfirst : 35 ≤ value (w * share.fraction))
    (hsecond : 35 ≤ value (w * (1.0 - share.fraction))) :
    (x + w * share.fraction).isFinite = true ∧ value x ≤ value (x + w * share.fraction) ∧
      spanReach k (x + w * share.fraction) (w * (1.0 - share.fraction)) ≤ spanReach k x w := by
  obtain ⟨hfinite, hle⟩ := h.part hk hs.first hs.nonneg_first (by linarith [hs.le_first])
  obtain ⟨-, hle'⟩ := h.part hk hs.second hs.nonneg_second (by linarith [hs.le_second])
  obtain ⟨⟨-, hshare⟩, ⟨-, hshare'⟩, hshares⟩ := h.shares hs
  norm_num at hle hle'
  have hlow := h.low
  have hhigh := h.high
  have hextent := h.extent_le
  have hpos := drift_nonneg (k := k) h.pos.le
  have hscale := hk.le
  have hbegin := stands_add h.finite hfinite (hk.abs_le_largest (by linarith) (by linarith))
  have hnear := hk.add (stands_value h.finite) (stands_value hfinite) (by linarith) (by linarith)
  -- the old begin is representable, so the new one is off by no more than the first extent
  have herror := abs_rounded_sub_le_abs (representable_value x)
    (value x + value (w * share.fraction))
  have hwidth : |value (w * share.fraction)| = value (w * share.fraction) :=
    abs_of_nonneg (by linarith)
  rw [sub_add_cancel_left, abs_neg, hwidth, ← hbegin.value_eq] at herror
  have hdrift := add_drift_le (k := k) (q := value w) (p := value (w * (1.0 - share.fraction)))
    h.pos.le (sub_le_iff_le_add'.2 hnear.high) ((abs_le.1 herror).2.trans (by linarith))
    (by linarith)
  refine ⟨hbegin.finite, ?_, ?_⟩
  · rw [hbegin.value_eq]
    exact le_rounded (representable_value x) (by linarith)
  · unfold spanReach
    linarith

theorem SectorSpan.secondPart (h : SectorSpan k x w) (hk : Scale k) (hs : share.Parts f g)
    (hfirst : 35 ≤ value (w * share.fraction)) (hsecond : 35 ≤ value (w * (1.0 - share.fraction))) :
    SectorSpan k (x + w * share.fraction) (w * (1.0 - share.fraction)) := by
  obtain ⟨hfinite, hle⟩ := h.part hk hs.second hs.nonneg_second (by linarith [hs.le_second])
  obtain ⟨-, ⟨-, hshare⟩, -⟩ := h.shares hs
  obtain ⟨hbegin, hlow, hreach⟩ := h.reach_secondPart_le hk hs hfirst hsecond
  norm_num at hle
  exact ⟨hbegin, hfinite, by linarith, by linarith [h.extent_le], h.low.trans hlow,
    hreach.trans h.high⟩

end SectorSpan

/-! ### Sectors -/

/-- Whether the coordinates of a sector are in range. -/
structure Rect.Ranged (k : ℤ) (r : Rect) : Prop where
  across : SectorSpan k r.x r.w
  down : SectorSpan k r.y r.h

/-- Whether no side is shorter than a cut leaves it. -/
structure Rect.Wide (r : Rect) : Prop where
  across : 35 ≤ value r.w
  down : 35 ≤ value r.h

section Sectors
variable {k : ℤ} {r : Rect} {cut : Cut}

@[simp] theorem Rect.isFinite_iff : r.isFinite = true ↔
    r.x.isFinite = true ∧ r.y.isFinite = true ∧ r.w.isFinite = true ∧ r.h.isFinite = true := by
  simp [isFinite, and_assoc]

theorem stands_zero : Stands 0.0 0 :=
  stands_of_parts (n := false) (m := 0) (e := 0) ⟨rfl, rfl⟩ (by norm_num)

theorem stands_one : Stands 1.0 1 :=
  stands_of_parts (n := false) (m := 8388608) (e := -23) ⟨rfl, rfl⟩ (by norm_num)

@[simp] theorem Rect.validateWorking_eq_ok_iff :
    r.validateWorking = .ok () ↔ r.isFinite = true ∧ r.isPositive = true := by
  unfold validateWorking
  cases r.isFinite <;> cases r.isPositive <;> simp

/-- An accepted working rectangle is in range, if it lies in the square. -/
theorem Rect.Ranged.of_validate (h : r.validateWorking = .ok ()) (hsquare : r.InSquare k) :
    r.Ranged k := by
  have hvalid := validateWorking_eq_ok_iff.1 h
  obtain ⟨hx, hy, hw, hh⟩ := Rect.isFinite_iff.1 hvalid.1
  have hpositive : r.w > 0.0 ∧ r.h > 0.0 := by simpa [isPositive] using hvalid.2
  have hwpos := (lt_iff stands_zero.finite hw).1 hpositive.1
  have hhpos := (lt_iff stands_zero.finite hh).1 hpositive.2
  rw [stands_zero.value_eq] at hwpos hhpos
  exact ⟨.of_inSquare hx hw hwpos hsquare.left hsquare.right,
    .of_inSquare hy hh hhpos hsquare.top hsquare.bottom⟩

theorem le_least_iff {a b c : Float32} {q : ℚ} (ha : a.isFinite = true) (hb : b.isFinite = true)
    (hc : Stands c q) : least a b ≥ c ↔ q ≤ value a ∧ q ≤ value b := by
  have hleast := stands_least ha hb
  rw [ge_iff_le, le_iff hc.finite hleast.finite, hc.value_eq, hleast.value_eq, le_min_iff]

@[simp] theorem Rect.fits_iff {side : Float32} : r.fits cut side = true ↔
    (r.firstPart cut).minSide ≥ side ∧ (r.secondPart cut).minSide ≥ side := by
  simp [fits]

/-- Both parts of a sector whose cut fits are in range and wide enough. -/
theorem Rect.Ranged.parts (h : r.Ranged k) (hk : Scale k)
    (hfits : r.fits cut minCutSide = true) :
    ((r.firstPart cut).Ranged k ∧ (r.firstPart cut).Wide) ∧
      (r.secondPart cut).Ranged k ∧ (r.secondPart cut).Wide := by
  obtain ⟨hacross, hdown⟩ := h
  obtain ⟨axis, share⟩ := cut
  obtain ⟨f, g, hs⟩ := share.parts
  obtain ⟨hfits, hfits'⟩ := fits_iff.1 hfits
  cases axis with
  | vertical =>
    obtain ⟨hw, -⟩ := hacross.part hk hs.first hs.nonneg_first (by linarith [hs.le_first])
    obtain ⟨hw', -⟩ := hacross.part hk hs.second hs.nonneg_second (by linarith [hs.le_second])
    obtain ⟨hfirst, hside⟩ :=
      (le_least_iff hw hdown.finite_extent stands_minCutSide).1 hfits
    obtain ⟨hsecond, -⟩ := (le_least_iff hw' hdown.finite_extent stands_minCutSide).1 hfits'
    exact ⟨⟨⟨hacross.firstPart hs hfirst, hdown⟩, ⟨hfirst, hside⟩⟩,
      ⟨hacross.secondPart hk hs hfirst hsecond, hdown⟩, ⟨hsecond, hside⟩⟩
  | horizontal =>
    obtain ⟨hw, -⟩ := hdown.part hk hs.first hs.nonneg_first (by linarith [hs.le_first])
    obtain ⟨hw', -⟩ := hdown.part hk hs.second hs.nonneg_second (by linarith [hs.le_second])
    obtain ⟨hside, hfirst⟩ :=
      (le_least_iff hacross.finite_extent hw stands_minCutSide).1 hfits
    obtain ⟨-, hsecond⟩ := (le_least_iff hacross.finite_extent hw' stands_minCutSide).1 hfits'
    exact ⟨⟨⟨hacross, hdown.firstPart hs hfirst⟩, ⟨hside, hfirst⟩⟩,
      ⟨hacross, hdown.secondPart hk hs hfirst hsecond⟩, ⟨hside, hsecond⟩⟩

end Sectors
end Parterre
