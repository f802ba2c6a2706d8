import Parterre.Proofs.CutErrors
import Parterre.Proofs.FiniteNodes

/-! # Chains of cuts

Of a rectangle that is cut in two, the first part may be cut again and again, so that its second
part stays at the line of the first cut.  Where that part ends is then a sum of many rounded
numbers, while the line was found by one sum.  As long as the errors stay below the tolerance, the
part still touches the other side of the line. -/
namespace Parterre
open Binary32

/-! ### Parts that are left -/

def Axis.cross : Axis → Axis
  | .vertical => .horizontal
  | .horizontal => .vertical

/-- The side behind a part that a cut along an axis leaves in front. -/
def Axis.behind : Axis → Side
  | .vertical => .right
  | .horizontal => .below

namespace Rect

def beginAcross (r : Rect) : Axis → Float32
  | .vertical => r.x
  | .horizontal => r.y

def extentAcross (r : Rect) : Axis → Float32
  | .vertical => r.w
  | .horizontal => r.h

/-- What is left of a rectangle after a number of cuts along an axis, where each time the second
part is kept and neither the rectangle nor any of these parts is too narrow. -/
inductive Remainder (axis : Axis) (r : Rect) : ℕ → Rect → Prop where
  | whole (hside : r.minSide ≥ minCutSide) : Remainder axis r 0 r
  | cut {n : ℕ} {rest : Rect} (share : Share) (h : Remainder axis r n rest)
      (hside : (rest.secondPart ⟨axis, share⟩).minSide ≥ minCutSide) :
      Remainder axis r (n + 1) (rest.secondPart ⟨axis, share⟩)

section Remainder
variable {r last a b : Rect} {axis : Axis} {n N : ℕ} {k : ℤ} {e d c : ℚ}

theorem minSide_ge_iff (hw : (r.extentAcross axis).isFinite = true)
    (hh : (r.extentAcross axis.cross).isFinite = true) : r.minSide ≥ minCutSide ↔
      35 ≤ value (r.extentAcross axis) ∧ 35 ≤ value (r.extentAcross axis.cross) := by
  cases axis with
  | vertical => exact le_least_iff hw hh stands_minCutSide
  | horizontal => exact (le_least_iff hh hw stands_minCutSide).trans and_comm

theorem secondPart_across (r : Rect) (axis : Axis) (share : Share) :
    (r.secondPart ⟨axis, share⟩).beginAcross axis =
        r.beginAcross axis + r.extentAcross axis * share.fraction ∧
      (r.secondPart ⟨axis, share⟩).extentAcross axis =
        r.extentAcross axis * (1.0 - share.fraction) ∧
      (r.secondPart ⟨axis, share⟩).beginAcross axis.cross = r.beginAcross axis.cross ∧
      (r.secondPart ⟨axis, share⟩).extentAcross axis.cross = r.extentAcross axis.cross := by
  cases axis <;> exact ⟨rfl, rfl, rfl, rfl⟩

theorem firstPart_across (r : Rect) (axis : Axis) (share : Share) :
    (r.firstPart ⟨axis, share⟩).beginAcross axis = r.beginAcross axis ∧
      (r.firstPart ⟨axis, share⟩).extentAcross axis = r.extentAcross axis * share.fraction ∧
      (r.firstPart ⟨axis, share⟩).beginAcross axis.cross = r.beginAcross axis.cross ∧
      (r.firstPart ⟨axis, share⟩).extentAcross axis.cross = r.extentAcross axis.cross := by
  cases axis <;> exact ⟨rfl, rfl, rfl, rfl⟩

private theorem Remainder.minSide_ge (h : r.Remainder axis n last) : r.minSide ≥ minCutSide := by
  induction h with
  | whole hside => exact hside
  | cut _ _ _ ih => exact ih

/-- What is left keeps its place along the axis, and gets shorter across it with each cut. -/
theorem Remainder.extents (h : r.Remainder axis n last)
    (hw : (r.extentAcross axis).isFinite = true)
    (hh : (r.extentAcross axis.cross).isFinite = true) :
    ((last.extentAcross axis).isFinite = true ∧ 35 ≤ value (last.extentAcross axis) ∧
      value (last.extentAcross axis) ≤ (60001 / 100000) ^ n * value (r.extentAcross axis)) ∧
      last.beginAcross axis.cross = r.beginAcross axis.cross ∧
      last.extentAcross axis.cross = r.extentAcross axis.cross := by
  induction h with
  | whole hside => exact ⟨⟨hw, ((minSide_ge_iff hw hh).1 hside).1, by simp⟩, rfl, rfl⟩
  | @cut n rest share _ hside ih =>
    obtain ⟨⟨hfinite, hleast, hle⟩, hbegin, hextent⟩ := ih
    have hdivides := share.divides hfinite hleast
    obtain ⟨-, hacross, hbegin', hextent'⟩ := rest.secondPart_across axis share
    have hfinite' := hacross ▸ hdivides.finite_second
    have hwide := (minSide_ge_iff hfinite' (by rwa [hextent', hextent])).1 hside
    refine ⟨⟨hfinite', hwide.1, ?_⟩, hbegin'.trans hbegin, hextent'.trans hextent⟩
    rw [hacross, pow_succ]
    linarith [hdivides.second_le]

/-- As long as errors are allowed for, the end of what is left drifts off by no more than they. -/
theorem Remainder.drifted (h : r.Remainder axis n last)
    (ha : Allowance k (r.beginAcross axis) (r.extentAcross axis) N e d c)
    (hh : (r.extentAcross axis.cross).isFinite = true) (hn : n ≤ N) :
    Drifted (r.beginAcross axis) (r.extentAcross axis) e d n (last.beginAcross axis)
      (last.extentAcross axis) := by
  induction h with
  | whole hside => exact ha.drifted
  | @cut n rest share h hside ih =>
    have hrest := ih (by omega)
    have hleast := ((h.cut share hside).extents ha.finite_extent hh).1.2.1
    obtain ⟨hbegin, hextent, -, -⟩ := rest.secondPart_across axis share
    rw [hextent] at hleast
    rw [hbegin, hextent]
    exact hrest.cut ha (by omega) share hleast

/-- A span of some length has enough in common with itself. -/
theorem not_overlap_self_le {y h : Float32} (hy : y.isFinite = true) (hh : h.isFinite = true)
    (hlow : -2 ^ k ≤ value y) (hhigh : value y + value h ≤ 2 ^ k) (hscale : k ≤ 14)
    (hneg : -125 ≤ k) (hleast : 35 ≤ value h) :
    ¬overlap y (y + h) y (y + h) ≤ minTouchOverlap := by
  have hfour : Stands minTouchOverlap 4 :=
    stands_of_parts (n := false) (m := 8388608) (e := -21) ⟨rfl, rfl⟩ (by norm_num)
  have hrange : |value y + value h| ≤ 2 ^ k := abs_le.2 ⟨by linarith, by linarith⟩
  have hend := (stands_add hy hh (abs_le_largest (by linarith) hrange)).near hneg hrange
  have hunit := two_zpow_le (show k - 25 ≤ 0 by linarith)
  have hpow := two_zpow_le hscale
  have hendlow := hend.low
  have hendhigh := hend.high
  rw [zpow_zero] at hunit
  norm_num at hpow
  have hleft := stands_least hend.finite hend.finite
  have hright := stands_greatest hy hy
  rw [min_self] at hleft
  rw [max_self] at hright
  have hdifference := stands_sub hleft.finite hright.finite
  rw [hleft.value_eq, hright.value_eq] at hdifference
  have hdifference := hdifference (abs_le_largest (k := 16) (by norm_num)
    (abs_le.2 ⟨by norm_num; linarith, by norm_num; linarith⟩))
  have hlong : 34 ≤ rounded (value (y + h) - value y) :=
    le_rounded (by exact_mod_cast representable_intCast (n := 34) (by norm_num)) (by linarith)
  unfold overlap
  rw [le_iff hdifference.finite hfour.finite, hdifference.value_eq, hfour.value_eq]
  linarith

/-- Rectangles that lie at the same place along an axis touch where one ends close to the begin of
the other. -/
theorem touches_behind (hfinite : (a.beginAcross axis.cross).isFinite = true ∧
      (a.extentAcross axis.cross).isFinite = true)
    (hbegin : b.beginAcross axis.cross = a.beginAcross axis.cross)
    (hextent : b.extentAcross axis.cross = a.extentAcross axis.cross)
    (hlow : -2 ^ k ≤ value (a.beginAcross axis.cross))
    (hhigh : value (a.beginAcross axis.cross) + value (a.extentAcross axis.cross) ≤ 2 ^ k)
    (hscale : k ≤ 14) (hneg : -125 ≤ k) (hleast : 35 ≤ value (a.extentAcross axis.cross))
    (hclose : Close (a.beginAcross axis + a.extentAcross axis) (b.beginAcross axis)) :
    axis.behind.touches a b minTouchOverlap = true := by
  have hgap := (close_iff hclose.2.1 (.inl hclose.1)).1 hclose
  have hoverlap := not_overlap_self_le hfinite.1 hfinite.2 hlow hhigh hscale hneg hleast
  have hcontact : axis.behind.contact a b = overlap (a.beginAcross axis.cross)
      (a.beginAcross axis.cross + a.extentAcross axis.cross) (b.beginAcross axis.cross)
      (b.beginAcross axis.cross + b.extentAcross axis.cross) := by cases axis <;> rfl
  have hdistance : axis.behind.gap a b =
      (a.beginAcross axis + a.extentAcross axis - b.beginAcross axis).abs := by
    cases axis <;> rfl
  rw [hbegin, hextent] at hcontact
  rw [Side.touches, hcontact, hdistance, Bool.and_eq_true, Bool.not_eq_true', Bool.not_eq_true',
    decide_eq_false_iff_not, decide_eq_false_iff_not]
  exact ⟨hgap, hoverlap⟩

private theorem InSquare.across (h : r.InSquare k) (axis : Axis) :
    -2 ^ k ≤ value (r.beginAcross axis) ∧
    value (r.beginAcross axis) + value (r.extentAcross axis) ≤ 2 ^ k := by
  cases axis
  · exact ⟨h.left, h.right⟩
  · exact ⟨h.top, h.bottom⟩

theorem InSquare.mono {j : ℤ} (h : r.InSquare j) (hle : j ≤ k) : r.InSquare k := by
  have hpow := two_zpow_le hle
  exact ⟨(neg_le_neg hpow).trans h.left, (neg_le_neg hpow).trans h.top, h.right.trans hpow,
    h.bottom.trans hpow⟩

theorem validateWorking_across (h : r.validateWorking = .ok ()) (axis : Axis) :
    (r.beginAcross axis).isFinite = true ∧ (r.extentAcross axis).isFinite = true ∧
      0 < value (r.extentAcross axis) := by
  obtain ⟨hfinite, hpositive⟩ := validateWorking_eq_ok_iff.1 h
  obtain ⟨hx, hy, hw, hh⟩ := isFinite_iff.1 hfinite
  simp only [isPositive, Bool.and_eq_true, decide_eq_true_eq, gt_iff_lt] at hpositive
  rw [lt_iff stands_zero.finite hw, lt_iff stands_zero.finite hh, stands_zero.value_eq] at hpositive
  cases axis
  · exact ⟨hx, hw, hpositive.1⟩
  · exact ⟨hy, hh, hpositive.2⟩

/-- What a cut leaves in front: it has room for the other part besides. -/
theorem firstPart_extent {R : Rect} {cut : Cut} (h : R.validateWorking = .ok ())
    (hside : (R.firstPart cut).minSide ≥ minCutSide) :
    (R.extentAcross cut.axis * cut.share.fraction).isFinite = true ∧
      35 ≤ value (R.extentAcross cut.axis * cut.share.fraction) ∧
      35 ≤ value (R.extentAcross cut.axis.cross) ∧
      100000 / 60001 * value (R.extentAcross cut.axis * cut.share.fraction) ≤
        value (R.extentAcross cut.axis) := by
  obtain ⟨axis, share⟩ := cut
  obtain ⟨-, hw, hpos⟩ := validateWorking_across h axis
  obtain ⟨-, hh, -⟩ := validateWorking_across h axis.cross
  obtain ⟨-, hextent, -, hcross⟩ := R.firstPart_across axis share
  obtain ⟨f, g, hs⟩ := share.parts
  obtain ⟨hfinite, -, hle⟩ := (hs.sides ⟨hw, hpos.le, le_rfl⟩).1
  have hwide := (minSide_ge_iff (by rw [hextent]; exact hfinite) (by rw [hcross]; exact hh)).1 hside
  rw [hextent, hcross] at hwide
  -- so the rectangle is not narrow either, and shares of it are what they seem
  have hdivides := share.divides hw (hwide.1.trans hle)
  exact ⟨hfinite, hwide.1, hwide.2, by linarith [hdivides.first_le]⟩

/-- Of a working rectangle that is cut in two, the first part may be cut again and again: what is
left at the line of the first cut touches the second part.  This holds among coordinates up to
2048, and at larger ones as long as the cuts are few and the first part is not too long. -/
theorem parts_touch_after_further_cuts {R : Rect} {cut : Cut} (hvalid : R.validateWorking = .ok ())
    (hsquare : R.InSquare k) (hlast : (R.firstPart cut).Remainder cut.axis n last)
    (hscale : k ≤ 11 ∨ (n + 2) * 2 ^ (k - 25) +
      2 ^ (-22 : ℤ) * value ((R.firstPart cut).extentAcross cut.axis) ≤ 1 / 1024)
    (thickness : Float32) :
    (last.borderBetween (R.secondPart cut) thickness).isSome = true := by
  obtain ⟨hw₀, hleast, hleast', hroom⟩ := firstPart_extent hvalid hlast.minSide_ge
  obtain ⟨axis, share⟩ := cut
  obtain ⟨hbegin, hextent, hbegin', hextent'⟩ := R.firstPart_across axis share
  obtain ⟨hright, -, hright', hright''⟩ := R.secondPart_across axis share
  obtain ⟨hx₀, -, -⟩ := validateWorking_across hvalid axis
  obtain ⟨hy, hh, -⟩ := validateWorking_across hvalid axis.cross
  have hextents := hlast.extents (hextent ▸ hw₀) (hextent' ▸ hh)
  rw [hextent, hbegin', hextent'] at hextents
  obtain ⟨⟨-, hlong, hshort⟩, hlast', hlast''⟩ := hextents
  have hallowance : ∃ j N e d a, R.InSquare j ∧ Allowance j (R.beginAcross axis)
      (R.extentAcross axis * share.fraction) N e d a ∧ n ≤ N := by
    rcases hscale with hnear | hfew
    · have hsquare := hsquare.mono hnear
      obtain ⟨hlow, hhigh⟩ := hsquare.across axis
      norm_num at hlow hhigh
      obtain ⟨N, e, d, a, ha, hn⟩ :=
        exists_allowance hx₀ hw₀ hlow (by linarith) hleast (hlong.trans hshort)
      exact ⟨11, N, e, d, a, hsquare, ha, hn⟩
    · obtain ⟨hlow, hhigh⟩ := hsquare.across axis
      rw [hextent] at hfew
      exact ⟨k, n, _, _, _, hsquare, .of_few hx₀ hw₀ hleast hlow (by linarith) hfew, le_rfl⟩
  obtain ⟨j, N, e, d, a, hsquare, ha, hn⟩ := hallowance
  obtain ⟨hlow, hhigh⟩ := hsquare.across axis.cross
  rw [← hbegin, ← hextent] at ha
  have hclose := (hlast.drifted ha (hextent' ▸ hh) hn).close ha hn
  rw [hbegin, hextent, ← hright] at hclose
  have htouches := touches_behind (a := last) (b := R.secondPart ⟨axis, share⟩)
    (by rw [hlast', hlast'']; exact ⟨hy, hh⟩) (hright'.trans hlast'.symm)
    (hright''.trans hlast''.symm) (by rwa [hlast']) (by rwa [hlast', hlast'']) ha.scale
    ha.neg_125_le (by rwa [hlast'']) hclose
  rw [borderBetween, Option.isSome_map, touchingSide_isSome_iff]
  exact ⟨_, htouches⟩

/-- At a line that lies behind 4096 the errors of six cuts make three units of the last place, which
is more than the tolerance. -/
theorem parts_come_apart_at_a_distance :
    let working : Rect := ⟨3749.93066, 0.0, 903.616882, 40.0⟩
    let right := working.secondPart ⟨.vertical, .threeFifths⟩
    working.validateWorking = .ok () ∧ right.minSide ≥ minCutSide ∧ ∃ last,
      (working.firstPart ⟨.vertical, .threeFifths⟩).Remainder .vertical 5 last ∧
        last.borderBetween right 10.0 = none := by
  intro working right
  have hwhole : (working.firstPart ⟨.vertical, .threeFifths⟩).Remainder .vertical 0 _ :=
    .whole (by decide +kernel)
  have hfirst := hwhole.cut .twoFifths (by decide +kernel)
  have hsecond := hfirst.cut .twoFifths (by decide +kernel)
  have hthird := hsecond.cut .twoFifths (by decide +kernel)
  have hfourth := hthird.cut .twoFifths (by decide +kernel)
  have hlast := hfourth.cut .half (by decide +kernel)
  exact ⟨validateWorking_eq_ok_iff.2 (by decide +kernel), by decide +kernel, _, hlast,
    by decide +kernel⟩

/-- A garden of middling size: the sides differ after two further cuts, and the parts touch. -/
theorem parts_touch_after_further_cuts_middling :
    let working : Rect := ⟨10.0, 10.0, 580.0, 480.0⟩
    let right := working.secondPart ⟨.vertical, .twoFifths⟩
    let last := ((working.firstPart ⟨.vertical, .twoFifths⟩).secondPart
      ⟨.vertical, .twoFifths⟩).secondPart ⟨.vertical, .twoFifths⟩
    working.validateWorking = .ok () ∧ working.InSquare 10 ∧
      (working.firstPart ⟨.vertical, .twoFifths⟩).Remainder .vertical 2 last ∧
      last.right ≠ right.x ∧ (last.borderBetween right 10.0).isSome = true := by
  intro working right last
  have hvalid : working.validateWorking = .ok () :=
    validateWorking_eq_ok_iff.2 (by decide +kernel)
  have hsquare : working.InSquare 10 := Engine.inSquare_middling le_rfl
  have hwhole : (working.firstPart ⟨.vertical, .twoFifths⟩).Remainder .vertical 0 _ :=
    .whole (by decide +kernel)
  have hlast := (hwhole.cut .twoFifths (by decide +kernel)).cut .twoFifths (by decide +kernel)
  exact ⟨hvalid, hsquare, hlast, by decide +kernel, parts_touch_after_further_cuts
    hvalid hsquare hlast (.inl (by norm_num)) 10.0⟩

end Remainder
end Rect
end Parterre
