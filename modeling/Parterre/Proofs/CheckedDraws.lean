import Parterre.Proofs.Amounts
import Parterre.Proofs.Containment
import Parterre.Proofs.FairDraws
import Parterre.Proofs.GridLines

/-! # Draws with checked sums

An integer is drawn by adding an offset, cut down to 32 bits, to the lower end.  From `2 ^ 31` on
the offset is negative then, and the sum wraps around on its way to the right integer; where sums
are checked for overflow, such a draw has no result.  A draw from a range around zero, as the center
of a pond takes it, is safe exactly below `2 ^ 30`, and so are all ponds of a garden whose sides are
below ten times as much. -/
namespace Parterre
open Binary32 Chance

/-! ### Sums in range -/

namespace Chance
variable {lo hi j : Int32}

/-- The sum of two integers, where it is in range. -/
def checkedAdd (a b : Int32) : Option Int32 :=
  if a.toBitVec.saddOverflow b.toBitVec then none else some (a + b)

private theorem checkedAdd_eq (a b : Int32) : checkedAdd a b =
    if (a + b).toInt = a.toInt + b.toInt then some (a + b) else none := by
  unfold checkedAdd
  split
  · next h =>
    have hlow := (a + b).le_toInt
    have hhigh := (a + b).toInt_lt
    rw [BitVec.saddOverflow, Bool.or_eq_true, decide_eq_true_eq, decide_eq_true_eq] at h
    change 2 ^ 31 ≤ a.toInt + b.toInt ∨ a.toInt + b.toInt < -2 ^ 31 at h
    rw [if_neg (by omega)]
  · next h =>
    have hsum : (a + b).toInt = a.toInt + b.toInt := BitVec.toInt_add_of_not_saddOverflow h
    rw [if_pos hsum]

def checkedIntOf (lo hi : Int32) (w : UInt32) : Option Int32 :=
  checkedAdd lo (wideIndexOf (wideSpanOf lo hi) w).toUInt32.toInt32

def checkedDrawInt {σ : Type} [WordSource σ] (lo hi : Int32) (source : σ) : Option (Int32 × σ) :=
  if hi ≤ lo then some (lo, source)
  else
    let (w, source) := WordSource.next source
    (checkedIntOf lo hi w).map fun n => (n, source)

/-- The sum overflows exactly for the offsets that are cut down to a negative number: the integer is
right only modulo `2 ^ 32` then. -/
theorem checkedIntOf_eq (h : lo ≤ hi) (w : UInt32) : checkedIntOf lo hi w =
    if indexOf (spanOf lo hi) w < 2 ^ 31 then some (intOf lo hi w) else none := by
  have hword : (wideIndexOf (wideSpanOf lo hi) w).toUInt32.toInt32 =
      Int32.ofNat (indexOf (spanOf lo hi) w) :=
    Int32.add_right_inj lo |>.1 (wideIntOf_eq h w)
  have hcut : (Int32.ofNat (indexOf (spanOf lo hi) w)).toInt = indexOf (spanOf lo hi) w ↔
      indexOf (spanOf lo hi) w < 2 ^ 31 := by
    have hhigh := (Int32.ofNat (indexOf (spanOf lo hi) w)).toInt_lt
    refine ⟨fun heq => by omega, fun hlt => Int32.toInt_ofNat_of_lt hlt⟩
  have hexact : (intOf lo hi w).toInt =
        lo.toInt + (Int32.ofNat (indexOf (spanOf lo hi) w)).toInt ↔
      indexOf (spanOf lo hi) w < 2 ^ 31 := by
    rw [toInt_intOf h, ← hcut]
    omega
  rw [checkedIntOf, hword, checkedAdd_eq]
  exact if_congr hexact rfl rfl

theorem indexOf_last {n : ℕ} (hn : 0 < n) (hsize : n ≤ UInt32.size) :
    indexOf n 4294967295 = n - 1 := by
  have hword : (4294967295 : UInt32).toNat = 4294967295 := rfl
  have hsize' : UInt32.size = 4294967296 := rfl
  rw [indexOf, hword, hsize']
  omega

/-- No draw overflows exactly if the ends are less than `2 ^ 31` apart. -/
theorem checkedIntOf_eq_some_iff (h : lo ≤ hi) :
    (∀ w, checkedIntOf lo hi w = some (intOf lo hi w)) ↔ hi.toInt - lo.toInt < 2 ^ 31 := by
  have hspan := natCast_spanOf h
  constructor
  · intro hall
    have hlast := hall 4294967295
    rw [checkedIntOf_eq h, indexOf_last (spanOf_pos h) (spanOf_le lo hi)] at hlast
    by_contra hwide
    rw [if_neg (by omega)] at hlast
    cases hlast
  · intro hclose w
    have hindex := indexOf_lt (spanOf_pos h) w
    rw [checkedIntOf_eq h, if_pos (by omega)]

/-- Where no draw overflows, draws with checked sums are the draws of the library. -/
theorem checkedDrawInt_eq {σ : Type} [WordSource σ] (h : hi.toInt - lo.toInt < 2 ^ 31)
    (source : σ) : checkedDrawInt lo hi source = some (drawInt lo hi source) := by
  unfold checkedDrawInt drawInt
  split
  · rfl
  · next hlt =>
    have hle : lo ≤ hi := Int32.le_of_lt (Int32.not_le.1 hlt)
    simp only [(checkedIntOf_eq_some_iff hle).2 h, Option.map_some]

/-! ### Ranges around zero -/

theorem toInt_neg_of_nonneg (h : 0 ≤ j) : (-j).toInt = -j.toInt := by
  have hpos := Int32.le_iff_toInt_le.1 h
  have hlt := j.toInt_lt
  rw [Int32.toInt_zero] at hpos
  rw [Int32.toInt_neg]
  exact Int.bmod_eq_of_le (by omega) (by omega)

theorem neg_le_self (h : 0 ≤ j) : -j ≤ j := by
  have hpos := Int32.le_iff_toInt_le.1 h
  rw [Int32.toInt_zero] at hpos
  rw [Int32.le_iff_toInt_le, toInt_neg_of_nonneg h]
  omega

private theorem natCast_spanOf_neg (h : 0 ≤ j) : (spanOf (-j) j : ℤ) = 2 * j.toInt + 1 := by
  rw [natCast_spanOf (neg_le_self h), toInt_neg_of_nonneg h, sub_neg_eq_add, ← two_mul]

private theorem natCast_indexOf_neg (h : 0 ≤ j) (w : UInt32) :
    (indexOf (spanOf (-j) j) w : ℤ) = w.toNat * (2 * j.toInt + 1) / 2 ^ 32 := by
  rw [← natCast_spanOf_neg h]
  rfl

theorem checkedIntOf_neg_eq_some_iff (h : 0 ≤ j) :
    (∀ w, checkedIntOf (-j) j w = some (intOf (-j) j w)) ↔ j.toInt < 2 ^ 30 := by
  rw [checkedIntOf_eq_some_iff (neg_le_self h), toInt_neg_of_nonneg h]
  omega

end Chance

/-! ### Jitter -/

namespace Binary32
variable {x side : Float32}

theorem truncated_parts (x : Float32) : (parts x).truncated = ⌊|value x|⌋₊ := by
  rw [value_eq_fraction, Parts.truncated_eq, ← Nat.floor_div_eq_div (K := ℚ)]
  congr 1
  split <;> simp [abs_div]

/-- A number that is not negative is rounded down to an integer, up to the largest one. -/
theorem toInt_toInt32 (hx : x.isFinite = true) (hpos : 0 ≤ value x) :
    (toInt32 x).toInt = min (2 ^ 31 - 1) ⌊value x⌋ := by
  have hfloor : ((parts x).truncated : ℤ) = ⌊value x⌋ := by
    rw [truncated_parts, abs_of_nonneg hpos, Int.natCast_floor_eq_floor hpos]
  have hnonneg : 0 ≤ ⌊value x⌋ := Int.floor_nonneg.2 hpos
  have hsigned : (if (parts x).negative then -((parts x).truncated : ℤ) else (parts x).truncated) =
      ⌊value x⌋ := by
    rw [hfloor]
    split
    · next hnegative =>
      have hzero : value x = 0 := by
        refine le_antisymm ?_ hpos
        rw [value_eq_fraction, if_pos hnegative, neg_one_mul, neg_nonpos]
        positivity
      rw [hzero, Int.floor_zero, neg_zero]
    · rfl
  have hnan := not_isNaN_of_isFinite hx
  unfold toInt32 toIntWithin
  simp only [hnan, hx, hsigned, Bool.not_true, Bool.false_eq_true, if_false,
    Int32.toInt_minValue, Int32.toInt_maxValue]
  rw [Int32.toInt_ofInt_of_le (by omega) (by omega)]
  omega

theorem toInt_jitter (hside : side.isFinite = true) (hpos : 0 ≤ value side) :
    (Pond.jitter side).toInt = min (2 ^ 31 - 1) ⌊rounded (value side / 10)⌋ := by
  have hten : Stands 10.0 10 := stands_gridUnit
  have hquotient := stands_div hside hten.finite (by rw [hten.value_eq]; norm_num)
  have hle : |value side / 10| ≤ |value side| := by
    rw [abs_of_nonneg hpos, abs_of_nonneg (by positivity)]
    linarith
  rw [hten.value_eq] at hquotient
  have hquotient := hquotient (hle.trans (abs_value_le_largest side))
  have hnonneg := hquotient.nonneg (by positivity)
  have hfloor := stands_floor hquotient.finite
  rw [Pond.jitter, toInt_toInt32 hfloor.finite, hfloor.value_eq, Int.floor_intCast,
    hquotient.value_eq]
  rw [hfloor.value_eq]
  exact_mod_cast Int.floor_nonneg.2 hnonneg

theorem jitter_nonneg (hside : side.isFinite = true) (hpos : 0 ≤ value side) :
    0 ≤ Pond.jitter side := by
  have hten := rounded_mono (show (0 : ℚ) ≤ value side / 10 by positivity)
  rw [rounded_of_representable representable_zero] at hten
  have hfloor := Int.floor_nonneg.2 hten
  rw [Int32.le_iff_toInt_le, Int32.toInt_zero, toInt_jitter hside hpos]
  omega

/-- Below ten times `2 ^ 30` a side is at least a unit in the last place away from it, and a tenth
of the side is not rounded up to `2 ^ 30`. -/
theorem jitter_lt_iff (hside : side.isFinite = true) (hpos : 0 ≤ value side) :
    (Pond.jitter side).toInt < 2 ^ 30 ↔ value side < 10 * 2 ^ 30 := by
  have hfloor : ⌊rounded (value side / 10)⌋ < 2 ^ 30 ↔ rounded (value side / 10) < 2 ^ 30 := by
    rw [Int.floor_lt]
    norm_num
  have hmin : (Pond.jitter side).toInt < 2 ^ 30 ↔ ⌊rounded (value side / 10)⌋ < 2 ^ 30 := by
    rw [toInt_jitter hside hpos]
    omega
  rw [hmin, hfloor]
  constructor
  · intro hlt
    by_contra hlong
    have hhalf : Representable (2 ^ (30 : ℤ)) := representable_two_zpow (by norm_num)
    have hle := le_rounded hhalf (q := value side / 10) (by norm_num; linarith)
    norm_num at hle hlt
    linarith
  · intro hshort
    have hbelow : value side ≤ (10485759 : ℤ) * 2 ^ (10 : ℤ) :=
      (representable_value side).le_of_lt (by norm_num; linarith) (by norm_num)
    have hlast : Representable ((2 ^ 24 - 1 : ℤ) * 2 ^ (6 : ℤ)) :=
      ⟨2 ^ 24 - 1, 6, by norm_num, by norm_num, by norm_num⟩
    have hle := rounded_le hlast (q := value side / 10) (by norm_num at hbelow ⊢; linarith)
    norm_num at hle ⊢
    linarith

end Binary32

/-! ### Sides of sectors -/

section Sides
variable {p q : ℚ} {rect : Rect}

private theorem Rect.sides_parts (hw : SideUpTo p rect.w) (hh : SideUpTo q rect.h) (cut : Cut) :
    (SideUpTo p (rect.firstPart cut).w ∧ SideUpTo q (rect.firstPart cut).h) ∧
      SideUpTo p (rect.secondPart cut).w ∧ SideUpTo q (rect.secondPart cut).h := by
  obtain ⟨axis, share⟩ := cut
  obtain ⟨f, g, hs⟩ := share.parts
  cases axis with
  | vertical => exact ⟨⟨(hs.sides hw).1, hh⟩, (hs.sides hw).2, hh⟩
  | horizontal => exact ⟨⟨hw, (hs.sides hh).1⟩, hw, (hs.sides hh).2⟩

/-- However often a rectangle is cut, no side gets longer. -/
theorem CutTree.sides_of_mem_leaves {t : CutTree} (hw : SideUpTo p rect.w)
    (hh : SideUpTo q rect.h) {level : ℕ} {l : Leaf} (hl : l ∈ t.leaves rect level) :
    SideUpTo p l.rect.w ∧ SideUpTo q l.rect.h := by
  induction t generalizing rect level with
  | leaf id =>
    obtain rfl := List.mem_singleton.1 hl
    exact ⟨hw, hh⟩
  | cut c first second ihf ihs =>
    obtain ⟨⟨hw₁, hh₁⟩, hw₂, hh₂⟩ := Rect.sides_parts hw hh c
    exact (List.mem_append.1 hl).elim (ihf hw₁ hh₁) (ihs hw₂ hh₂)

end Sides

namespace Engine
variable {σ : Type} [WordSource σ] {e₀ e : Engine σ} {working sector : Rect} {params : Params}
  {id : NodeId}

theorem Begun.working_sides (hbegun : Begun working params e₀) :
    SideUpTo (value working.w) working.w ∧ SideUpTo (value working.h) working.h := by
  obtain ⟨-, hvalid, -⟩ := hbegun.eq_start
  obtain ⟨hfinite, hpositive⟩ := Rect.validateWorking_eq_ok_iff.1 hvalid
  obtain ⟨-, -, hw, hh⟩ := Rect.isFinite_iff.1 hfinite
  simp only [Rect.isPositive, Bool.and_eq_true, decide_eq_true_eq, gt_iff_lt] at hpositive
  exact ⟨⟨hw, ((pos_iff hw).1 hpositive.1).le, le_rfl⟩, hh, ((pos_iff hh).1 hpositive.2).le, le_rfl⟩

theorem Begun.sides (hbegun : Begun working params e₀) (hleads : Leads (fun _ => False) e₀ e)
    (hsector : e.graph.sectorRect? id = some sector) :
    SideUpTo (value working.w) sector.w ∧ SideUpTo (value working.h) sector.h := by
  obtain ⟨t, -, l, hl, rfl⟩ := (hbegun.divided hleads).exists_leaf hsector
  exact CutTree.sides_of_mem_leaves hbegun.working_sides.1 hbegun.working_sides.2 hl

end Engine

namespace Pond
variable {σ : Type} [WordSource σ] {sector : Rect}

def checkedDrawCenter (sector : Rect) (source : σ) : Option (Point × σ) := do
  let (dx, source) ← checkedDrawInt (-jitter sector.w) (jitter sector.w) source
  let (dy, source) ← checkedDrawInt (-jitter sector.h) (jitter sector.h) source
  return (sector.center.add ⟨fromInt dx, fromInt dy⟩, source)

private theorem checkedDrawInt_jitter {bound : ℚ} {side : Float32} (h : SideUpTo bound side)
    (hbound : bound < 10 * 2 ^ 30) (source : σ) :
    checkedDrawInt (-jitter side) (jitter side) source =
      some (drawInt (-jitter side) (jitter side) source) := by
  have hhalf := (jitter_lt_iff h.finite h.nonneg).2 (h.le.trans_lt hbound)
  refine checkedDrawInt_eq ?_ source
  rw [toInt_neg_of_nonneg (jitter_nonneg h.finite h.nonneg)]
  omega

private theorem checkedDrawCenter_eq {p q : ℚ} (hw : SideUpTo p sector.w) (hp : p < 10 * 2 ^ 30)
    (hh : SideUpTo q sector.h) (hq : q < 10 * 2 ^ 30) (source : σ) :
    checkedDrawCenter sector source = some (drawCenter sector source) := by
  rw [checkedDrawCenter, checkedDrawInt_jitter hw hp]
  change ((checkedDrawInt (-jitter sector.h) (jitter sector.h) _).bind _) = _
  rw [checkedDrawInt_jitter hh hq]
  rfl

private theorem stands_longest : Stands 10737418240.0 (10 * 2 ^ 30) :=
  stands_of_parts (n := false) (m := 10485760) (e := 10) ⟨rfl, rfl⟩ (by norm_num)

/-- A draw from `-j` to `j` overflows exactly for the offsets from `2 ^ 31` on, so none does exactly
if `j` is below `2 ^ 30`; the wrapping sum is right for all of them.  The jitter along a side is
below `2 ^ 30` exactly if the side is below ten times as much, and where the working rectangle is
that small, so are all sectors at every state of the derivation: no pond overflows there. -/
theorem jitter_overflows_from_half :
    (∀ j : Int32, 0 ≤ j →
      (∀ w, (wideIntOf (-j) j w).toInt = -j.toInt + w.toNat * (2 * j.toInt + 1) / 2 ^ 32 ∧
        -j ≤ wideIntOf (-j) j w ∧ wideIntOf (-j) j w ≤ j ∧
        checkedIntOf (-j) j w =
          if w.toNat * (2 * j.toInt + 1) / 2 ^ 32 < 2 ^ 31 then some (wideIntOf (-j) j w)
          else none) ∧
      ((∀ w, checkedIntOf (-j) j w = some (wideIntOf (-j) j w)) ↔ j.toInt < 2 ^ 30)) ∧
    (∀ side : Float32, side.isFinite = true → 0.0 < side → 0 ≤ jitter side ∧
      ((jitter side).toInt < 2 ^ 30 ↔ side < 10737418240.0)) ∧
    ∀ (working : Rect) (params : Params) (e₀ e : Engine σ), Engine.Begun working params e₀ →
      Engine.Leads (fun _ => False) e₀ e → working.w < 10737418240.0 →
      working.h < 10737418240.0 → ∀ id sector, e.graph.sectorRect? id = some sector →
      ∀ source : σ, checkedDrawCenter sector source = some (drawCenter sector source) := by
  refine ⟨fun j hj => ?_, fun side hside hpos => ?_, ?_⟩
  · have hle := neg_le_self hj
    have hwide (w : UInt32) := wideIntOf_eq hle w
    simp only [hwide]
    refine ⟨fun w => ⟨?_, (intOf_mem hle w).1, (intOf_mem hle w).2, ?_⟩,
      checkedIntOf_neg_eq_some_iff hj⟩
    · rw [toInt_intOf hle, toInt_neg_of_nonneg hj, natCast_indexOf_neg hj]
    · rw [checkedIntOf_eq hle, ← natCast_indexOf_neg hj]
      exact if_congr (by norm_cast) rfl rfl
  · have hpos := ((pos_iff hside).1 hpos).le
    rw [jitter_lt_iff hside hpos, lt_iff hside stands_longest.finite, stands_longest.value_eq]
    exact ⟨jitter_nonneg hside hpos, Iff.rfl⟩
  · intro working params e₀ e hbegun hleads hw hh id sector hsector source
    obtain ⟨hacross, hdown⟩ := hbegun.sides hleads hsector
    rw [lt_iff hbegun.working_sides.1.finite stands_longest.finite, stands_longest.value_eq] at hw
    rw [lt_iff hbegun.working_sides.2.finite stands_longest.finite, stands_longest.value_eq] at hh
    exact checkedDrawCenter_eq hacross hw hdown hh source

/-- A working rectangle that is long enough for an overflow. -/
def longStrip : Rect := ⟨0.0, 0.0, 10737418240.0, 100.0⟩

/-- The long strip is accepted.  If it is not cut and a pond is dug in it, the last word takes a sum
of `-3221225472`, which wraps around to `2 ^ 30`. -/
theorem jitter_overflows_on_a_long_strip :
    (∃ e, Engine.Begun longStrip { divisions := 0 } (Engine.uncut longStrip 4294967295) ∧
      Engine.Leads (fun _ => False) (Engine.uncut longStrip 4294967295) e ∧
      e.graph.element? 4 = some (.waterCircle ⟨⟨6442450944.0, 60.0⟩, 30.0⟩)) ∧
    checkedDrawCenter longStrip (WordCycle.ofList [4294967295]) = none ∧
    (jitter longStrip.w = 1073741824 ∧
      (-1073741824 : Int32).toInt + (wideIndexOf (wideSpanOf (-1073741824) 1073741824)
        4294967295).toUInt32.toInt32.toInt = -3221225472 ∧
      wideIntOf (-1073741824) 1073741824 4294967295 = 1073741824 ∧
      checkedIntOf (-1073741824) 1073741824 4294967295 = none) ∧
    ¬∀ j : Int32, 0 ≤ j → ∀ w, checkedIntOf (-j) j w = some (wideIntOf (-j) j w) := by
  have hvalid : longStrip.validateWorking = .ok () :=
    Rect.validateWorking_eq_ok_iff.2 (by decide +kernel)
  obtain ⟨hbegun, hleads⟩ := Engine.leads_uncut hvalid 4294967295 2
  have hnone : checkedIntOf (-1073741824) 1073741824 4294967295 = none := by decide
  refine ⟨⟨_, hbegun, hleads, by decide +kernel⟩, by decide +kernel,
    ⟨by decide +kernel, by decide, by decide, hnone⟩, fun hall => ?_⟩
  have hsome := hall 1073741824 (by decide) 4294967295
  rw [hnone] at hsome
  cases hsome

/-- The least jitter that overflows does so at the last word, and the integer is right
nevertheless; in a garden of middling size no pond overflows. -/
theorem jitter_overflows_from_half_least :
    (0 ≤ (1073741824 : Int32) ∧ checkedIntOf (-1073741824) 1073741824 4294967295 = none ∧
      (wideIntOf (-1073741824) 1073741824 4294967295).toInt = 1073741824) ∧
    (0.0 < (580.0 : Float32) ∧ (jitter 580.0).toInt < 2 ^ 30) ∧
    let working : Rect := ⟨10.0, 10.0, 580.0, 480.0⟩
    let e := (Engine.court.performAll () [.run 4]).engine
    Engine.Begun working { divisions := 1 } Engine.court ∧
      Engine.Leads (fun _ => False) Engine.court e ∧
      working.w < 10737418240.0 ∧ working.h < 10737418240.0 ∧
      e.graph.sectorRect? 4 = some ⟨10.0, 10.0, 580.0, 240.0⟩ ∧
      ∀ source : WordCycle, checkedDrawCenter ⟨10.0, 10.0, 580.0, 240.0⟩ source =
        some (drawCenter ⟨10.0, 10.0, 580.0, 240.0⟩ source) := by
  obtain ⟨hdraws, hsides, hgardens⟩ := jitter_overflows_from_half (σ := WordCycle)
  have hlast := (hdraws 1073741824 (by decide)).1 4294967295
  have hside := (hsides 580.0 rfl (by decide +kernel)).2.2 (by decide +kernel)
  refine ⟨⟨by decide, hlast.2.2.2, hlast.1.trans (by decide)⟩, ⟨by decide +kernel, hside⟩, ?_⟩
  intro working e
  have hvalid : working.validateWorking = .ok () :=
    Rect.validateWorking_eq_ok_iff.2 (by decide +kernel)
  have hbegun : Engine.Begun working { divisions := 1 } Engine.court :=
    .create _ (Engine.create_eq_ok_iff.2 ⟨rfl, hvalid, rfl⟩)
  have hleads : Engine.Leads (fun _ => False) Engine.court e :=
    Engine.leads_performAll () (by simp [Call.Within])
  have hw : working.w < 10737418240.0 := by decide +kernel
  have hh : working.h < 10737418240.0 := by decide +kernel
  have hsector : e.graph.sectorRect? 4 = some ⟨10.0, 10.0, 580.0, 240.0⟩ := by decide +kernel
  exact ⟨hbegun, hleads, hw, hh, hsector,
    hgardens _ _ _ _ hbegun hleads hw hh 4 _ hsector⟩

end Pond
end Parterre
