import Parterre.Planting.Terrain
import Parterre.Proofs.Amounts

/-! # The roulette of terrains

A roll loses the weights of the terrains one after the other, until one of them uses it up.  Every
operation on the way is rounded, and rounding keeps the order, so a larger word never draws an
earlier terrain.  A difference of binary32 numbers is never rounded to zero, so a terrain between
the first and the last one is drawn only if it has some weight.  At the two ends this may fail: a
roll of nothing is used up by grass even if grass has no weight, and what rounding leaves over goes
to water even if water has none. -/
namespace Parterre
open Binary32 Chance Float.Model

namespace Binary32
variable {v : ℚ} {a b : Float32}

/-! ### Differences -/

theorem rounded_le_mul (hv : 0 ≤ v) : rounded v ≤ v * (1 + 2 ^ (-24 : ℤ)) + 2 ^ (-150 : ℤ) := by
  have herror := (abs_le.1 (abs_rounded_sub_le_mul v)).2
  rw [abs_of_nonneg hv] at herror
  linarith

theorem stands_take (ha : a.isFinite = true) (hapos : 0 ≤ value a) (hb : b.isFinite = true)
    (hbpos : 0 ≤ value b) : Stands (a - b) (rounded (value a - value b)) := by
  have hale := (abs_le.1 (abs_value_le_largest a)).2
  have hble := (abs_le.1 (abs_value_le_largest b)).2
  exact stands_sub ha hb (abs_le.2 ⟨by linarith, by linarith⟩)

/-- An amount is used up by those that are as large, and by no others. -/
theorem take_le_zero_iff (ha : a.isFinite = true) (hapos : 0 ≤ value a) (hb : b.isFinite = true)
    (hbpos : 0 ≤ value b) : a - b ≤ 0.0 ↔ value a ≤ value b := by
  have hleft := stands_take ha hapos hb hbpos
  rw [le_iff hleft.finite stands_zero.finite, hleft.value_eq, stands_zero.value_eq]
  constructor
  · intro h
    by_contra hlt
    exact h.not_gt (rounded_sub_pos (representable_value a) (representable_value b)
      (not_le.1 hlt))
  · intro h
    exact rounded_le representable_zero (by linarith)

end Binary32

theorem Terrain.mem_all (t : Terrain) : t ∈ all := by cases t <;> decide

namespace TerrainWeights

/-! ### Settling a roll -/

section Settling
variable {entries rest : List (Terrain × Float32)} {t : Terrain} {weight roll roll' : Float32}

/-- Whether all weights are finite, and none of them is negative. -/
def Weighed (entries : List (Terrain × Float32)) : Prop :=
  ∀ e ∈ entries, e.2.isFinite = true ∧ 0 ≤ value e.2

def weightSum (entries : List (Terrain × Float32)) : ℚ := (entries.map fun e => value e.2).sum

@[simp] theorem weightSum_cons :
    weightSum ((t, weight) :: rest) = value weight + weightSum rest := rfl

@[simp] theorem weightSum_append :
    weightSum (entries ++ rest) = weightSum entries + weightSum rest := by
  rw [weightSum, List.map_append, List.sum_append, weightSum, weightSum]

/-- Whether a roll is used up by none of the weights. -/
def Outlasts : List (Terrain × Float32) → Float32 → Prop
  | [], _ => True
  | (_, weight) :: rest, roll => ¬roll - weight ≤ 0.0 ∧ Outlasts rest (roll - weight)

/-- Whether a roll is a finite amount. -/
structure Rolled (roll : Float32) : Prop where
  finite : roll.isFinite = true
  nonneg : 0 ≤ value roll

theorem Weighed.tail (h : Weighed ((t, weight) :: rest)) : Weighed rest :=
  fun e he => h e (List.mem_cons_of_mem _ he)

theorem Weighed.weightSum_nonneg (h : Weighed entries) : 0 ≤ weightSum entries :=
  List.sum_nonneg (List.forall_mem_map.2 fun e he => (h e he).2)

theorem Rolled.stands_take (h : Rolled roll) (hw : Weighed ((t, weight) :: rest)) :
    Stands (roll - weight) (rounded (value roll - value weight)) := by
  obtain ⟨hfinite, hpos⟩ := hw _ List.mem_cons_self
  exact Binary32.stands_take h.finite h.nonneg hfinite hpos

theorem Rolled.take_le_zero_iff (h : Rolled roll) (hw : Weighed ((t, weight) :: rest)) :
    roll - weight ≤ 0.0 ↔ value roll ≤ value weight := by
  obtain ⟨hfinite, hpos⟩ := hw _ List.mem_cons_self
  exact Binary32.take_le_zero_iff h.finite h.nonneg hfinite hpos

theorem Rolled.settle_of_le (h : Rolled roll) (hw : Weighed ((t, weight) :: rest))
    (hle : value roll ≤ value weight) : settle ((t, weight) :: rest) roll = t :=
  if_pos ((h.take_le_zero_iff hw).2 hle)

theorem Rolled.settle_of_lt (h : Rolled roll) (hw : Weighed ((t, weight) :: rest))
    (hlt : value weight < value roll) :
    settle ((t, weight) :: rest) roll = settle rest (roll - weight) :=
  if_neg (mt (h.take_le_zero_iff hw).1 (not_le.2 hlt))

/-- What a larger roll than the first weight has left is a roll again, and more than nothing. -/
theorem Rolled.take (h : Rolled roll) (hw : Weighed ((t, weight) :: rest))
    (hlt : value weight < value roll) :
    Rolled (roll - weight) ∧ 0 < value (roll - weight) := by
  have hleft := h.stands_take hw
  have hpos : 0 < value (roll - weight) := by
    rw [hleft.value_eq]
    exact rounded_sub_pos (representable_value _) (representable_value _) hlt
  exact ⟨⟨hleft.finite, hpos.le⟩, hpos⟩

private theorem settle_mem (entries : List (Terrain × Float32)) (roll : Float32) :
    settle entries roll ∈ entries.map Prod.fst ++ [Terrain.water] := by
  induction entries generalizing roll with
  | nil => exact List.mem_singleton_self _
  | cons e rest ih =>
    obtain ⟨t, weight⟩ := e
    rw [settle]
    split
    · exact List.mem_cons_self
    · exact List.mem_cons_of_mem _ (ih _)

theorem settle_mono (rank : Terrain → ℕ) (hw : Weighed entries)
    (hsorted : (entries.map Prod.fst ++ [Terrain.water]).Pairwise fun s t => rank s ≤ rank t)
    (h : Rolled roll) (h' : Rolled roll') (hle : value roll ≤ value roll') :
    rank (settle entries roll) ≤ rank (settle entries roll') := by
  induction entries generalizing roll roll' with
  | nil => exact le_rfl
  | cons e rest ih =>
    obtain ⟨t, weight⟩ := e
    obtain ⟨hfirst, hrest⟩ := List.pairwise_cons.1 hsorted
    rcases le_or_gt (value roll') (value weight) with hused | hmore
    · rw [h'.settle_of_le hw hused, h.settle_of_le hw (hle.trans hused)]
    · rw [h'.settle_of_lt hw hmore]
      rcases le_or_gt (value roll) (value weight) with hused' | hmore'
      · rw [h.settle_of_le hw hused']
        exact hfirst _ (settle_mem rest _)
      · rw [h.settle_of_lt hw hmore']
        refine ih hw.tail hrest (h.take hw hmore').1 (h'.take hw hmore).1 ?_
        rw [(h.stands_take hw).value_eq, (h'.stands_take hw).value_eq]
        exact rounded_mono (by linarith)

/-- A roll of more than nothing settles on a terrain of some weight, or outlasts all of them. -/
theorem settle_cases (hw : Weighed entries) (h : Rolled roll) (hpos : 0 < value roll) :
    (∃ e ∈ entries, settle entries roll = e.1 ∧ 0 < value e.2) ∨ Outlasts entries roll := by
  induction entries generalizing roll with
  | nil => exact .inr trivial
  | cons e rest ih =>
    obtain ⟨t, weight⟩ := e
    rcases le_or_gt (value roll) (value weight) with hused | hmore
    · exact .inl ⟨_, List.mem_cons_self, h.settle_of_le hw hused, hpos.trans_le hused⟩
    · obtain ⟨hleft, hleftpos⟩ := h.take hw hmore
      rcases ih hw.tail hleft hleftpos with ⟨e, he, hsettle⟩ | hlast
      · rw [h.settle_of_lt hw hmore]
        exact .inl ⟨e, List.mem_cons_of_mem _ he, hsettle⟩
      · exact .inr ⟨mt (h.take_le_zero_iff hw).1 (not_le.2 hmore), hlast⟩

theorem Outlasts.settle_eq (h : Outlasts entries roll) : settle entries roll = .water := by
  induction entries generalizing roll with
  | nil => rfl
  | cons e rest ih =>
    rw [settle, if_neg h.1]
    exact ih h.2

/-- A roll that outlasts all weights is not less than their sum, up to one error for each weight. -/
theorem Outlasts.sum_le (h : Outlasts entries roll) (hw : Weighed entries) (hr : Rolled roll) :
    weightSum entries ≤ value roll +
      entries.length * (value roll * 2 ^ (-24 : ℤ) + 2 ^ (-150 : ℤ)) := by
  induction entries generalizing roll with
  | nil => simpa [weightSum] using hr.nonneg
  | cons e rest ih =>
    obtain ⟨t, weight⟩ := e
    have hmore : value weight < value roll := not_le.1 (mt (hr.take_le_zero_iff hw).2 h.1)
    have hpos := (hw _ List.mem_cons_self).2
    have hleft := (hr.stands_take hw).value_eq
    have hrest := ih h.2 hw.tail (hr.take hw hmore).1
    have herror := (abs_le.1 (abs_rounded_sub_le_mul (value roll - value weight))).2
    have hle : value (roll - weight) ≤ value roll := by
      rw [hleft]
      exact rounded_le (representable_value roll) (by linarith)
    rw [← hleft, abs_of_pos (by linarith)] at herror
    have hfirst := mul_le_mul_of_nonneg_right (sub_le_self (value roll) hpos)
      (two_zpow_pos (-24)).le
    have hothers := mul_le_mul_of_nonneg_right hle (two_zpow_pos (-24)).le
    have herrors := mul_le_mul_of_nonneg_left (add_le_add_left hothers (2 ^ (-150 : ℤ)))
      (Nat.cast_nonneg (α := ℚ) rest.length)
    rw [weightSum_cons, List.length_cons]
    push_cast
    linarith

/-- What no weight uses up: an infinite roll, or one that is not a number. -/
def Endless (roll : Float32) : Prop := roll.toModel.unpack = .notANumber ∨ Boundless roll

theorem endless_ofModel_pack {z : Float.Model.UnpackedFloat}
    (h : z = .notANumber ∨ z = .infinity .positive) : Endless (Float32.ofModel (.pack z)) := by
  rcases h with rfl | h
  · have hfits : Fits .notANumber := trivial
    exact .inl (unpack_ofModel_pack hfits)
  · exact .inr (boundless_ofModel_pack h)

private theorem Endless.not_le_zero (h : Endless roll) : ¬roll ≤ 0.0 := by
  rcases h with h | h
  · intro hle
    obtain ⟨p, -, hp, -⟩ := le_iff_placeOf.1 hle
    rw [placeOf, h] at hp
    cases hp
  · exact h.not_le stands_zero.finite

theorem Endless.take (h : Endless roll) (hw : weight.isFinite = true) :
    Endless (roll - weight) := by
  rcases h with h | h
  · refine endless_ofModel_pack (.inl ?_)
    rw [h]
    rfl
  · exact .inr (h.sub hw)

private theorem Endless.outlasts (hw : ∀ e ∈ entries, e.2.isFinite = true) (h : Endless roll) :
    Outlasts entries roll := by
  induction entries generalizing roll with
  | nil => trivial
  | cons e rest ih =>
    have hleft := h.take (hw _ List.mem_cons_self)
    exact ⟨hleft.not_le_zero, ih (fun e he => hw e (List.mem_cons_of_mem _ he)) hleft⟩

end Settling

/-! ### Rolls -/

section Rolls
variable {w : TerrainWeights} {t : Terrain} {u v word : UInt32}

structure Proper (w : TerrainWeights) : Prop where
  finite (t : Terrain) : (w.weight t).isFinite = true
  nonneg (t : Terrain) : 0.0 ≤ w.weight t

theorem proper_iff : w.Proper ↔
    ∀ t ∈ Terrain.all, (w.weight t).isFinite = true ∧ 0.0 ≤ w.weight t := by
  constructor
  · exact fun h t _ => ⟨h.finite t, h.nonneg t⟩
  · exact fun h => ⟨fun t => (h t t.mem_all).1, fun t => (h t t.mem_all).2⟩

instance : DecidablePred Proper := fun _ => decidable_of_iff _ proper_iff.symm

def roll (w : TerrainWeights) (word : UInt32) : Float32 := unitOf word * w.total

theorem mem_entries_iff {e : Terrain × Float32} : e ∈ w.entries ↔ e.2 = w.weight e.1 := by
  rw [entries, List.mem_map]
  constructor
  · rintro ⟨t, -, rfl⟩
    rfl
  · intro h
    exact ⟨e.1, e.1.mem_all, by rw [← h]⟩

theorem Proper.value_weight_nonneg (h : w.Proper) (t : Terrain) : 0 ≤ value (w.weight t) := by
  have hle := h.nonneg t
  rwa [le_iff stands_zero.finite (h.finite t), stands_zero.value_eq] at hle

theorem Proper.weighed (h : w.Proper) : Weighed w.entries := by
  intro e he
  rw [mem_entries_iff.1 he]
  exact ⟨h.finite e.1, h.value_weight_nonneg e.1⟩

theorem Proper.total_nonneg (h : w.Proper) : 0.0 ≤ w.total :=
  nonneg_add (nonneg_add (nonneg_add (h.nonneg .grass) (h.nonneg .flowers)) (h.nonneg .trees))
    (h.nonneg .water)

private theorem stands_words : Stands 4294967296.0 (2 ^ 32) :=
  stands_of_parts (n := false) (m := 8388608) (e := 9) ⟨rfl, rfl⟩ (by norm_num)

theorem toNat_le_words (word : UInt32) : (word.toNat : ℚ) ≤ 2 ^ (32 : ℤ) := by
  exact_mod_cast word.toNat_lt.le

theorem stands_unitOf (word : UInt32) :
    Stands (unitOf word) (rounded (rounded word.toNat / 2 ^ 32)) := by
  have hword := stands_toFloat32 word
  have hle : rounded word.toNat ≤ 2 ^ (32 : ℤ) :=
    rounded_le (representable_two_zpow (by norm_num)) (toNat_le_words word)
  have hnonneg := le_rounded representable_zero (Nat.cast_nonneg (α := ℚ) word.toNat)
  have hunit := stands_div hword.finite stands_words.finite
    (by rw [stands_words.value_eq]; norm_num)
  rw [hword.value_eq, stands_words.value_eq] at hunit
  refine hunit (abs_le_largest (k := 0) (by norm_num) ?_)
  norm_num at hle ⊢
  rw [abs_of_nonneg (by linarith)]
  linarith

theorem value_unitOf_mem (word : UInt32) :
    0 ≤ value (unitOf word) ∧ value (unitOf word) ≤ 1 := by
  have hle : rounded word.toNat ≤ 2 ^ (32 : ℤ) :=
    rounded_le (representable_two_zpow (by norm_num)) (toNat_le_words word)
  have hnonneg := le_rounded representable_zero (Nat.cast_nonneg (α := ℚ) word.toNat)
  rw [(stands_unitOf word).value_eq]
  norm_num at hle ⊢
  exact ⟨le_rounded representable_zero (by linarith), rounded_le representable_one (by linarith)⟩

private theorem value_unitOf_mono (h : u ≤ v) : value (unitOf u) ≤ value (unitOf v) := by
  have hle : (u.toNat : ℚ) ≤ v.toNat := by exact_mod_cast UInt32.le_iff_toNat_le.1 h
  have hwords := rounded_mono hle
  rw [(stands_unitOf u).value_eq, (stands_unitOf v).value_eq]
  exact rounded_mono (by linarith)

theorem Proper.value_total_nonneg (h : w.Proper) (htotal : w.total.isFinite = true) :
    0 ≤ value w.total :=
  value_nonneg htotal h.total_nonneg

theorem Proper.stands_roll (h : w.Proper) (htotal : w.total.isFinite = true) (word : UInt32) :
    Stands (w.roll word) (rounded (value (unitOf word) * value w.total)) := by
  have hpos := h.value_total_nonneg htotal
  obtain ⟨hnonneg, hle⟩ := value_unitOf_mem word
  have hmost := (abs_le.1 (abs_value_le_largest w.total)).2
  refine stands_mul (stands_unitOf word).finite htotal ?_
  rw [abs_of_nonneg (mul_nonneg hnonneg hpos)]
  exact (mul_le_of_le_one_left hpos hle).trans hmost

theorem Proper.rolled_roll (h : w.Proper) (htotal : w.total.isFinite = true) (word : UInt32) :
    Rolled (w.roll word) := by
  have hroll := h.stands_roll htotal word
  exact ⟨hroll.finite,
    hroll.nonneg (mul_nonneg (value_unitOf_mem word).1 (h.value_total_nonneg htotal))⟩

theorem endless_roll (htotal : Boundless w.total) (word : UInt32) : Endless (w.roll word) := by
  have hunit := (stands_unitOf word).finite
  have hnonneg := (value_unitOf_mem word).1
  change (unitOf word).toModel.unpack.isFinite = true at hunit
  rw [value] at hnonneg
  refine endless_ofModel_pack ?_
  rw [htotal]
  cases hunpack : (unitOf word).toModel.unpack with
  | notANumber => simp [hunpack, UnpackedFloat.isFinite] at hunit
  | infinity s => simp [hunpack, UnpackedFloat.isFinite] at hunit
  | zero s => exact .inl rfl
  | finite s m e hm =>
    cases s with
    | positive => exact .inr rfl
    | negative =>
      have hless : (0 : ℚ) < m * 2 ^ e := mul_pos (by exact_mod_cast hm) (two_zpow_pos e)
      rw [hunpack, number_negative] at hnonneg
      linarith

theorem Proper.terrainOf_mono (h : w.Proper) (hle : u ≤ v) :
    Terrain.all.idxOf (w.terrainOf u) ≤ Terrain.all.idxOf (w.terrainOf v) := by
  rcases nonneg_iff.1 h.total_nonneg with ⟨htotal, hpos⟩ | hbound
  · have hsorted : (w.entries.map Prod.fst ++ [Terrain.water]).Pairwise
        fun s t => Terrain.all.idxOf s ≤ Terrain.all.idxOf t := by
      change (Terrain.all ++ [Terrain.water]).Pairwise _
      decide
    refine settle_mono Terrain.all.idxOf h.weighed hsorted (h.rolled_roll htotal u)
      (h.rolled_roll htotal v) ?_
    change value (w.roll u) ≤ value (w.roll v)
    rw [(h.stands_roll htotal u).value_eq, (h.stands_roll htotal v).value_eq]
    exact rounded_mono (mul_le_mul_of_nonneg_right (value_unitOf_mono hle) hpos)
  · have hwater (word : UInt32) : w.terrainOf word = .water :=
      ((endless_roll hbound word).outlasts fun e he =>
        (mem_entries_iff.1 he).symm ▸ h.finite e.1).settle_eq
    rw [hwater, hwater]

/-- The roulette keeps the order: larger words draw later terrains, so that the words of a terrain
have no gap, and a draw takes one word from the source, the one that decides.  The weights may add
up to more than there are numbers for. -/
theorem roulette_is_monotone (h : w.Proper) :
    (∀ u v : UInt32, u ≤ v →
      Terrain.all.idxOf (w.terrainOf u) ≤ Terrain.all.idxOf (w.terrainOf v)) ∧
    (∀ (t : Terrain) (u v word : UInt32), u ≤ word → word ≤ v →
      w.terrainOf u = t → w.terrainOf v = t → w.terrainOf word = t) ∧
    ∀ {σ : Type} [WordSource σ] (source : σ),
      w.draw source = (w.terrainOf (WordSource.next source).1, (WordSource.next source).2) := by
  refine ⟨fun u v hle => h.terrainOf_mono hle, fun t u v word hlow hhigh hu hv => ?_,
    fun source => rfl⟩
  have hbelow := h.terrainOf_mono hlow
  have habove := h.terrainOf_mono hhigh
  rw [hu] at hbelow
  rw [hv] at habove
  exact (List.idxOf_inj (Terrain.mem_all _)).1 (le_antisymm habove hbelow)

theorem roulette_is_monotone_flowers_only :
    Proper ⟨0.0, 1.0, 0.0, 0.0⟩ ∧
      Terrain.all.idxOf (terrainOf ⟨0.0, 1.0, 0.0, 0.0⟩ 0) ≤
        Terrain.all.idxOf (terrainOf ⟨0.0, 1.0, 0.0, 0.0⟩ 1) := by
  have hproper : Proper ⟨0.0, 1.0, 0.0, 0.0⟩ := by decide +kernel
  exact ⟨hproper, (roulette_is_monotone hproper).1 0 1 (by decide)⟩

/-! ### Terrains without weight -/

/-- What the sums of a total are rounded to. -/
theorem Proper.value_total (h : w.Proper) (htotal : w.total.isFinite = true) :
    value w.total = rounded (rounded (rounded (value w.grass + value w.flowers) + value w.trees) +
      value w.water) := by
  have hbeds := nonneg_add (h.nonneg .grass) (h.nonneg .flowers)
  have hdry := nonneg_add hbeds (h.nonneg .trees)
  have hall := stands_sum hdry (h.nonneg .water) htotal
  have hdryfinite := (isFinite_of_add hdry (h.nonneg .water) htotal).1
  have hbedsfinite := (isFinite_of_add hbeds (h.nonneg .trees) hdryfinite).1
  have hvalue : value w.total = _ := hall.value_eq
  rw [hvalue, (stands_sum hbeds (h.nonneg .trees) hdryfinite).value_eq,
    (stands_sum (h.nonneg .grass) (h.nonneg .flowers) hbedsfinite).value_eq]
  rfl

@[simp] theorem weightSum_entries :
    weightSum w.entries = value w.grass + value w.flowers + value w.trees + value w.water := by
  simp only [weightSum, entries, Terrain.all, List.map_cons, List.map_nil, List.sum_cons,
    List.sum_nil, weight]
  ring

/-- The sum of the weights, up to the errors of the additions. -/
theorem Proper.value_total_le (h : w.Proper) (htotal : w.total.isFinite = true) :
    value w.total ≤ weightSum w.entries * (1 + 2 ^ (-22 : ℤ)) + 2 ^ (-148 : ℤ) := by
  have hgrass := h.value_weight_nonneg .grass
  have hflowers := h.value_weight_nonneg .flowers
  have htrees := h.value_weight_nonneg .trees
  have hwater := h.value_weight_nonneg .water
  simp only [weight] at hgrass hflowers htrees hwater
  have hbeds := rounded_le_mul (add_nonneg hgrass hflowers)
  have hbedspos := le_rounded representable_zero (add_nonneg hgrass hflowers)
  have hdry := rounded_le_mul (add_nonneg hbedspos htrees)
  have hdrypos := le_rounded representable_zero (add_nonneg hbedspos htrees)
  have hall := rounded_le_mul (add_nonneg hdrypos hwater)
  rw [← h.value_total htotal] at hall
  have hleast : (2 : ℚ) ^ (-148 : ℤ) = 4 * 2 ^ (-150 : ℤ) := by norm_num
  have hleastpos := two_zpow_pos (-150)
  rw [hleast, weightSum_entries]
  generalize (2 : ℚ) ^ (-150 : ℤ) = least at *
  norm_num at *
  linarith

/-- A draw settles on a terrain of some weight, has nothing to begin with, or outlasts all
weights. -/
theorem Proper.terrainOf_cases (h : w.Proper) (htotal : w.total.isFinite = true) (word : UInt32) :
    0.0 < w.weight (w.terrainOf word) ∨ w.terrainOf word = .grass ∧ value (w.roll word) = 0 ∨
      w.terrainOf word = .water ∧ Outlasts w.entries (w.roll word) := by
  have hroll := h.rolled_roll htotal word
  rcases hroll.nonneg.eq_or_lt with hzero | hpos
  · have hused := hroll.settle_of_le h.weighed (hzero ▸ h.value_weight_nonneg .grass)
    exact .inr (.inl ⟨hused, hzero.symm⟩)
  · rcases settle_cases h.weighed hroll hpos with ⟨e, he, hsettle, hweight⟩ | hlast
    · left
      rw [mem_entries_iff.1 he] at hweight
      rwa [terrainOf, ← roll, hsettle, pos_iff (h.finite _)]
    · exact .inr (.inr ⟨hlast.settle_eq, hlast⟩)

theorem Proper.roll_pos (h : w.Proper) (htotal : w.total.isFinite = true)
    (hleast : 2 ^ (-100 : ℤ) ≤ value w.total) (hword : word ≠ 0) : 0 < value (w.roll word) := by
  have hone : (1 : ℚ) ≤ word.toNat := by
    have hne : word.toNat ≠ 0 := fun hzero => hword (UInt32.toNat_inj.1 hzero)
    exact_mod_cast Nat.one_le_iff_ne_zero.2 hne
  have hfirst := le_rounded representable_one hone
  have hunit : (2 : ℚ) ^ (-32 : ℤ) ≤ value (unitOf word) := by
    rw [(stands_unitOf word).value_eq]
    refine le_rounded (representable_two_zpow (by norm_num)) ?_
    norm_num
    linarith
  rw [(h.stands_roll htotal word).value_eq]
  have hproduct : (2 : ℚ) ^ (-132 : ℤ) ≤ value (unitOf word) * value w.total := by
    rw [show (-132 : ℤ) = -32 + -100 by norm_num, two_zpow_add]
    exact mul_le_mul hunit hleast (two_zpow_pos _).le (value_unitOf_mem word).1
  exact (two_zpow_pos _).trans_le (le_rounded (representable_two_zpow (by norm_num)) hproduct)

/-- Up to the last words a roll stays well below the total. -/
theorem Proper.roll_le (h : w.Proper) (htotal : w.total.isFinite = true)
    (hword : word < 0xFFFFF000) :
    value (w.roll word) ≤ value w.total * (1 - 2 ^ (-20 : ℤ)) * (1 + 2 ^ (-24 : ℤ)) +
      2 ^ (-150 : ℤ) := by
  have hmost : (word.toNat : ℚ) ≤ ((2 ^ 20 - 1 : ℤ) : ℚ) * 2 ^ (12 : ℤ) := by
    have hlt : word.toNat < 0xFFFFF000 := UInt32.lt_iff_toNat_lt.1 hword
    norm_num
    exact_mod_cast hlt.le
  have hwords := rounded_le ⟨_, 12, by norm_num, by norm_num, rfl⟩ hmost
  have hunit : value (unitOf word) ≤ ((2 ^ 20 - 1 : ℤ) : ℚ) * 2 ^ (-20 : ℤ) := by
    rw [(stands_unitOf word).value_eq]
    refine rounded_le ⟨_, -20, by norm_num, by norm_num, rfl⟩ ?_
    norm_num at hwords ⊢
    linarith
  have hpos := h.value_total_nonneg htotal
  have hnonneg := mul_nonneg (value_unitOf_mem word).1 hpos
  rw [(h.stands_roll htotal word).value_eq]
  refine (rounded_le_mul hnonneg).trans (add_le_add_left ?_ _)
  refine mul_le_mul_of_nonneg_right ?_ (by norm_num)
  rw [mul_comm]
  refine mul_le_mul_of_nonneg_left (hunit.trans_eq ?_) hpos
  norm_num

/-- Only the last words stand for a roll that outlasts all weights, if the total is not tiny. -/
theorem Proper.le_of_outlasts (h : w.Proper) (htotal : w.total.isFinite = true)
    (hleast : 2 ^ (-100 : ℤ) ≤ value w.total) (hlast : Outlasts w.entries (w.roll word)) :
    0xFFFFF000 ≤ word := by
  by_contra hlt
  have hroll := h.roll_le htotal (UInt32.not_le.1 hlt)
  have hsum := hlast.sum_le h.weighed (h.rolled_roll htotal word)
  have htotalle := h.value_total_le htotal
  rw [show w.entries.length = 4 from rfl] at hsum
  -- the roll is short of the total by `2 ^ (-20)` of it, the errors are less than half of that
  have hleast' : (2 : ℚ) ^ (-100 : ℤ) = 2 ^ 50 * 2 ^ (-150 : ℤ) := by norm_num
  have herrors : (2 : ℚ) ^ (-148 : ℤ) = 4 * 2 ^ (-150 : ℤ) := by norm_num
  have hpos := two_zpow_pos (-150)
  rw [hleast'] at hleast
  rw [herrors] at htotalle
  generalize (2 : ℚ) ^ (-150 : ℤ) = least at *
  norm_num at *
  linarith

/-- Only at its two ends does the roulette draw a terrain that has no weight: grass for a roll of
nothing, and water for a roll that outlasts all weights.  If the weights are not tiny altogether,
that takes the first word or one of the last `2 ^ 12`. -/
theorem impossible_terrains_are_drawn_at_the_ends (h : w.Proper) (htotal : w.total.isFinite = true)
    (hnone : ¬0.0 < w.weight (w.terrainOf word)) :
    (w.terrainOf word = .grass ∧ ¬0.0 < w.roll word ∨
      w.terrainOf word = .water ∧ Outlasts w.entries (w.roll word)) ∧
    (2 ^ (-100 : ℤ) ≤ value w.total → word = 0 ∨ 0xFFFFF000 ≤ word) := by
  rcases (h.terrainOf_cases htotal word).resolve_left hnone with ⟨hgrass, hzero⟩ | ⟨hwater, hlast⟩
  · refine ⟨.inl ⟨hgrass, ?_⟩, fun hleast => .inl ?_⟩
    · rw [pos_iff (h.rolled_roll htotal word).finite, hzero]
      exact lt_irrefl _
    · by_contra hword
      exact (h.roll_pos htotal hleast hword).ne' hzero
  · exact ⟨.inr ⟨hwater, hlast⟩, fun hleast => .inr (h.le_of_outlasts htotal hleast hlast)⟩

theorem impossible_terrains_are_drawn_at_the_ends_flowers_only :
    Proper ⟨0.0, 1.0, 0.0, 0.0⟩ ∧ terrainOf ⟨0.0, 1.0, 0.0, 0.0⟩ 0 = .grass ∧
      ¬0.0 < roll ⟨0.0, 1.0, 0.0, 0.0⟩ 0 := by
  have hproper : Proper ⟨0.0, 1.0, 0.0, 0.0⟩ := by decide +kernel
  have htotal : (total ⟨0.0, 1.0, 0.0, 0.0⟩).isFinite = true := by decide +kernel
  have hgrass : terrainOf ⟨0.0, 1.0, 0.0, 0.0⟩ 0 = .grass := by decide +kernel
  have hnone : ¬0.0 < weight ⟨0.0, 1.0, 0.0, 0.0⟩ (terrainOf ⟨0.0, 1.0, 0.0, 0.0⟩ 0) := by
    decide +kernel
  obtain ⟨⟨-, hroll⟩ | ⟨hwater, -⟩, -⟩ :=
    impossible_terrains_are_drawn_at_the_ends hproper htotal hnone
  · exact ⟨hproper, hgrass, hroll⟩
  · rw [hgrass] at hwater
    cases hwater

/-- The first word draws grass where only flowers have some weight, and the last one draws water
where the weight of flowers is so small that rounding adds to the total. -/
theorem roulette_draws_impossible_terrains :
    (Proper ⟨0.0, 1.0, 0.0, 0.0⟩ ∧ (total ⟨0.0, 1.0, 0.0, 0.0⟩).isFinite = true ∧
      0.0 < weight ⟨0.0, 1.0, 0.0, 0.0⟩ .flowers ∧
      terrainOf ⟨0.0, 1.0, 0.0, 0.0⟩ 0 = .grass ∧
      ¬0.0 < weight ⟨0.0, 1.0, 0.0, 0.0⟩ .grass) ∧
    (Proper ⟨1.0, 8.940697e-8, 0.0, 0.0⟩ ∧ (total ⟨1.0, 8.940697e-8, 0.0, 0.0⟩).isFinite = true ∧
      0.0 < weight ⟨1.0, 8.940697e-8, 0.0, 0.0⟩ .grass ∧
      terrainOf ⟨1.0, 8.940697e-8, 0.0, 0.0⟩ 4294967295 = .water ∧
      ¬0.0 < weight ⟨1.0, 8.940697e-8, 0.0, 0.0⟩ .water) := by
  decide +kernel

end Rolls

end TerrainWeights
end Parterre
