import Parterre.Proofs.TerrainRoulette

/-! # No terrain is out of reach

Valid parameters give every terrain a weight of at least a sixteenth, and at most one.  The words
stand for rolls that are close to each other, and a roll loses little by rounding on its way, so a
word whose roll lies in the middle of the stretch of a terrain draws that terrain. -/
namespace Parterre
open Binary32 Chance

namespace TerrainWeights

section Middle
variable {before after : List (Terrain × Float32)} {t : Terrain} {weight roll : Float32}

/-- A roll settles on a terrain if it keeps away from the ends of its stretch by one error for each
terrain before. -/
theorem Rolled.settle_middle (h : Rolled roll) (hw : Weighed (before ++ (t, weight) :: after))
    (hroll : value roll ≤ 4)
    (hlow : weightSum before + before.length * 2 ^ (-23 : ℤ) < value roll)
    (hhigh : value roll + before.length * 2 ^ (-23 : ℤ) ≤ weightSum before + value weight) :
    settle (before ++ (t, weight) :: after) roll = t := by
  induction before generalizing roll with
  | nil =>
    refine h.settle_of_le hw ?_
    simpa [weightSum] using hhigh
  | cons e rest ih =>
    obtain ⟨s, first⟩ := e
    rw [List.cons_append] at hw ⊢
    have hrest : Weighed rest := fun e he =>
      hw e (List.mem_append_left _ (List.mem_cons_of_mem _ he))
    have hsum := hrest.weightSum_nonneg
    have hfirst := (hw _ List.mem_cons_self).2
    have herror := two_zpow_pos (-23)
    have herrors := mul_nonneg (Nat.cast_nonneg (α := ℚ) rest.length) herror.le
    rw [weightSum_cons, List.length_cons, Nat.cast_succ, add_one_mul] at hlow hhigh
    have hmore : value first < value roll := by linarith
    have hsmall : |value roll - value first| ≤ 2 ^ (2 : ℤ) := by
      rw [abs_of_pos (by linarith)]
      norm_num
      linarith
    have hleft := (h.stands_take hw).near (by norm_num) hsmall
    have hleftle : value (roll - first) ≤ value roll := by
      rw [(h.stands_take hw).value_eq]
      exact rounded_le (representable_value roll) (by linarith)
    have hleftlow := hleft.low
    have hlefthigh := hleft.high
    norm_num only at hleftlow hlefthigh hlow hhigh
    rw [h.settle_of_lt hw hmore]
    refine ih (h.take hw hmore).1 hw.tail (hleftle.trans hroll) ?_ ?_
    · norm_num only
      linarith
    · norm_num only
      linarith

end Middle

section Rolls
variable {w : TerrainWeights} {x : ℚ}

theorem near_unitOf (word : UInt32) :
    Near (2 ^ (-24 : ℤ)) (unitOf word) (word.toNat / 2 ^ 32) := by
  have hwords : |(word.toNat : ℚ)| ≤ 2 ^ (32 : ℤ) := by
    rw [Nat.abs_cast]
    exact toNat_le_words word
  have hword := abs_le.1 (abs_rounded_sub_le hwords (by norm_num))
  have hnonneg := le_rounded representable_zero (Nat.cast_nonneg (α := ℚ) word.toNat)
  have hle := rounded_le (representable_two_zpow (by norm_num)) (toNat_le_words word)
  have hsmall : |rounded word.toNat / 2 ^ 32| ≤ 2 ^ (0 : ℤ) := by
    rw [abs_of_nonneg (by positivity)]
    norm_num at hle ⊢
    linarith
  have hunit := (stands_unitOf word).near (by norm_num) hsmall
  have hlow := hunit.low
  have hhigh := hunit.high
  norm_num at hlow hhigh hword
  refine ⟨hunit.finite, ?_, ?_⟩ <;> norm_num <;> linarith

theorem exists_unitOf_near {share : ℚ} (hnonneg : 0 ≤ share) (hlt : share < 1) :
    ∃ word : UInt32, |value (unitOf word) - share| ≤ 2 ^ (-23 : ℤ) := by
  have hfloor := Nat.floor_le (mul_nonneg hnonneg (by norm_num : (0 : ℚ) ≤ 2 ^ 32))
  have hfloor' := Nat.lt_floor_add_one (share * 2 ^ 32)
  have hsize : ⌊share * 2 ^ 32⌋₊ < 2 ^ 32 := by
    rw [Nat.floor_lt (mul_nonneg hnonneg (by norm_num))]
    push_cast
    linarith
  obtain ⟨word, hword⟩ : ∃ word : UInt32, word.toNat = ⌊share * 2 ^ 32⌋₊ :=
    ⟨.ofNat _, UInt32.toNat_ofNat_of_lt' hsize⟩
  have hlow := (near_unitOf word).low
  have hhigh := (near_unitOf word).high
  rw [← hword] at hfloor hfloor'
  norm_num at hlow hhigh hfloor hfloor'
  refine ⟨word, abs_le.2 ⟨?_, ?_⟩⟩ <;> norm_num <;> linarith

private theorem Proper.roll_le_total (h : w.Proper) (htotal : w.total.isFinite = true)
    (word : UInt32) : value (w.roll word) ≤ value w.total := by
  rw [(h.stands_roll htotal word).value_eq]
  exact rounded_le (representable_value _)
    (mul_le_of_le_one_left (h.value_total_nonneg htotal) (value_unitOf_mem word).2)

theorem Proper.exists_roll_near (h : w.Proper) (htotal : w.total.isFinite = true)
    (hle : value w.total ≤ 4) (hx : 0 ≤ x) (hlt : x < value w.total) :
    ∃ word : UInt32, |value (w.roll word) - x| ≤ 2 ^ (-20 : ℤ) := by
  have hpos : 0 < value w.total := hx.trans_lt hlt
  obtain ⟨word, hword⟩ :=
    exists_unitOf_near (div_nonneg hx hpos.le) ((div_lt_one hpos).2 hlt)
  obtain ⟨hunit, hunit'⟩ := value_unitOf_mem word
  have hproduct : |value (unitOf word) * value w.total - x| ≤ 2 ^ (-23 : ℤ) * 4 := by
    have hscaled : value (unitOf word) * value w.total - x =
        (value (unitOf word) - x / value w.total) * value w.total := by
      rw [sub_mul, div_mul_cancel₀ x hpos.ne']
    rw [hscaled, abs_mul, abs_of_pos hpos]
    exact mul_le_mul hword hle hpos.le (two_zpow_pos _).le
  have hsmall : |value (unitOf word) * value w.total| ≤ 2 ^ (2 : ℤ) := by
    rw [abs_of_nonneg (mul_nonneg hunit hpos.le)]
    exact (mul_le_of_le_one_left hpos.le hunit').trans (by norm_num; exact hle)
  have hroll := (h.stands_roll htotal word).near (by norm_num) hsmall
  have hlow := hroll.low
  have hhigh := hroll.high
  obtain ⟨hproduct, hproduct'⟩ := abs_le.1 hproduct
  norm_num at hlow hhigh hproduct hproduct'
  refine ⟨word, abs_le.2 ⟨?_, ?_⟩⟩ <;> norm_num <;> linarith

/-! ### Sizable weights -/

/-- Whether a weight is at least a sixteenth and at most one. -/
def IsSizable (x : Float32) : Prop := 0.0625 ≤ x ∧ x ≤ 1.0

instance : DecidablePred IsSizable := fun x => inferInstanceAs (Decidable (0.0625 ≤ x ∧ x ≤ 1.0))

theorem isSizable_iff {x : Float32} :
    IsSizable x ↔ x.isFinite = true ∧ 1 / 16 ≤ value x ∧ value x ≤ 1 :=
  between_iff (stands_of_parts (n := false) (m := 8388608) (e := -27) ⟨rfl, rfl⟩ (by norm_num))
    (by norm_num) stands_one

def Sizable (w : TerrainWeights) : Prop := ∀ t, IsSizable (w.weight t)

theorem Sizable.finite (h : w.Sizable) (t : Terrain) : (w.weight t).isFinite = true :=
  (isSizable_iff.1 (h t)).1

theorem Sizable.least (h : w.Sizable) (t : Terrain) : 1 / 16 ≤ value (w.weight t) :=
  (isSizable_iff.1 (h t)).2.1

private theorem Sizable.most (h : w.Sizable) (t : Terrain) : value (w.weight t) ≤ 1 :=
  (isSizable_iff.1 (h t)).2.2

private theorem Sizable.proper (h : w.Sizable) : w.Proper where
  finite := h.finite
  nonneg t := nonneg_of_value (h.finite t) (by linarith [h.least t])

/-- A further weight takes a sum up to `n` to one up to `n + 1`. -/
theorem IsSizable.add {a b : Float32} {n : ℕ} (hb : IsSizable b) (ha : a.isFinite = true)
    (hpos : 0 ≤ value a) (hle : value a ≤ n) (hn : n ≤ 3) :
    ((a + b).isFinite = true ∧ 0 ≤ value (a + b) ∧ value (a + b) ≤ (n + 1 : ℕ)) ∧
      value a + value b ≤ value (a + b) + 2 ^ (-23 : ℤ) := by
  obtain ⟨hfinite, hleast, hmost⟩ := isSizable_iff.1 hb
  have hn' : (n : ℚ) ≤ 3 := by exact_mod_cast hn
  have hsmall : |value a + value b| ≤ 2 ^ (2 : ℤ) := by
    rw [abs_of_nonneg (by linarith)]
    norm_num
    linarith
  have hsum := stands_add ha hfinite (abs_le_largest (by norm_num) hsmall)
  have hlow := (hsum.near (by norm_num) hsmall).low
  have hwhole : Representable ((n + 1 : ℤ) : ℚ) :=
    representable_intCast (by rw [abs_of_nonneg] <;> omega)
  push_cast at hwhole ⊢
  norm_num only at hlow ⊢
  refine ⟨⟨hsum.finite, hsum.nonneg (by linarith), ?_⟩, by linarith⟩
  rw [hsum.value_eq]
  exact rounded_le hwhole (by linarith)

/-- The total is in range, and short of the sum by three errors at most. -/
theorem Sizable.total (h : w.Sizable) : w.total.isFinite = true ∧ value w.total ≤ 4 ∧
    weightSum w.entries ≤ value w.total + 3 * 2 ^ (-23 : ℤ) := by
  have hgrass := h.least .grass
  obtain ⟨⟨hfinite, hpos, hle⟩, hlow⟩ := (h .flowers).add (n := 1) (h.finite .grass)
    (by linarith) (by simpa using h.most .grass) (by norm_num)
  obtain ⟨⟨hfinite', hpos', hle'⟩, hlow'⟩ := (h .trees).add hfinite hpos hle (by norm_num)
  obtain ⟨⟨hfinite'', -, hle''⟩, hlow''⟩ := (h .water).add hfinite' hpos' hle' (by norm_num)
  refine ⟨hfinite'', hle''.trans_eq (by norm_num), ?_⟩
  rw [weightSum_entries, TerrainWeights.total]
  simp only [weight] at hlow hlow' hlow''
  linarith

private theorem Sizable.total_pos (h : w.Sizable) : 0 < value w.total := by
  obtain ⟨-, -, hsum⟩ := h.total
  have hgrass := h.least .grass
  have hflowers := h.least .flowers
  have htrees := h.least .trees
  have hwater := h.least .water
  rw [weightSum_entries] at hsum
  simp only [weight] at hgrass hflowers htrees hwater
  norm_num only at hsum
  linarith

/-- The terrains before a given one, and those after it. -/
theorem exists_entries_eq (w : TerrainWeights) (t : Terrain) : ∃ before after,
    w.entries = before ++ (t, w.weight t) :: after ∧ before.length ≤ 3 := by
  have hmem : (t, w.weight t) ∈ w.entries := mem_entries_iff.2 rfl
  obtain ⟨before, after, hentries⟩ := List.append_of_mem hmem
  refine ⟨before, after, hentries, ?_⟩
  have hlength := congrArg List.length hentries
  rw [List.length_append, List.length_cons, show w.entries.length = 4 from rfl] at hlength
  omega

/-- The middle of the stretch of a terrain is close to the roll of a word, which draws it. -/
theorem Sizable.exists_word (h : w.Sizable) (t : Terrain) : ∃ word, w.terrainOf word = t := by
  obtain ⟨htotal, hle, hsum⟩ := h.total
  obtain ⟨before, after, hentries, hlength⟩ := w.exists_entries_eq t
  have hlength' : (before.length : ℚ) ≤ 3 := by exact_mod_cast hlength
  have hweighed := h.proper.weighed
  rw [hentries] at hweighed hsum
  have hbefore : Weighed before := fun e he => hweighed e (List.mem_append_left _ he)
  have hafter : Weighed after := fun e he =>
    hweighed e (List.mem_append_right _ (List.mem_cons_of_mem _ he))
  have hbeforepos := hbefore.weightSum_nonneg
  have hafterpos := hafter.weightSum_nonneg
  have hleast := h.least t
  rw [weightSum_append, weightSum_cons] at hsum
  norm_num only at hsum
  obtain ⟨word, hword⟩ := h.proper.exists_roll_near htotal hle
    (x := weightSum before + value (w.weight t) / 2) (by linarith) (by linarith)
  have hroll := h.proper.rolled_roll htotal word
  obtain ⟨hlow, hhigh⟩ := abs_le.1 hword
  norm_num only at hlow hhigh
  refine ⟨word, ?_⟩
  change settle w.entries (w.roll word) = t
  rw [hentries]
  refine hroll.settle_middle hweighed ((h.proper.roll_le_total htotal word).trans hle) ?_ ?_
  · norm_num only
    linarith
  · norm_num only
    linarith

end Rolls

/-! ### The weights of parameters -/

section Params
variable {p : Params} {bias : Float32}

theorem isBias_iff : Params.isBias bias = true ↔
    bias.isFinite = true ∧ 0 ≤ value bias ∧ value bias ≤ 1 := by
  rw [Params.isBias, Bool.and_eq_true, decide_eq_true_iff, decide_eq_true_iff]
  exact between_iff stands_zero le_rfl stands_one

/-- A bias lifts a weight from its floor, but not above one. -/
theorem isSizable_biased {floor share : Float32} {p q : ℚ} (hfloor : Stands floor p)
    (hp : 1 / 16 ≤ p) (hshare : Stands share q) (hq : 0 ≤ q) (hsum : p + q ≤ 3 / 4)
    (hbias : Params.isBias bias = true) : IsSizable (floor + share * bias) := by
  obtain ⟨hfinite, hpos, hle⟩ := isBias_iff.1 hbias
  have hliftpos := mul_nonneg hq hpos
  have hliftle := mul_le_of_le_one_right hq hle
  have hsmall : |value share * value bias| ≤ 2 ^ (0 : ℤ) := by
    rw [hshare.value_eq, abs_of_nonneg hliftpos]
    norm_num
    linarith
  have hlift := stands_mul hshare.finite hfinite (abs_le_largest (by norm_num) hsmall)
  have hhigh := (hlift.near (by norm_num) hsmall).high
  have hlow := hlift.nonneg (hshare.value_eq ▸ hliftpos)
  rw [hshare.value_eq] at hhigh
  norm_num only at hhigh
  have hsmall : |value floor + value (share * bias)| ≤ 2 ^ (0 : ℤ) := by
    rw [hfloor.value_eq, abs_of_nonneg (by linarith)]
    norm_num
    linarith
  have hweight := stands_add hfloor.finite hlift.finite (abs_le_largest (by norm_num) hsmall)
  have hleast : Representable (2 ^ (-4 : ℤ)) := representable_two_zpow (by norm_num)
  rw [hfloor.value_eq] at hweight
  refine isSizable_iff.2 ⟨hweight.finite, ?_, ?_⟩
  · rw [hweight.value_eq, show (1 / 16 : ℚ) = 2 ^ (-4 : ℤ) by norm_num]
    exact le_rounded hleast (by norm_num; linarith)
  · rw [hweight.value_eq]
    exact rounded_le representable_one (by linarith)

theorem validate_eq_ok_iff : p.validate = .ok () ↔ (1 ≤ p.pathsIntensity ∧ p.pathsIntensity ≤ 5) ∧
    Params.isBias p.flowersBias = true ∧ Params.isBias p.treesBias = true := by
  unfold Params.validate
  grind

private theorem sizable_ofParams (h : p.validate = .ok ()) : (ofParams p).Sizable := by
  obtain ⟨⟨hleast, hmost⟩, hflowers, htrees⟩ := validate_eq_ok_iff.1 h
  have hbias : Stands 0.55 (9227469 / 2 ^ 24) :=
    stands_of_parts (n := false) (m := 9227469) (e := -24) ⟨rfl, rfl⟩ (by norm_num)
  have hfloor : Stands 0.08 (10737418 / 2 ^ 27) :=
    stands_of_parts (n := false) (m := 10737418) (e := -27) ⟨rfl, rfl⟩ (by norm_num)
  have hfloor' : Stands 0.10 (13421773 / 2 ^ 27) :=
    stands_of_parts (n := false) (m := 13421773) (e := -27) ⟨rfl, rfl⟩ (by norm_num)
  intro t
  cases t with
  | grass => exact isSizable_iff.2 ⟨hbias.finite, by norm_num [ofParams, weight, hbias.value_eq]⟩
  | flowers =>
    exact isSizable_biased hfloor (by norm_num) hbias (by norm_num) (by norm_num) hflowers
  | trees => exact isSizable_biased hfloor' (by norm_num) hbias (by norm_num) (by norm_num) htrees
  | water =>
    obtain ⟨divisions, paths, flowers, trees⟩ := p
    change IsSizable (0.06 + 0.12 * (1.0 - (fromNat paths - 2.0) / 5.0))
    -- there are five intensities
    have hall : ∀ n ∈ List.range' 1 5,
        IsSizable (0.06 + 0.12 * (1.0 - (fromNat n - 2.0) / 5.0)) := by
      decide +kernel
    exact hall paths (List.mem_range'_1.2 ⟨hleast, by simpa [Nat.lt_succ_iff] using hmost⟩)

/-- Whatever valid parameters are chosen, all terrains have a positive weight, the total is a
positive number, and each terrain is drawn by some word. -/
theorem all_terrains_are_in_reach (h : p.validate = .ok ()) :
    (∀ t, ((ofParams p).weight t).isFinite = true ∧ 0.0 < (ofParams p).weight t) ∧
    (ofParams p).total.isFinite = true ∧ 0.0 < (ofParams p).total ∧
    ∀ t : Terrain, ∃ word : UInt32, (ofParams p).terrainOf word = t ∧
      ∀ {σ : Type} [WordSource σ] (source : σ),
        (WordSource.next source).1 = word → ((ofParams p).draw source).1 = t := by
  have hw := sizable_ofParams h
  obtain ⟨htotal, -, -⟩ := hw.total
  refine ⟨fun t => ⟨hw.finite t, ?_⟩, htotal, ?_, fun t => ?_⟩
  · rw [pos_iff (hw.finite t)]
    linarith [hw.least t]
  · rw [pos_iff htotal]
    exact hw.total_pos
  · obtain ⟨word, hword⟩ := hw.exists_word t
    refine ⟨word, hword, fun source hnext => ?_⟩
    rw [← hword, ← hnext]
    rfl

theorem all_terrains_are_in_reach_least_biased :
    (⟨0, 5, -0.0, 1e-45⟩ : Params).validate = .ok () ∧
      ∀ t, ∃ word, (ofParams ⟨0, 5, -0.0, 1e-45⟩).terrainOf word = t := by
  have hvalid : (⟨0, 5, -0.0, 1e-45⟩ : Params).validate = .ok () :=
    validate_eq_ok_iff.2 (by decide +kernel)
  obtain ⟨-, -, -, hreach⟩ := all_terrains_are_in_reach hvalid
  exact ⟨hvalid, fun t => (hreach t).imp fun _ hword => hword.1⟩

end Params

end TerrainWeights
end Parterre
