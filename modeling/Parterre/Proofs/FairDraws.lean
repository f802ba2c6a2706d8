import Parterre.Proofs.WordRuns

/-! # Fair draws of indices and integers

A word is turned into an index by a product and a shift in 64 bits, and into an integer of a range
by cutting such an index down to 32 bits and adding it to the lower end, with a wrap.  Neither the
product nor the cut loses anything that matters, so both are the rounded-down multiples they stand
for, and each value has its share of the words. -/
namespace Parterre.Chance

/-! ### Draws on machine words -/

/-- The index below `n` that a word stands for, as a 64-bit product and a shift give it. -/
def wideIndexOf (n : UInt64) (w : UInt32) : UInt64 := (w.toUInt64 * n) >>> 32

/-- The number of integers from `lo` to `hi`, counted in 64 bits. -/
def wideSpanOf (lo hi : Int32) : UInt64 := (hi.toInt64 - lo.toInt64 + 1).toUInt64

/-- The integer from `lo` to `hi` that a word stands for: the index is cut down to 32 bits, and the
sum wraps around. -/
def wideIntOf (lo hi : Int32) (w : UInt32) : Int32 :=
  lo + (wideIndexOf (wideSpanOf lo hi) w).toUInt32.toInt32

variable {lo hi : Int32}

/-- Up to `2 ^ 32` the product fits into 64 bits. -/
theorem toNat_wideIndexOf {n : UInt64} (h : n.toNat ≤ UInt32.size) (w : UInt32) :
    (wideIndexOf n w).toNat = indexOf n.toNat w := by
  have hproduct : w.toNat * n.toNat < 2 ^ 64 :=
    calc w.toNat * n.toNat ≤ w.toNat * UInt32.size := Nat.mul_le_mul_left _ h
      _ < UInt32.size * UInt32.size := Nat.mul_lt_mul_of_pos_right w.toNat_lt (by decide)
  rw [wideIndexOf, UInt64.toNat_shiftRight, UInt64.toNat_mul, UInt32.toNat_toUInt64,
    Nat.mod_eq_of_lt hproduct, Nat.shiftRight_eq_div_pow]
  rfl

theorem spanOf_le (lo hi : Int32) : spanOf lo hi ≤ UInt32.size := by
  have hlo := lo.le_toInt
  have hhi := hi.toInt_lt
  change (hi.toInt - lo.toInt + 1).toNat ≤ 4294967296
  omega

theorem natCast_spanOf (h : lo ≤ hi) : (spanOf lo hi : Int) = hi.toInt - lo.toInt + 1 := by
  have := Int32.le_iff_toInt_le.1 h
  exact Int.toNat_of_nonneg (by omega)

theorem spanOf_pos (h : lo ≤ hi) : 0 < spanOf lo hi := by
  have := natCast_spanOf h
  have := Int32.le_iff_toInt_le.1 h
  omega

private theorem toNat_wideSpanOf (h : lo ≤ hi) : (wideSpanOf lo hi).toNat = spanOf lo hi := by
  have hle := Int32.le_iff_toInt_le.1 h
  have hlo := lo.le_toInt
  have hhi := hi.toInt_lt
  have hone : (1 : Int64).toInt = 1 := rfl
  have hspan : (hi.toInt64 - lo.toInt64 + 1).toInt = hi.toInt - lo.toInt + 1 := by
    rw [Int64.toInt_add, Int64.toInt_sub, Int32.toInt_toInt64, Int32.toInt_toInt64, hone,
      Int.bmod_eq_of_le (n := hi.toInt - lo.toInt) (by omega) (by omega)]
    exact Int.bmod_eq_of_le (by omega) (by omega)
  have hpos : (0 : Int64) ≤ hi.toInt64 - lo.toInt64 + 1 := by
    rw [Int64.le_iff_toInt_le, hspan, Int64.toInt_zero]
    omega
  rw [wideSpanOf, Int64.toNat_toUInt64_of_le hpos, Int64.toNatClampNeg, hspan, spanOf]

/-- The offset is cut down modulo `2 ^ 32`, which the wrapping sum does not see. -/
theorem wideIntOf_eq (h : lo ≤ hi) (w : UInt32) : wideIntOf lo hi w = intOf lo hi w := by
  have hindex := toNat_wideIndexOf (toNat_wideSpanOf h ▸ spanOf_le lo hi) w
  rw [toNat_wideSpanOf h] at hindex
  have hcut : (wideIndexOf (wideSpanOf lo hi) w).toUInt32 =
      UInt32.ofNat (indexOf (spanOf lo hi) w) := by
    rw [← UInt32.toNat_inj, UInt64.toNat_toUInt32, hindex, UInt32.toNat_ofNat']
  rw [wideIntOf, hcut, UInt32.toInt32_ofNat', intOf]

/-! ### The integer that is drawn -/

theorem indexOf_mono (n : Nat) {v w : UInt32} (h : v ≤ w) : indexOf n v ≤ indexOf n w :=
  Nat.div_le_div_right (Nat.mul_le_mul_right n (UInt32.le_iff_toNat_le.1 h))

private theorem toInt_add_ofNat {n : Nat} (h : n < spanOf lo hi) :
    (lo + Int32.ofNat n).toInt = lo.toInt + n := by
  have hlo := lo.le_toInt
  have hhi := hi.toInt_lt
  have hsize : Int32.size = 2 ^ 32 := rfl
  unfold spanOf at h
  rw [Int32.toInt_add, Int32.toInt_ofNat', hsize, Int.add_bmod_bmod]
  exact Int.bmod_eq_of_le (by omega) (by omega)

/-- The wrap brings the sum back into the range, so the integer is the lower end and the offset. -/
theorem toInt_intOf (h : lo ≤ hi) (w : UInt32) :
    (intOf lo hi w).toInt = lo.toInt + indexOf (spanOf lo hi) w :=
  toInt_add_ofNat (indexOf_lt (spanOf_pos h) w)

theorem intOf_mem (h : lo ≤ hi) (w : UInt32) : lo ≤ intOf lo hi w ∧ intOf lo hi w ≤ hi := by
  have hindex := indexOf_lt (spanOf_pos h) w
  have hspan := natCast_spanOf h
  rw [Int32.le_iff_toInt_le, Int32.le_iff_toInt_le, toInt_intOf h]
  omega

theorem drawInt_mem {σ : Type} [WordSource σ] (h : lo ≤ hi) (source : σ) :
    lo.toInt ≤ (drawInt lo hi source).1.toInt ∧ (drawInt lo hi source).1.toInt ≤ hi.toInt := by
  rw [← Int32.le_iff_toInt_le, ← Int32.le_iff_toInt_le]
  unfold drawInt
  split
  · exact ⟨Int32.le_refl lo, h⟩
  · exact intOf_mem h _

theorem intOf_eq_iff {v : Int32} (hlo : lo ≤ v) (hhi : v ≤ hi) {w : UInt32} :
    intOf lo hi w = v ↔ indexOf (spanOf lo hi) w = (v.toInt - lo.toInt).toNat := by
  have hle := Int32.le_iff_toInt_le.1 hlo
  rw [← Int32.toInt_inj, toInt_intOf (Int32.le_trans hlo hhi)]
  omega

/-! ### Shares -/

section Shares
variable {α : Type} [DecidableEq α]

/-- How many words a draw turns into a value. -/
def wordCount (draw : UInt32 → α) (a : α) : Nat := (Finset.univ.filter fun w => draw w = a).card

/-- Whether a draw turns into a value as many words as are the share of one value in `n`, rounded
down or up. -/
def HasShare (draw : UInt32 → α) (n : Nat) (a : α) : Prop :=
  wordCount draw a = UInt32.size / n ∨ wordCount draw a = UInt32.size ⌈/⌉ n

end Shares

theorem hasShare_indexOf {n i : Nat} (hi : i < n) : HasShare (indexOf n) n i := by
  have hn : 0 < n := Nat.zero_lt_of_lt hi
  unfold HasShare wordCount
  rw [card_filter_indexOf hi]
  exact eq_div_or_eq_ceilDiv hn (div_le_runLength hn) (runLength_le_ceilDiv hn)

private theorem hasShare_intOf {v : Int32} (hlo : lo ≤ v) (hhi : v ≤ hi) :
    HasShare (intOf lo hi) (spanOf lo hi) v := by
  have hspan := natCast_spanOf (Int32.le_trans hlo hhi)
  have hle := Int32.le_iff_toInt_le.1 hlo
  have hge := Int32.le_iff_toInt_le.1 hhi
  have hcount : wordCount (intOf lo hi) v =
      wordCount (indexOf (spanOf lo hi)) (v.toInt - lo.toInt).toNat :=
    congrArg Finset.card (Finset.filter_congr fun w _ => intOf_eq_iff hlo hhi)
  unfold HasShare
  rw [hcount]
  exact hasShare_indexOf (by omega)

/-- Indices and integers are drawn fairly.  An index is drawn as the 64-bit product and the shift
give it; it is below the number of indices, no smaller for a later word, and each one is drawn by
its share of the words.  An integer of a range is drawn as the product, the cut to 32 bits and the
wrapping sum give it; it is the lower end and the rounded-down multiple of the span, lies in the
range, and each one is drawn by its share of the words.  An empty range, and one of a single
integer, give the lower end without a draw. -/
theorem integers_are_drawn_fairly {σ : Type} [WordSource σ] (source : σ) :
    (∀ n : Nat, 1 ≤ n → n ≤ UInt32.size →
      drawIndex n source =
        ((wideIndexOf (UInt64.ofNat n) (WordSource.next source).1).toNat,
          (WordSource.next source).2) ∧
      (∀ w, (wideIndexOf (UInt64.ofNat n) w).toNat < n) ∧
      (∀ v w, v ≤ w →
        (wideIndexOf (UInt64.ofNat n) v).toNat ≤ (wideIndexOf (UInt64.ofNat n) w).toNat) ∧
      ∀ i < n, HasShare (fun w => (wideIndexOf (UInt64.ofNat n) w).toNat) n i) ∧
    (∀ lo hi : Int32, lo < hi →
      drawInt lo hi source =
        (wideIntOf lo hi (WordSource.next source).1, (WordSource.next source).2) ∧
      (∀ w, (wideIntOf lo hi w).toInt =
          lo.toInt + w.toNat * (hi.toInt - lo.toInt + 1) / 2 ^ 32 ∧
        lo ≤ wideIntOf lo hi w ∧ wideIntOf lo hi w ≤ hi) ∧
      ∀ v, lo ≤ v → v ≤ hi →
        HasShare (wideIntOf lo hi) (hi.toInt - lo.toInt + 1).toNat v) ∧
    ∀ lo hi : Int32, hi ≤ lo → drawInt lo hi source = (lo, source) := by
  refine ⟨fun n hn hsize => ?_, fun lo hi h => ?_, fun lo hi h => if_pos h⟩
  · have hword : (UInt64.ofNat n).toNat = n :=
      UInt64.toNat_ofNat_of_lt (hsize.trans_lt (by decide))
    have hindex : ∀ w, (wideIndexOf (UInt64.ofNat n) w).toNat = indexOf n w := fun w => by
      rw [toNat_wideIndexOf (by rwa [hword]), hword]
    simp only [hindex]
    exact ⟨rfl, indexOf_lt hn, fun v w => indexOf_mono n, fun i => hasShare_indexOf⟩
  · have hle : lo ≤ hi := Int32.le_of_lt h
    have hint : wideIntOf lo hi = intOf lo hi := funext (wideIntOf_eq hle)
    rw [hint]
    refine ⟨if_neg (Int32.not_le.2 h), fun w => ⟨?_, intOf_mem hle w⟩, fun v => hasShare_intOf⟩
    rw [toInt_intOf hle, ← natCast_spanOf hle]
    rfl

/-- The last of three indices has its share, and so has the last of all integers, for which the last
word needs an offset of 32 bits. -/
theorem integers_are_drawn_fairly_widest :
    (1 ≤ 3 ∧ 3 ≤ UInt32.size ∧ HasShare (fun w => (wideIndexOf (UInt64.ofNat 3) w).toNat) 3 2) ∧
      Int32.minValue < Int32.maxValue ∧
      wideIntOf Int32.minValue Int32.maxValue 4294967295 = Int32.maxValue ∧
      HasShare (wideIntOf Int32.minValue Int32.maxValue) 4294967296 Int32.maxValue := by
  have hfair := integers_are_drawn_fairly (WordCycle.ofList [4294967295])
  obtain ⟨-, -, -, hthird⟩ := hfair.1 3 (by decide) (by decide)
  obtain ⟨-, hword, hshare⟩ := hfair.2.1 Int32.minValue Int32.maxValue (by decide)
  have hlast := (hword 4294967295).1.trans (show _ = Int32.maxValue.toInt by decide)
  exact ⟨⟨by decide, by decide, hthird 2 (by decide)⟩, by decide, Int32.toInt_inj.1 hlast,
    hshare Int32.maxValue (by decide) (by decide)⟩

end Parterre.Chance
