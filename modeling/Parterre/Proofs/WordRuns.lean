import Mathlib.Algebra.Order.BigOperators.Group.Finset
import Mathlib.Algebra.Order.Floor.Div
import Mathlib.Data.FinEnum
import Mathlib.GroupTheory.GroupAction.Ring
import Mathlib.Order.Interval.Finset.Nat
import Parterre.Chance.Draw

/-! # Runs of words

The words that stand for an index below `n` follow each other, and so do the runs of the indices:
the words are cut into `n` runs, in the order of the indices.  Where `n` does not divide the number
of words, the runs cannot all be equally long, but no two lengths differ by more than one. -/
namespace Parterre.Chance

/-- The place of the first word that stands for an index or a later one. -/
def runStart (n i : Nat) : Nat := (i * UInt32.size) ⌈/⌉ n

/-- The number of words that stand for an index. -/
def runLength (n i : Nat) : Nat := runStart n (i + 1) - runStart n i

variable {n i : Nat}

theorem runStart_le_iff (hn : 0 < n) {u : Nat} : runStart n i ≤ u ↔ i * UInt32.size ≤ n * u :=
  ceilDiv_le_iff_le_mul hn

theorem le_mul_runStart (hn : 0 < n) : i * UInt32.size ≤ n * runStart n i :=
  (runStart_le_iff hn).1 (Nat.le_refl _)

private theorem runStart_mono (hn : 0 < n) {j : Nat} (h : i ≤ j) : runStart n i ≤ runStart n j :=
  (runStart_le_iff hn).2 ((Nat.mul_le_mul_right _ h).trans (le_mul_runStart hn))

theorem runStart_self (hn : 0 < n) : runStart n n = UInt32.size := by
  refine Nat.le_antisymm ((runStart_le_iff hn).2 (Nat.le_refl _)) ?_
  exact Nat.le_of_mul_le_mul_left (le_mul_runStart hn) hn

theorem indexOf_eq_iff (hn : 0 < n) {w : UInt32} :
    indexOf n w = i ↔ runStart n i ≤ w.toNat ∧ w.toNat < runStart n (i + 1) := by
  have hlow : runStart n i ≤ w.toNat ↔ i ≤ indexOf n w := by
    rw [runStart_le_iff hn, indexOf, Nat.le_div_iff_mul_le (by decide), Nat.mul_comm n]
  have hhigh : w.toNat < runStart n (i + 1) ↔ indexOf n w < i + 1 := by
    rw [← Nat.not_le, runStart_le_iff hn, indexOf, Nat.div_lt_iff_lt_mul (by decide),
      Nat.mul_comm n, Nat.not_le]
  rw [hlow, hhigh]
  omega

/-! ### Lengths -/

theorem ceilDiv_le_div_add_one (total : Nat) (hn : 0 < n) : total ⌈/⌉ n ≤ total / n + 1 :=
  (ceilDiv_le_iff_le_mul hn).2 (Nat.le_of_lt (Nat.lt_mul_div_succ total hn))

theorem div_le_runLength (hn : 0 < n) : UInt32.size / n ≤ runLength n i := by
  have hspan : n * (UInt32.size / n) ≤ UInt32.size := Nat.mul_div_le _ _
  have hend : (i + 1) * UInt32.size ≤ n * runStart n (i + 1) := le_mul_runStart hn
  have hstart : runStart n i ≤ runStart n (i + 1) - UInt32.size / n := by
    rw [runStart_le_iff hn, Nat.mul_sub]
    rw [Nat.add_mul, Nat.one_mul] at hend
    exact Nat.le_sub_of_add_le ((Nat.add_le_add_left hspan _).trans hend)
  have hlate : UInt32.size / n ≤ runStart n (i + 1) := by
    refine Nat.le_of_mul_le_mul_left (hspan.trans (Nat.le_trans ?_ hend)) hn
    exact Nat.le_mul_of_pos_left _ (Nat.succ_pos i)
  rw [runLength]
  omega

theorem runLength_le_ceilDiv (hn : 0 < n) : runLength n i ≤ UInt32.size ⌈/⌉ n := by
  have hspan : UInt32.size ≤ n * (UInt32.size ⌈/⌉ n) :=
    (ceilDiv_le_iff_le_mul hn).1 (Nat.le_refl _)
  have hend : runStart n (i + 1) ≤ runStart n i + UInt32.size ⌈/⌉ n := by
    rw [runStart_le_iff hn, Nat.mul_add, Nat.add_mul, Nat.one_mul]
    exact Nat.add_le_add (le_mul_runStart hn) hspan
  rw [runLength]
  omega

/-- What lies between the two lengths that a run may have is one of them. -/
theorem eq_div_or_eq_ceilDiv (hn : 0 < n) {k : Nat} (hlow : UInt32.size / n ≤ k)
    (hhigh : k ≤ UInt32.size ⌈/⌉ n) : k = UInt32.size / n ∨ k = UInt32.size ⌈/⌉ n := by
  have := ceilDiv_le_div_add_one UInt32.size hn
  omega

/-! ### Counting words -/

theorem card_filter_indexOf (hi : i < n) :
    (Finset.univ.filter fun w : UInt32 => indexOf n w = i).card = runLength n i := by
  have hn : 0 < n := Nat.zero_lt_of_lt hi
  have hend : runStart n (i + 1) ≤ UInt32.size := runStart_self hn ▸ runStart_mono hn hi
  rw [runLength, ← Nat.card_Ico (runStart n i)]
  refine Finset.card_bij (fun w _ => w.toNat) (fun w hw => ?_) (fun v _ w _ h => ?_) fun u hu => ?_
  · exact Finset.mem_Ico.2 ((indexOf_eq_iff hn).1 (Finset.mem_filter.1 hw).2)
  · exact UInt32.toNat_inj.1 h
  · obtain ⟨hlow, hhigh⟩ := Finset.mem_Ico.1 hu
    have hword : (UInt32.ofNat u).toNat = u := UInt32.toNat_ofNat_of_lt (hhigh.trans_le hend)
    refine ⟨UInt32.ofNat u, Finset.mem_filter.2 ⟨Finset.mem_univ _, ?_⟩, hword⟩
    rw [indexOf_eq_iff hn, hword]
    exact ⟨hlow, hhigh⟩

section Items
variable {α : Type} [DecidableEq α]

theorem card_filter_range (xs : List α) (x : α) :
    ((Finset.range xs.length).filter fun i => xs[i]? = some x).card = xs.count x := by
  induction xs using List.reverseRecOn with
  | nil => rfl
  | append_singleton xs y ih =>
    have hfront : ((Finset.range xs.length).filter fun i => (xs ++ [y])[i]? = some x) =
        (Finset.range xs.length).filter fun i => xs[i]? = some x := by
      refine Finset.filter_congr fun i hi => ?_
      rw [List.getElem?_append_left (Finset.mem_range.1 hi)]
    rw [List.length_append, List.length_singleton, Finset.range_add_one, Finset.filter_insert,
      List.getElem?_concat_length, hfront, List.count_append, List.count_singleton]
    by_cases hy : y = x
    · rw [if_pos (congrArg some hy), Finset.card_insert_of_notMem (by simp), ih,
        if_pos (by simp [hy])]
    · rw [if_neg (by simpa using hy), ih, if_neg (by simpa using hy), Nat.add_zero]

/-- The words that draw an item of a list are those of all places where it stands. -/
theorem card_filter_getElem? (xs : List α) (x : α) :
    (Finset.univ.filter fun w : UInt32 => xs[indexOf xs.length w]? = some x).card =
      ∑ i ∈ (Finset.range xs.length).filter (fun i => xs[i]? = some x), runLength xs.length i := by
  rw [Finset.card_eq_sum_card_fiberwise (f := indexOf xs.length)
    (t := (Finset.range xs.length).filter fun i => xs[i]? = some x)]
  · refine Finset.sum_congr rfl fun i hi => ?_
    obtain ⟨hlt, hitem⟩ := Finset.mem_filter.1 hi
    rw [← card_filter_indexOf (Finset.mem_range.1 hlt), Finset.filter_filter]
    refine congrArg Finset.card (Finset.filter_congr fun w _ => ?_)
    exact ⟨And.right, fun hw => ⟨hw.symm ▸ hitem, hw⟩⟩
  · intro w hw
    have hitem := (Finset.mem_filter.1 hw).2
    obtain ⟨hlt, -⟩ := List.getElem?_eq_some_iff.1 hitem
    exact Finset.mem_filter.2 ⟨Finset.mem_range.2 hlt, hitem⟩

/-- An item is drawn by as many words as the places where it stands give it, each of which has the
same share, rounded down or up. -/
theorem card_words_bounds {xs : List α} (hne : xs ≠ []) (x : α) :
    let words := (Finset.univ.filter fun w : UInt32 => xs[indexOf xs.length w]? = some x).card
    xs.count x * (UInt32.size / xs.length) ≤ words ∧
      words ≤ xs.count x * (UInt32.size ⌈/⌉ xs.length) := by
  have hn : 0 < xs.length := List.length_pos_iff.2 hne
  intro words
  rw [show words = _ from card_filter_getElem? xs x, ← card_filter_range xs x]
  constructor
  · exact Finset.card_nsmul_le_sum _ _ _ fun i _ => div_le_runLength hn
  · exact Finset.sum_le_card_nsmul _ _ _ fun i _ => runLength_le_ceilDiv hn

end Items

end Parterre.Chance
