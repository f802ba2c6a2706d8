import Parterre.Proofs.Attempts
import Parterre.Proofs.WordRuns

/-! # Draws of cuts

Whether an area may be cut is asked of all its eligible cuts, but the cut itself is drawn and looked
at anew.  The two agree: if no eligible cut fits then none that is drawn does, and if one fits then
the words that draw it are a sixth of all words or more. -/
namespace Parterre
open Chance

private theorem Cut.length_candidates_le (rect : Rect) : (Cut.candidates rect).length ≤ 6 := by
  unfold Cut.candidates
  split
  · decide
  · split <;> decide

namespace Rect
variable {σ : Type} [WordSource σ] {rect : Rect} {minSide : Float32}

/-- The first word decides which of the eligible cuts is drawn. -/
theorem drawCut_eq {cut : Cut} {source : σ} (h : (Cut.candidates rect)[indexOf
    (Cut.candidates rect).length (WordSource.next source).1]? = some cut) :
    (rect.drawCut source).1 = cut := by
  simp only [drawCut, drawFrom, drawIndex]
  rw [List.getD_eq_getElem?_getD, h, Option.getD_some]

private theorem not_fits_drawCut (h : rect.isCuttable minSide = false) (source : σ) :
    rect.fits (rect.drawCut source).1 minSide = false := by
  have hnone := List.any_eq_false.1 h _ (Production.drawCut_mem source rect)
  simpa using hnone

/-- At least a sixth of the words draw a cut that fits, if there is one. -/
theorem div_six_le_card_fits (h : rect.isCuttable minSide = true) {fed : UInt32 → σ}
    (hfed : ∀ w, (WordSource.next (fed w)).1 = w) : UInt32.size / 6 ≤
      (Finset.univ.filter fun w => rect.fits (rect.drawCut (fed w)).1 minSide = true).card := by
  obtain ⟨cut, hcut, hfits⟩ := List.any_eq_true.1 h
  let xs := Cut.candidates rect
  calc UInt32.size / 6
      ≤ UInt32.size / xs.length :=
        Nat.div_le_div_left (Cut.length_candidates_le rect) (Production.length_candidates_pos rect)
    _ ≤ xs.count cut * (UInt32.size / xs.length) :=
        Nat.le_mul_of_pos_left _ (List.count_pos_iff.2 hcut)
    _ ≤ (Finset.univ.filter fun w : UInt32 => xs[indexOf xs.length w]? = some cut).card :=
        (card_words_bounds (List.ne_nil_of_mem hcut) cut).1
    _ ≤ _ := Finset.card_le_card fun w hw => by
        have hdrawn : (rect.drawCut (fed w)).1 = cut :=
          drawCut_eq (by rw [hfed]; exact (Finset.mem_filter.1 hw).2)
        exact Finset.mem_filter.2 ⟨Finset.mem_univ w, hdrawn ▸ hfits⟩

end Rect

namespace Production
variable {σ : Type} [WordSource σ] {rect : Rect} {depth : Nat} {id : NodeId}

private theorem areaSplit_accepts : (areaSplit (σ := σ)).accepts ⟨id, .area rect depth⟩ = true ↔
    0 < depth ∧ rect.isCuttable minCutSide = true := by
  simp [areaSplit, mayBeCut]

private theorem areaTerminal_accepts :
    (areaTerminal (σ := σ)).accepts ⟨id, .area rect depth⟩ = true ↔
    ¬(areaSplit (σ := σ)).accepts ⟨id, .area rect depth⟩ = true := by
  simp [areaSplit, areaTerminal]

theorem areaSplit_result_eq_applied_iff {g : Graph}
    (he : g.element? id = some (.area rect (depth + 1))) (params : Params) (source : σ) :
    (areaSplit.apply params id g source).result = .applied ↔
      rect.fits (rect.drawCut source).1 minCutSide = true := by
  cases hfits : rect.fits (rect.drawCut source).1 minCutSide with
  | true => exact ⟨fun _ => rfl, fun _ => areaSplit_of_fits he params hfits⟩
  | false => rw [areaSplit_of_sliver he params hfits]; exact ⟨nofun, nofun⟩

/-- The guard of the cut agrees with the cut: an area with divisions left that the guard accepts is
cut by at least a sixth of the words that may be drawn first, and one that it does not accept by no
draw.  Every area is accepted either to be cut or to turn into a terrain, and not both. -/
theorem guard_agrees_with_cut (rect : Rect) (depth : Nat) (id : NodeId) :
    let n : Node := ⟨id, .area rect depth⟩
    (∀ (g : Graph) (params : Params), g.element? id = some n.element → 0 < depth →
      ((areaSplit (σ := σ)).accepts n = true →
        ∀ fed : UInt32 → σ, (∀ w, (WordSource.next (fed w)).1 = w) →
          UInt32.size / 6 ≤ (Finset.univ.filter fun w =>
            (areaSplit.apply params id g (fed w)).result = .applied).card) ∧
      ((areaSplit (σ := σ)).accepts n = false →
        ∀ source : σ, (areaSplit.apply params id g source).result = .rejected)) ∧
    Xor ((areaSplit (σ := σ)).accepts n = true) ((areaTerminal (σ := σ)).accepts n = true) := by
  intro n
  refine ⟨fun g params he hdepth => ⟨fun haccepts fed hfed => ?_, fun haccepts source => ?_⟩, ?_⟩
  · obtain ⟨depth, rfl⟩ := Nat.exists_eq_succ_of_ne_zero (Nat.ne_of_gt hdepth)
    simp only [areaSplit_result_eq_applied_iff he]
    exact Rect.div_six_le_card_fits (areaSplit_accepts.1 haccepts).2 hfed
  · obtain ⟨depth, rfl⟩ := Nat.exists_eq_succ_of_ne_zero (Nat.ne_of_gt hdepth)
    have huncuttable : rect.isCuttable minCutSide = false := by
      refine Bool.eq_false_iff.2 fun hcuttable => ?_
      exact Bool.eq_false_iff.1 haccepts (areaSplit_accepts.2 ⟨hdepth, hcuttable⟩)
    rw [areaSplit_of_sliver he params (Rect.not_fits_drawCut huncuttable source)]
  · by_cases haccepts : (areaSplit (σ := σ)).accepts n = true
    · exact .inl ⟨haccepts, fun h => areaTerminal_accepts.1 h haccepts⟩
    · exact .inr ⟨areaTerminal_accepts.2 haccepts, haccepts⟩

/-- An area that no eligible cut fits, though it has a division left. -/
def stub : Graph := Graph.empty.add (.area ⟨0.0, 0.0, 60.0, 40.0⟩ 1)

/-- A sixth of the words or more cut the strip; none cuts the stub. -/
theorem guard_agrees_with_cut_strip :
    UInt32.size / 6 ≤ (Finset.univ.filter fun w =>
      (areaSplit.apply {} 1 strip (WordCycle.ofList [w])).result = .applied).card ∧
    ∀ source : WordCycle, (areaSplit.apply {} 1 stub source).result = .rejected := by
  have hstrip := (guard_agrees_with_cut (σ := WordCycle) ⟨0.0, 0.0, 80.0, 40.0⟩ 2 1).1 strip {}
    (by decide +kernel) (by decide)
  have hstub := (guard_agrees_with_cut (σ := WordCycle) ⟨0.0, 0.0, 60.0, 40.0⟩ 1 1).1 stub {}
    (by decide +kernel) (by decide)
  exact ⟨hstrip.1 (by decide +kernel) _ fun w => rfl, hstub.2 (by decide +kernel)⟩

end Production
end Parterre
