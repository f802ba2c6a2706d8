import Parterre.Proofs.Expansions

/-! # Attempts at an expansion

How a standard production deals with any node of any graph, whether or not its guard was asked.  It
passes over a node that it has nothing to expand at; a cut that was drawn but leaves a sliver is
rejected; everything else is applied.  Only what is applied touches the graph, and the only draw of
an attempt that fails is the one of a rejected cut. -/
namespace Parterre
open Chance

namespace Production
variable {σ : Type} [WordSource σ]

/-- Whether a production has nothing to expand at a node: the node is missing or carries another
symbol, or it is to be cut and has no divisions left. -/
def PassesOver (p : Production σ) (g : Graph) (id : NodeId) : Prop :=
  g.element? id = none ∨ ∃ e, g.element? id = some e ∧
    (e.symbol ≠ p.symbol ∨ p = areaSplit ∧ ∃ rect, e = .area rect 0)

/-- Whether a production cuts an area with divisions left, and the cut drawn leaves a sliver. -/
def Misfits (p : Production σ) (g : Graph) (id : NodeId) (source : σ) : Prop :=
  p = areaSplit ∧ ∃ rect depth, g.element? id = some (.area rect (depth + 1)) ∧
    rect.fits (rect.drawCut source).1 minCutSide = false

inductive Attempt (p : Production σ) (g : Graph) (id : NodeId) (source : σ) :
    Work σ Outcome → Prop where
  | passedOver (h : p.PassesOver g id) : Attempt p g id source (leave g source)
  | rejected (notes : List Note) (h : p.Misfits g id source) :
    Attempt p g id source ⟨.rejected, g, (WordSource.next source).2, notes⟩
  | applied {work : Work σ Outcome} (hresult : work.result = .applied)
      (hexpands : ¬p.PassesOver g id) (hfits : ¬p.Misfits g id source) :
    Attempt p g id source work

section Attempts
variable {p : Production σ} {g : Graph} {id : NodeId} {source : σ} {e : Element}

theorem not_passesOver (he : g.element? id = some e) (hsymbol : e.symbol = p.symbol)
    (hcut : p = areaSplit → ∀ rect, e ≠ .area rect 0) : ¬p.PassesOver g id := by
  rintro (hnone | ⟨e', he', h⟩)
  · simp [he] at hnone
  · obtain rfl : e = e' := Option.some.inj (he.symm.trans he')
    rcases h with h | ⟨hp, rect, hrect⟩
    · exact h hsymbol
    · exact hcut hp rect hrect

theorem Misfits.not_passesOver (h : p.Misfits g id source) : ¬p.PassesOver g id := by
  obtain ⟨rfl, rect, depth, he, -⟩ := h
  exact Production.not_passesOver he rfl fun _ rect' => by simp

/-- A node without the symbol of a production is left as it is. -/
theorem apply_eq_leave (hp : p ∈ standard) (h : ∀ e, g.element? id = some e → e.symbol ≠ p.symbol)
    (params : Params) (source : σ) : p.apply params id g source = leave g source := by
  simp only [standard, List.mem_cons, List.not_mem_nil, or_false] at hp
  rcases hp with rfl | rfl | rfl | rfl | rfl | rfl
  all_goals
    simp only [gardenSplit, areaSplit, areaTerminal, roseBeds, fountainCourt, pathNetwork]
    split
    · next he => exact absurd rfl (h _ he)
    · rfl

/-- Every node with the symbol of a production is expanded, unless it is to be cut. -/
theorem result_eq_applied (hp : p ∈ standard) (hne : p ≠ areaSplit) (he : g.element? id = some e)
    (hsymbol : e.symbol = p.symbol) (params : Params) (source : σ) :
    (p.apply params id g source).result = .applied := by
  simp only [standard, List.mem_cons, List.not_mem_nil, or_false] at hp
  rcases hp with rfl | rfl | rfl | rfl | rfl | rfl
  case inr.inl => exact absurd rfl hne
  all_goals
    cases e <;> simp only [gardenSplit, areaTerminal, roseBeds, fountainCourt, pathNetwork,
      Element.symbol, reduceCtorEq] at hsymbol
    simp only [gardenSplit, areaTerminal, roseBeds, fountainCourt, pathNetwork, he]

section Cuts
variable {rect : Rect} {depth : Nat}

theorem areaSplit_of_fits (he : g.element? id = some (.area rect (depth + 1))) (params : Params)
    (hfits : rect.fits (rect.drawCut source).1 minCutSide = true) :
    (areaSplit.apply params id g source).result = .applied := by
  simp only [areaSplit, he, if_pos hfits]

theorem areaSplit_of_sliver (he : g.element? id = some (.area rect (depth + 1))) (params : Params)
    (hsliver : rect.fits (rect.drawCut source).1 minCutSide = false) :
    areaSplit.apply params id g source =
      ⟨.rejected, g, (WordSource.next source).2, [.sliver (rect.drawCut source).1 id]⟩ := by
  simp only [areaSplit, he, hsliver]
  rfl

private theorem areaSplit_attempt (he : g.element? id = some (.area rect depth)) (params : Params) :
    areaSplit.Attempt g id source (areaSplit.apply params id g source) := by
  cases depth with
  | zero =>
    have hleave : areaSplit.apply params id g source = leave g source := by
      simp only [areaSplit, he]
    exact hleave ▸ .passedOver (.inr ⟨_, he, .inr ⟨rfl, rect, rfl⟩⟩)
  | succ depth =>
    cases hfits : rect.fits (rect.drawCut source).1 minCutSide with
    | true =>
      refine .applied (areaSplit_of_fits he params hfits)
        (not_passesOver he rfl fun _ _ => by simp) ?_
      rintro ⟨-, rect', depth', he', hsliver⟩
      obtain ⟨rfl, -⟩ : rect = rect' ∧ depth = depth' := by simpa [he] using he'
      simp [hfits] at hsliver
    | false =>
      rw [areaSplit_of_sliver he params hfits]
      exact .rejected _ ⟨rfl, rect, depth, he, hfits⟩

end Cuts

theorem attempt (hp : p ∈ standard) (params : Params) (g : Graph) (id : NodeId) (source : σ) :
    p.Attempt g id source (p.apply params id g source) := by
  by_cases hkind : ∃ e, g.element? id = some e ∧ e.symbol = p.symbol
  · obtain ⟨e, he, hsymbol⟩ := hkind
    by_cases hcut : p = areaSplit
    · subst hcut
      cases e <;> simp only [areaSplit, Element.symbol, reduceCtorEq] at hsymbol
      exact areaSplit_attempt he params
    · exact .applied (result_eq_applied hp hcut he hsymbol params source)
        (not_passesOver he hsymbol fun h => absurd h hcut) fun h => hcut h.1
  · have hother (e : Element) (he : g.element? id = some e) : e.symbol ≠ p.symbol :=
      fun hsymbol => hkind ⟨e, he, hsymbol⟩
    rw [apply_eq_leave hp hother params source]
    refine .passedOver ?_
    cases he : g.element? id with
    | none => exact .inl he
    | some e => exact .inr ⟨e, he, .inl (hother e he)⟩

namespace Attempt
variable {work : Work σ Outcome}

theorem skipped_iff (h : p.Attempt g id source work) :
    work.result = .skipped ↔ p.PassesOver g id := by
  cases h with
  | passedOver hpasses => exact ⟨fun _ => hpasses, fun _ => rfl⟩
  | rejected notes hmisfits => exact ⟨nofun, fun hpasses => absurd hpasses hmisfits.not_passesOver⟩
  | applied hresult hexpands => rw [hresult]; exact ⟨nofun, fun hpasses => absurd hpasses hexpands⟩

theorem rejected_iff (h : p.Attempt g id source work) :
    work.result = .rejected ↔ p.Misfits g id source := by
  cases h with
  | passedOver hpasses =>
    exact ⟨nofun, fun hmisfits => absurd hpasses hmisfits.not_passesOver⟩
  | rejected notes hmisfits => exact ⟨fun _ => hmisfits, fun _ => rfl⟩
  | applied hresult hexpands hfits =>
    rw [hresult]
    exact ⟨nofun, fun hmisfits => absurd hmisfits hfits⟩

private theorem eq_of_skipped (h : p.Attempt g id source work) (hskipped : work.result = .skipped) :
    work.graph = g ∧ work.source = source := by
  cases h with
  | passedOver => exact ⟨rfl, rfl⟩
  | rejected => cases hskipped
  | applied hresult => cases hresult.symm.trans hskipped

private theorem eq_of_rejected (h : p.Attempt g id source work)
    (hrejected : work.result = .rejected) :
    work.graph = g ∧ work.source = (WordSource.next source).2 := by
  cases h with
  | passedOver => cases hrejected
  | rejected => exact ⟨rfl, rfl⟩
  | applied hresult => cases hresult.symm.trans hrejected

private theorem applied_of_not (h : p.Attempt g id source work) (hexpands : ¬p.PassesOver g id)
    (hfits : ¬p.Misfits g id source) : work.result = .applied := by
  cases h with
  | passedOver hpasses => exact absurd hpasses hexpands
  | rejected notes hmisfits => exact absurd hmisfits hfits
  | applied hresult => exact hresult

end Attempt

/-- An attempt is skipped just where the production passes over the node, and then it changes
neither the graph nor the source; it is rejected just where a cut drawn leaves a sliver, and then it
has drawn one word and not changed the graph; otherwise it is applied. -/
theorem unsuccessful_attempts_change_nothing (hp : p ∈ standard) (params : Params) (g : Graph)
    (id : NodeId) (source : σ) :
    let work := p.apply params id g source
    (work.result = .skipped ↔ p.PassesOver g id) ∧
    (work.result = .skipped → work.graph = g ∧ work.source = source) ∧
    (work.result = .rejected ↔ p.Misfits g id source) ∧
    (work.result = .rejected → work.graph = g ∧ work.source = (WordSource.next source).2) ∧
    (¬p.PassesOver g id → ¬p.Misfits g id source → work.result = .applied) := by
  intro work
  have hattempt : p.Attempt g id source work := attempt hp params g id source
  exact ⟨hattempt.skipped_iff, hattempt.eq_of_skipped, hattempt.rejected_iff,
    hattempt.eq_of_rejected, hattempt.applied_of_not⟩

end Attempts

/-- A strip that only even cuts fit. -/
def strip : Graph := Graph.empty.add (.area ⟨0.0, 0.0, 80.0, 40.0⟩ 2)

/-- The strip is not cut by a draw of two uneven parts, is cut by a draw of two even ones, and is
nothing for any other production to expand. -/
theorem unsuccessful_attempts_change_nothing_strip :
    let uneven := WordCycle.ofList [2147483648, 5]
    let even := WordCycle.ofList [5, 2147483648]
    let cut := areaSplit.apply {} 1 strip
    ((cut uneven).result = .rejected ∧ (cut uneven).graph = strip ∧
      (cut uneven).source = (WordSource.next uneven).2) ∧
    (cut even).result = .applied ∧
    (roseBeds.apply {} 1 strip even).result = .skipped ∧
    (roseBeds.apply {} 2 strip even).result = .skipped := by
  intro uneven even cut
  have hnode : strip.element? 1 = some (.area ⟨0.0, 0.0, 80.0, 40.0⟩ 2) := by decide +kernel
  have hcut : areaSplit (σ := WordCycle) ∈ standard := by simp [standard]
  have hroses : roseBeds (σ := WordCycle) ∈ standard := by simp [standard]
  have hsliver : areaSplit.Misfits strip 1 uneven :=
    ⟨rfl, _, 1, hnode, by decide +kernel⟩
  obtain ⟨-, -, hrejected, hkept, -⟩ := unsuccessful_attempts_change_nothing hcut {} strip 1 uneven
  obtain ⟨-, -, -, -, happlied⟩ := unsuccessful_attempts_change_nothing hcut {} strip 1 even
  refine ⟨⟨hrejected.2 hsliver, hkept (hrejected.2 hsliver)⟩, happlied ?_ ?_, ?_, ?_⟩
  · exact not_passesOver hnode rfl fun _ _ => by simp
  · rintro ⟨-, rect, depth, hrect, hmisfit⟩
    obtain ⟨rfl, rfl⟩ : (⟨0.0, 0.0, 80.0, 40.0⟩ : Rect) = rect ∧ depth = 1 := by
      simpa [hnode] using hrect
    exact absurd hmisfit (by decide +kernel)
  · refine (unsuccessful_attempts_change_nothing hroses {} strip 1 even).1.2 (.inr ⟨_, hnode, ?_⟩)
    exact .inl (by decide)
  · refine (unsuccessful_attempts_change_nothing hroses {} strip 2 even).1.2 (.inl ?_)
    decide +kernel

end Production
end Parterre
