import Parterre.Proofs.ExactAgenda

/-! # Slices of a budget

A derivation may be run in slices.  Under the standard rules a step makes no progress only if the
garden is complete, and since nothing on the agenda is stale, it then leaves no trace, not even in
the source.  So it does not matter where a budget is cut. -/
namespace Parterre
open Chance

namespace Engine
variable {σ : Type} [WordSource σ] {e : Engine σ}

namespace Orderly

theorem step_of_complete (h : e.Orderly) (hdone : e.isComplete = true) :
    (e.step ()).progressed = false ∧ (e.step ()).engine = e := by
  have hno : e.graph.hasNonterminals = false := by simpa [isComplete] using hdone
  have hnone := h.gardening.attended.upcoming_eq_none_iff.2 hno
  exact ⟨(step_of_none () hnone).progressed, h.step_eq_self hnone⟩

theorem walk_of_complete (h : e.Orderly) (hdone : e.isComplete = true) (budget : Nat) :
    (walk budget e ()).engine = e ∧ (walk budget e ()).steps = 0 := by
  cases budget with
  | zero => exact ⟨rfl, rfl⟩
  | succ budget =>
    obtain ⟨hidle, hself⟩ := h.step_of_complete hdone
    obtain ⟨hengine, hsteps⟩ := walk_of_idle hidle budget
    exact ⟨hengine.trans hself, hsteps⟩

private theorem isComplete_of_idle (h : e.Orderly) (hidle : (e.step ()).progressed = false) :
    e.isComplete = true := by
  rcases h.gardening.step_cases with ⟨hno, -⟩ | ⟨t, n, name, outcome, hadv⟩
  · simp [isComplete, hno]
  · rw [hadv.progressed] at hidle
    cases hidle

theorem walk_add (h : e.Orderly) (m n : Nat) :
    (walk n (walk m e ()).engine ()).engine = (walk (m + n) e ()).engine ∧
      (walk m e ()).steps + (walk n (walk m e ()).engine ()).steps =
        (walk (m + n) e ()).steps := by
  induction m generalizing e with
  | zero =>
    rw [Nat.zero_add]
    exact ⟨rfl, Nat.zero_add _⟩
  | succ m ih =>
    rw [Nat.add_right_comm]
    cases hprogress : (e.step ()).progressed with
    | true =>
      obtain ⟨hfirst, hcount⟩ := walk_of_progress hprogress m
      obtain ⟨hwhole, htotal⟩ := walk_of_progress hprogress (m + n)
      obtain ⟨hengine, hsteps⟩ := ih h.step
      rw [hfirst, hwhole, hcount, htotal, ← hsteps, Nat.add_right_comm]
      exact ⟨hengine, rfl⟩
    | false =>
      -- the first walk is over, and so is the second one before it begins
      have hdone := h.isComplete_of_idle hprogress
      obtain ⟨hfirst, hcount⟩ := h.walk_of_complete hdone (m + 1)
      obtain ⟨hsecond, hrest⟩ := h.walk_of_complete hdone n
      obtain ⟨hwhole, htotal⟩ := h.walk_of_complete hdone (m + n + 1)
      rw [hfirst, hsecond, hwhole, hcount, hrest, htotal]
      exact ⟨rfl, rfl⟩

end Orderly

/-- A budget may be sliced: two runs one after the other lead to the same engine as one run with
both budgets, make as many steps together, and the second one ends with the same report.  A step or
a run on a complete garden leaves everything as it is, the source included. -/
theorem runs_add_up {working : Rect} {params : Params} {source : σ}
    (h : Leads (fun rules => rules = .standard) (start working params source) e) (m n : Nat) :
    let first := e.run m ()
    let second := first.engine.run n ()
    let whole := e.run (m + n) ()
    second.engine = whole.engine ∧
    first.summary.steps + second.summary.steps = whole.summary.steps ∧
    second.summary.complete = whole.summary.complete ∧
    second.summary.nodes = whole.summary.nodes ∧
    (e.isComplete = true →
      (e.step ()).engine = e ∧ ∀ budget, (e.run budget ()).engine = e) := by
  intro first second whole
  have ho := h.orderly
  obtain ⟨hengine, hsteps⟩ := ho.walk_add m n
  have hfirst : first.engine = (walk m e ()).engine := run_engine e m ()
  have hsecond : second.engine = whole.engine := calc
    second.engine = (walk n first.engine ()).engine := run_engine first.engine n ()
    _ = (walk (m + n) e ()).engine := by rw [hfirst, hengine]
    _ = whole.engine := (run_engine e (m + n) ()).symm
  have hsum : first.summary.steps + second.summary.steps = whole.summary.steps := by
    simp only [first, second, whole, run_summary, run_engine]
    exact hsteps
  have hdone (hc : e.isComplete = true) (budget : Nat) : (e.run budget ()).engine = e :=
    (run_engine e budget ()).trans (ho.walk_of_complete hc budget).1
  exact ⟨hsecond, hsum, congrArg isComplete hsecond,
    congrArg (fun e' => e'.graph.nodeCount) hsecond,
    fun hc => ⟨(ho.step_of_complete hc).2, hdone hc⟩⟩

/-- A garden that is too small to be cut: the first run is cut short, the second one ends before its
budget does, and what they leave is complete. -/
theorem runs_add_up_small :
    let e := start ⟨0.0, 0.0, 60.0, 60.0⟩ {} (WordCycle.ofList [7])
    let done := (e.run 7 ()).engine
    Leads (fun rules => rules = .standard) e e ∧ (e.run 2 ()).summary = ⟨2, false, 2⟩ ∧
      (e.run (2 + 5) ()).summary = ⟨3, true, 1⟩ ∧
      (let first := e.run 2 ()
      let second := first.engine.run 5 ()
      let whole := e.run (2 + 5) ()
      second.engine = whole.engine ∧
      first.summary.steps + second.summary.steps = whole.summary.steps ∧
      second.summary.complete = whole.summary.complete ∧
      second.summary.nodes = whole.summary.nodes ∧
      (e.isComplete = true →
        (e.step ()).engine = e ∧ ∀ budget, (e.run budget ()).engine = e)) ∧
      Leads (fun rules => rules = .standard) e done ∧ done.isComplete = true ∧
      (done.step ()).engine = done ∧ ∀ budget, (done.run budget ()).engine = done := by
  intro e done
  have hleads : Leads (fun rules => rules = .standard) e e := .refl
  have hdone : Leads (fun rules => rules = .standard) e done := .call () (.run 7) trivial .refl
  have hcomplete : done.isComplete = true := by decide +kernel
  obtain ⟨-, -, -, -, hkeeps⟩ := runs_add_up hdone 0 0
  exact ⟨hleads, by decide +kernel, by decide +kernel, runs_add_up hleads 2 5, hdone, hcomplete,
    hkeeps hcomplete⟩

end Engine
end Parterre
