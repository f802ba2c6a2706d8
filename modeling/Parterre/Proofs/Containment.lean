import Parterre.Proofs.FiniteNodes

/-! # What is planted stays inside

Whatever a step adds where it expands an area or a flower area lies in the rectangle of that sector,
up to a grid unit.  Two things limit this.  A fountain has a smallest radius, so the garden must
have some room for it; and coordinates must not be so large that their rounding errors take up the
grid unit. -/
namespace Parterre
open Binary32 Chance

namespace Engine
variable {σ : Type} [WordSource σ] {e e₀ : Engine σ} {working S : Rect} {params : Params}
  {id : NodeId} {k : ℤ}

omit [WordSource σ] in
/-- A sector is the working rectangle, or wide enough for a fountain. -/
theorem Divided.room (h : e.Divided working) (hworking : working.Ranged k) (hk : Scale k)
    (hsmall : k ≤ 25) (hsector : e.graph.sectorRect? id = some S) :
    S = working ∨ 16 + 9 * unit k ≤ value S.w ∧ 16 + 9 * unit k ≤ value S.h := by
  have htwo := unit_le_two hsmall
  refine (h.ranged hworking hk hsector).2.imp_right fun hwide => ⟨?_, ?_⟩
  · linarith [hwide.across]
  · linarith [hwide.down]

theorem Advances.mem_added {t : Tier} {n : Node} {name : String} {outcome : Outcome} {y : Element}
    (h : e.Advances t n name outcome) (hg : e.Gardening) (hnew : e.graph.element? id = none)
    (hy : (e.step ()).engine.graph.element? id = some y) :
    ∃ x, Expands σ e.params (e.prepared t).graph n.element name x ∧ y ∈ x.added := by
  rcases h.graph with ⟨-, x, hx, hgraph⟩ | ⟨-, -, -, hgraph⟩
  · rw [hgraph] at hy
    rcases Graph.element?_expanded_cases (hg.fresh_prepared t) h.prepared_node hy with
      ⟨-, hold⟩ | ⟨hself, -⟩ | ⟨j, -, hj⟩
    · rw [Gardening.prepared_element?, hnew] at hold
      cases hold
    · rw [hself, h.node] at hnew
      cases hnew
    · exact ⟨x, hx, List.mem_of_getElem? hj⟩
  · rw [hgraph, hnew] at hy
    cases hy

/-- A step that expands an area or a flower area adds what lies in the rectangle of that sector, up
to a grid unit.  The garden may lie anywhere in the square that reaches `2 ^ k` from the origin;
only for a fountain its sides must have a length of 16, and of nine rounding errors more. -/
theorem plantings_stay_inside (hbegun : Begun working params e₀)
    (hleads : Leads (fun _ => False) e₀ e) (hlow : 8 ≤ k) (hhigh : k ≤ 25)
    (hsquare : working.InSquare k) {step : ℕ} {symbol : Symbol} {name : String} {outcome : Outcome}
    (hexpanded : .ruleApplied step id symbol name outcome ∈ e.stepEvents)
    (hsymbol : symbol = .area ∨ symbol = .flowerArea) :
    ∃ x S, e.graph.element? id = some x ∧ x.symbol = symbol ∧ x.rect? = some S ∧
      ∀ n ∈ (e.step ()).engine.graph.nodes, e.graph.contains n.id = false →
        (n.symbol = .fountain →
          16 + 9 * 2 ^ (k - 24) ≤ value working.w ∧ 16 + 9 * 2 ^ (k - 24) ≤ value working.h) →
        S.containsRect n.shape.bounds gridUnit = true := by
  have hk : Scale k := ⟨hlow, hhigh.trans (by norm_num)⟩
  obtain ⟨-, hvalid, -⟩ := hbegun.eq_start
  have hworking := Rect.Ranged.of_validate hvalid hsquare
  have hdivided := hbegun.divided hleads
  have hg := (hbegun.gardening hleads).1
  rcases hg.step_cases with ⟨-, -, -, -, hnone⟩ | ⟨t, self, name', outcome', hadv⟩
  · rw [hnone] at hexpanded
    cases hexpanded
  obtain ⟨⟩ := hadv.ruleApplied_eq hexpanded
  obtain ⟨S, hrect, hsector⟩ := Element.exists_sectorRect hsymbol
  have hsector : e.graph.sectorRect? self.id = some S := by
    rw [Graph.sectorRect?, hadv.node]
    exact hsector
  refine ⟨self.element, S, hadv.node, rfl, hrect, fun n hn hnew hroom => ?_⟩
  have hnone : e.graph.element? n.id = none := by
    by_contra hsome
    rw [Graph.contains_iff.2 (Option.ne_none_iff_exists'.1 hsome)] at hnew
    cases hnew
  obtain ⟨x, hx, hadded⟩ := hadv.mem_added hg hnone (Graph.mem_nodes_iff.1 hn)
  have hranged := (hdivided.ranged hworking hk hsector).1
  refine ((hx.liesIn hsymbol hrect hranged hk hadded).2 fun hfountain => ?_).inside hhigh
  rcases hdivided.room hworking hk hhigh hsector with rfl | hwide
  · exact hroom hfountain
  · exact hwide

/-- A garden that is cut once, for an example with a fountain. -/
def court : Engine WordCycle :=
  start ⟨10.0, 10.0, 580.0, 480.0⟩ { divisions := 1 } (WordCycle.ofList [2500000000])

/-- Its fifth step plants a fountain. -/
theorem plantings_stay_inside_court :
    let e := (court.performAll () [.run 4]).engine
    Begun ⟨10.0, 10.0, 580.0, 480.0⟩ { divisions := 1 } court ∧ Leads (fun _ => False) court e ∧
      (⟨10.0, 10.0, 580.0, 480.0⟩ : Rect).InSquare 10 ∧
      .ruleApplied 5 4 .flowerArea "fountain_court" .applied ∈ e.stepEvents ∧
      (∃ n ∈ (e.step ()).engine.graph.nodes, e.graph.contains n.id = false ∧
        n.symbol = .fountain) ∧
      ∃ x S, e.graph.element? 4 = some x ∧ x.symbol = .flowerArea ∧ x.rect? = some S ∧
        ∀ n ∈ (e.step ()).engine.graph.nodes, e.graph.contains n.id = false →
          S.containsRect n.shape.bounds gridUnit = true := by
  intro e
  have hbegun : Begun ⟨10.0, 10.0, 580.0, 480.0⟩ { divisions := 1 } court :=
    .create _ (create_eq_ok_iff.2 ⟨rfl, rfl, rfl⟩)
  have hleads : Leads (fun _ => False) court e := leads_performAll () (by simp [Call.Within])
  have hsquare := inSquare_middling (k := 10) le_rfl
  have hexpanded : .ruleApplied 5 4 .flowerArea "fountain_court" .applied ∈ e.stepEvents := by
    decide +kernel
  have hroom : 16 + 9 * 2 ^ ((10 : ℤ) - 24) ≤ value 580.0 ∧
      16 + 9 * 2 ^ ((10 : ℤ) - 24) ≤ value 480.0 := by
    rw [stands_middling_width.value_eq, stands_middling_height.value_eq]
    norm_num
  obtain ⟨x, S, hx, hsymbol, hrect, hinside⟩ := plantings_stay_inside hbegun hleads
    (by norm_num) (by norm_num) hsquare hexpanded (.inr rfl)
  exact ⟨hbegun, hleads, hsquare, hexpanded, by decide +kernel, x, S, hx, hsymbol, hrect,
    fun n hn hnew => hinside n hn hnew fun _ => hroom⟩

/-- Whether the next step applies a production to a sector of a given rectangle, and adds what
sticks out of it by more than a grid unit. -/
def PlantsOutside (e : Engine σ) (name : String) (S : Rect) : Prop :=
  ∃ m ∈ e.graph.nodes, (m.symbol = .area ∨ m.symbol = .flowerArea) ∧ m.element.rect? = some S ∧
    .ruleApplied (e.steps + 1) m.id m.symbol name .applied ∈ e.stepEvents ∧
    ∃ n ∈ (e.step ()).engine.graph.nodes, e.graph.contains n.id = false ∧
      S.containsRect n.shape.bounds gridUnit = false

instance (e : Engine σ) (name : String) (S : Rect) : Decidable (e.PlantsOutside name S) :=
  inferInstanceAs (Decidable (∃ m ∈ e.graph.nodes, _))

def uncut (working : Rect) (word : UInt32) : Engine WordCycle :=
  start working { divisions := 0 } (WordCycle.ofList [word])

theorem leads_uncut {working : Rect} (h : working.validateWorking = .ok ()) (word : UInt32)
    (budget : ℕ) : Begun working { divisions := 0 } (uncut working word) ∧
      Leads (fun _ => False) (uncut working word)
        ((uncut working word).performAll () [.run budget]).engine :=
  ⟨.create _ (create_eq_ok_iff.2 ⟨rfl, h, rfl⟩), leads_performAll () (by simp [Call.Within])⟩

/-- A fountain is larger than a tiny garden, and where coordinates exceed `2 ^ 26` rounding moves a
lobe of a pond out of its area. -/
theorem plantings_stick_out :
    let tiny : Rect := ⟨0.0, 0.0, 1.0, 1.0⟩
    let blooming := ((uncut tiny 2500000000).performAll () [.run 2]).engine
    let distant : Rect := ⟨-67108896.0, 0.0, 27.93, 100.0⟩
    let sown := ((uncut distant 4000000000).performAll () [.run 1]).engine
    (Begun tiny { divisions := 0 } (uncut tiny 2500000000) ∧
      Leads (fun _ => False) (uncut tiny 2500000000) blooming ∧
      blooming.PlantsOutside "fountain_court" tiny) ∧
    Begun distant { divisions := 0 } (uncut distant 4000000000) ∧
      Leads (fun _ => False) (uncut distant 4000000000) sown ∧
      sown.PlantsOutside "area_terminal" distant := by
  intro tiny blooming distant sown
  have hvalid : tiny.validateWorking = .ok () :=
    Rect.validateWorking_eq_ok_iff.2 (by decide +kernel)
  have hvalid' : distant.validateWorking = .ok () :=
    Rect.validateWorking_eq_ok_iff.2 (by decide +kernel)
  obtain ⟨hbegun, hleads⟩ := leads_uncut hvalid 2500000000 2
  obtain ⟨hbegun', hleads'⟩ := leads_uncut hvalid' 4000000000 1
  exact ⟨⟨hbegun, hleads, by decide +kernel⟩, hbegun', hleads', by decide +kernel⟩

end Engine
end Parterre
