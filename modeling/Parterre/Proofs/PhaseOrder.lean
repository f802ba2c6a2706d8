import Parterre.Proofs.GardenSteps
import Parterre.Proofs.RebuiltEdges

/-! # The order of a derivation

A derivation splits the garden, then cuts areas and lays terrains until no area is left, then plants
the flower areas, and lays the paths last.  This order is nowhere prescribed: it comes from the
tiers of the agenda and from what each production leaves to be expanded. -/
namespace Parterre
open Chance EventSink

/-- The name of the production that an event tells of. -/
def Event.production? : Event → Option String
  | .ruleApplied _ _ _ name _ => some name
  | _ => none

def ruleNames (events : List Event) : List String := events.filterMap Event.production?

def areaRules : List String := ["area_split", "area_terminal"]

def flowerRules : List String := ["rose_beds", "fountain_court"]

/-- Whether the garden was split and nothing but areas expanded since. -/
def DividingNames (names : List String) : Prop :=
  ∃ cuts : List String, (∀ s ∈ cuts, s ∈ areaRules) ∧ names = "garden_split" :: cuts

/-- Whether the garden was split, at least one area expanded, and then only flower areas. -/
def PlantingNames (names : List String) : Prop :=
  ∃ cuts flowers : List String, cuts ≠ [] ∧ (∀ s ∈ cuts, s ∈ areaRules) ∧
    (∀ s ∈ flowers, s ∈ flowerRules) ∧ names = "garden_split" :: (cuts ++ flowers)

/-- Whether the productions of these names, in this order, make a whole derivation. -/
def WholeDerivation (names : List String) : Prop :=
  ∃ cuts flowers : List String, cuts ≠ [] ∧ (∀ s ∈ cuts, s ∈ areaRules) ∧
    (∀ s ∈ flowers, s ∈ flowerRules) ∧
    names = "garden_split" :: (cuts ++ flowers ++ ["path_network"])

section Names
variable {names : List String} {name : String}

theorem forall_mem_concat {rules : List String} (h : ∀ s ∈ names, s ∈ rules)
    (hname : name ∈ rules) : ∀ s ∈ names ++ [name], s ∈ rules := by
  intro s hs
  rcases List.mem_append.1 hs with hs | hs
  · exact h s hs
  · exact List.mem_singleton.1 hs ▸ hname

theorem DividingNames.concat (h : DividingNames names) (hname : name ∈ areaRules) :
    DividingNames (names ++ [name]) ∧ PlantingNames (names ++ [name]) := by
  obtain ⟨cuts, hcuts, rfl⟩ := h
  have hcuts' := forall_mem_concat hcuts hname
  exact ⟨⟨cuts ++ [name], hcuts', rfl⟩, cuts ++ [name], [], by simp, hcuts', by simp, by simp⟩

theorem PlantingNames.concat (h : PlantingNames names) (hname : name ∈ flowerRules) :
    PlantingNames (names ++ [name]) := by
  obtain ⟨cuts, flowers, hsome, hcuts, hflowers, rfl⟩ := h
  exact ⟨cuts, flowers ++ [name], hsome, hcuts, forall_mem_concat hflowers hname, by simp⟩

theorem PlantingNames.whole (h : PlantingNames names) :
    WholeDerivation (names ++ ["path_network"]) := by
  obtain ⟨cuts, flowers, hsome, hcuts, hflowers, rfl⟩ := h
  exact ⟨cuts, flowers, hsome, hcuts, hflowers, by simp⟩

private theorem DividingNames.exists_whole (h : DividingNames names) :
    ∃ whole, WholeDerivation whole ∧ names <+: whole := by
  have hcut : "area_split" ∈ areaRules := List.mem_cons_self
  refine ⟨_, (h.concat hcut).2.whole, ?_⟩
  rw [List.append_assoc]
  exact List.prefix_append _ _

private theorem DividingNames.not_mem (h : DividingNames names) : "path_network" ∉ names := by
  obtain ⟨cuts, hcuts, rfl⟩ := h
  intro hmem
  rcases List.mem_cons.1 hmem with hmem | hmem
  · exact absurd hmem (by decide)
  · exact absurd (hcuts _ hmem) (by decide)

private theorem PlantingNames.not_mem (h : PlantingNames names) : "path_network" ∉ names := by
  obtain ⟨cuts, flowers, -, hcuts, hflowers, rfl⟩ := h
  intro hmem
  rw [List.mem_cons, List.mem_append] at hmem
  rcases hmem with hmem | hmem | hmem
  · exact absurd hmem (by decide)
  · exact absurd (hcuts _ hmem) (by decide)
  · exact absurd (hflowers _ hmem) (by decide)

end Names

/-- Whether no event tells that edges were found anew. -/
def Quiet (events : List Event) : Prop := ∀ k, .adjacencyRebuilt k ∉ events

@[simp] theorem ruleNames_append (xs ys : List Event) :
    ruleNames (xs ++ ys) = ruleNames xs ++ ruleNames ys :=
  List.filterMap_append

theorem Quiet.append {xs ys : List Event} (hx : Quiet xs) (hy : Quiet ys) : Quiet (xs ++ ys) := by
  intro k hk
  rcases List.mem_append.1 hk with hk | hk
  · exact hx k hk
  · exact hy k hk

private theorem quiet_frame {event : Event} (h : event.isFrame = true) :
    Quiet [event] ∧ ruleNames [event] = [] := by
  cases event <;> simp [Event.isFrame] at h <;> exact ⟨fun k hk => by simp at hk, rfl⟩

theorem quiet_applied (step : Nat) (id : NodeId) (symbol : Symbol) (name : String)
    (outcome : Outcome) : Quiet [.ruleApplied step id symbol name outcome] := by
  intro k hk
  simp at hk

namespace Graph

def Has (g : Graph) (s : Symbol) : Prop := ∃ id e, g.element? id = some e ∧ e.symbol = s

/-- A garden whose paths wait: its other nodes are ground, or grow on it. -/
structure Growing (g : Graph) (paths : NodeId) : Prop where
  waits : ∃ rect intensity, g.element? paths = some (.pathSystem rect intensity)
  others : ∀ id e, id ≠ paths → g.element? id = some e →
    e.symbol.isSector = true ∨ e.symbol.isPlanting = true

variable {g g' : Graph} {paths id : NodeId} {e : Element} {x : Expansion}

@[simp] theorem count_eq_zero_iff {s : Symbol} : g.count s = 0 ↔ ¬g.Has s := by
  unfold count nodesWith
  rw [List.length_eq_zero_iff, List.filter_eq_nil_iff]
  constructor
  · rintro hnone ⟨id, e, he, hs⟩
    exact hnone ⟨id, e⟩ (mem_nodes_iff.2 he) (decide_eq_true hs)
  · intro hno n hn hs
    exact hno ⟨n.id, n.element, mem_nodes_iff.1 hn, of_decide_eq_true hs⟩

theorem Has.of_eq {s : Symbol} (h : g.Has s) (he : ∀ i, g'.element? i = g.element? i) :
    g'.Has s := by
  obtain ⟨id, e, hid, hs⟩ := h
  exact ⟨id, e, (he id).trans hid, hs⟩

theorem Growing.of_eq (h : g.Growing paths) (he : ∀ i, g'.element? i = g.element? i) :
    g'.Growing paths := by
  obtain ⟨rect, intensity, hp⟩ := h.waits
  refine ⟨⟨rect, intensity, (he paths).trans hp⟩, fun id e hid hx => ?_⟩
  exact h.others id e hid ((he id).symm.trans hx)

/-- While the paths wait, there are only areas and flower areas to expand beside them. -/
theorem Growing.node_cases (h : g.Growing paths) (he : g.element? id = some e) {t : Tier}
    (ht : Tier.of? e.symbol = some t) :
    (id ≠ paths ∧ (e.symbol = .area ∧ t = .area ∨ e.symbol = .flowerArea ∧ t = .flowerArea)) ∨
      (id = paths ∧ e.symbol = .pathSystem ∧ t = .pathSystem) := by
  cases hid : decide (id = paths) with
  | true =>
    obtain rfl := of_decide_eq_true hid
    obtain ⟨rect, intensity, hp⟩ := h.waits
    obtain rfl := Option.some.inj (he.symm.trans hp)
    exact .inr ⟨rfl, rfl, (Option.some.inj ht).symm⟩
  | false =>
    have hne := of_decide_eq_false hid
    have hground := h.others id e hne he
    refine .inl ⟨hne, ?_⟩
    cases e <;> simp [Element.symbol, Symbol.isSector, Symbol.isPlanting, Tier.of?,
      Symbol.isNonterminal] at hground ht ⊢ <;> exact ht.symm

theorem Growing.not_has_pathRect (h : g.Growing paths) : ¬g.Has .pathRect := by
  rintro ⟨id, e, he, hs⟩
  by_cases hid : id = paths
  · obtain ⟨rect, intensity, hp⟩ := h.waits
    obtain rfl := Option.some.inj (he.symm.trans (hid ▸ hp))
    cases hs
  · have hground := h.others id e hid he
    rw [hs] at hground
    simp [Symbol.isSector, Symbol.isPlanting] at hground

/-- Expanding any other node leaves the paths waiting, if ground is left of it. -/
theorem Growing.expanded (h : g.Growing paths) (hg : g.Fresh) (he : g.element? id = some e)
    (hid : id ≠ paths) (hstays : ∀ y, x.stays = some y → y.symbol.isSector = true)
    (hadded : ∀ y ∈ x.added, y.symbol.isSector = true ∨ y.symbol.isPlanting = true) :
    (g.expanded id x).Growing paths := by
  obtain ⟨rect, intensity, hp⟩ := h.waits
  refine ⟨⟨rect, intensity, element?_expanded_of_ne hg he hid.symm hp⟩, fun i y hi hy => ?_⟩
  rcases element?_expanded_cases hg he hy with ⟨-, hold⟩ | ⟨-, hself⟩ | ⟨k, -, hk⟩
  · exact h.others i y hi hold
  · exact .inl (hstays y hself)
  · exact hadded y (List.mem_of_getElem? hk)

theorem Planned.growing {working : Rect} (h : g.Planned working) (hg : g.Fresh)
    (he : g.element? id = some e) {rect rect' : Rect} {depth intensity : Nat}
    (hstays : x.stays = none)
    (hadded : x.added = [.area rect depth, .pathSystem rect' intensity]) :
    (g.expanded id x).Growing (g.nextId + 1) ∧ (g.expanded id x).Has .area := by
  have hfirst := element?_expanded_added (x := x) hg he 0
  have hsecond := element?_expanded_added (x := x) hg he 1
  rw [hadded] at hfirst hsecond
  refine ⟨⟨⟨rect', intensity, hsecond⟩, fun i y hi hy => ?_⟩, _, _, hfirst, rfl⟩
  obtain ⟨k, rfl, hk⟩ := h.element?_expanded_cases hg he hstays hy
  rw [hadded] at hk
  match k, hk with
  | 0, hk =>
    rw [← Option.some.inj hk]
    exact .inl rfl
  | 1, _ => exact absurd rfl hi

theorem Growing.finished (h : g.Growing paths) (hg : g.Fresh) (he : g.element? paths = some e)
    (hareas : ¬g.Has .area) (hflowers : ¬g.Has .flowerArea) (hstays : x.stays = none)
    (hadded : ∀ y ∈ x.added, y.symbol = .pathRect) :
    (g.expanded paths x).hasNonterminals = false := by
  rw [← Bool.not_eq_true, hasNonterminals_iff]
  rintro ⟨i, y, hy, hs⟩
  rcases element?_expanded_cases hg he hy with ⟨hi, hold⟩ | ⟨-, hself⟩ | ⟨k, -, hk⟩
  · have hground := h.others i y hi hold
    have hnoarea : y.symbol ≠ .area := fun hsymbol => hareas ⟨i, y, hold, hsymbol⟩
    have hnoflower : y.symbol ≠ .flowerArea := fun hsymbol => hflowers ⟨i, y, hold, hsymbol⟩
    cases y <;> simp [Element.symbol, Symbol.isSector, Symbol.isPlanting,
      Symbol.isNonterminal] at hground hs hnoarea hnoflower
  · rw [hstays] at hself
    cases hself
  · rw [hadded y (List.mem_of_getElem? hk)] at hs
    cases hs

/-- Laying the paths leaves the edges that were found anew. -/
theorem edges_expanded_rebuildAdjacency (thickness : Float32) (he : g.element? id = some e)
    (hsector : e.symbol.isSector = false) (hstays : x.stays = none) (hjoined : x.joined = []) :
    ((g.rebuildAdjacency thickness).expanded id x).edges =
      (g.rebuildAdjacency thickness).edges := by
  have hnone : (g.rebuildAdjacency thickness).neighbors id = [] := by
    refine neighbors_rebuildAdjacency fun y hy => ?_
    rw [← Option.some.inj (he.symm.trans hy)]
    exact hsector
  rw [expanded, hstays, hjoined]
  exact (edges_addAll _ _).trans (edges_remove_of_no_neighbors hnone)

end Graph

/-! ### What expansions of ground leave -/

section Expansions
variable {σ : Type} [WordSource σ] {params : Params} {g : Graph} {e : Element} {name : String}
  {x : Expansion}

/-- An area or a flower area leaves ground and what grows on it. -/
theorem Expands.ground (h : Expands σ params g e name x)
    (he : e.symbol = .area ∨ e.symbol = .flowerArea) :
    (∀ y, x.stays = some y → y.symbol.isSector = true) ∧
      ∀ y ∈ x.added, y.symbol.isSector = true ∨ y.symbol.isPlanting = true := by
  have hplants : ∀ y, x.stays = some y → ∀ z ∈ x.added, z.symbol.isPlanting = true :=
    fun y hy z hz => h.isPlanting_of_mem hy hz
  cases h with
  | gardenSplit rect => simp [Element.symbol] at he
  | pathNetwork rect intensity => simp [Element.symbol] at he
  | areaSplit rect depth cut thickness =>
    refine ⟨fun y hy => (by cases hy), fun y hy => .inl ?_⟩
    simp only [List.mem_cons, List.not_mem_nil, or_false] at hy
    rcases hy with rfl | rfl <;> rfl
  | areaTerminal rect depth terrain source =>
    refine ⟨fun y hy => ?_, fun y hy => .inr (hplants _ rfl y hy)⟩
    obtain rfl := Option.some.inj hy
    cases terrain <;> rfl
  | roseBeds rect beds =>
    refine ⟨fun y hy => ?_, fun y hy => .inr (hplants _ rfl y hy)⟩
    obtain rfl := Option.some.inj hy
    rfl
  | fountainCourt rect =>
    refine ⟨fun y hy => ?_, fun y hy => .inr (hplants _ rfl y hy)⟩
    obtain rfl := Option.some.inj hy
    rfl

private theorem Expands.name_mem_areaRules (h : Expands σ params g e name x)
    (he : e.symbol = .area) : name ∈ areaRules := by
  cases h <;> simp [Element.symbol, areaRules] at he ⊢

private theorem Expands.name_mem_flowerRules (h : Expands σ params g e name x)
    (he : e.symbol = .flowerArea) : name ∈ flowerRules := by
  cases h <;> simp [Element.symbol, flowerRules] at he ⊢

/-- A flower area leaves no area. -/
theorem Expands.not_area (h : Expands σ params g e name x) (he : e.symbol = .flowerArea)
    {y : Element} (hy : x.stays = some y ∨ y ∈ x.added) : y.symbol ≠ .area := by
  have hstays : ∃ rect, x.stays = some (.grassRect rect) := by
    cases h <;> first | exact ⟨_, rfl⟩ | simp [Element.symbol] at he
  obtain ⟨rect, hrect⟩ := hstays
  rcases hy with hy | hy
  · rw [← Option.some.inj (hrect.symm.trans hy)]
    simp [Element.symbol]
  · intro hsymbol
    have hplanting := h.isPlanting_of_mem hrect hy
    rw [hsymbol] at hplanting
    cases hplanting

theorem Expands.of_pathSystem (h : Expands σ params g e name x) (he : e.symbol = .pathSystem) :
    name = "path_network" ∧ x.stays = none ∧ x.joined = [] ∧
      ∀ y ∈ x.added, y.symbol = .pathRect := by
  cases h with
  | pathNetwork rect intensity =>
    refine ⟨rfl, rfl, rfl, fun y hy => ?_⟩
    obtain ⟨segment, -, rfl⟩ := List.mem_map.1 hy
    rfl
  | _ => simp [Element.symbol] at he

end Expansions

/-! ### Stages -/

/-- How far a derivation has come, by its events and its graph: the garden is planned, areas are
left to be divided, flower areas may be left to be planted, or all is complete. -/
inductive Stage (working : Rect) : List Event → Graph → Prop where
  | planned {events : List Event} {g : Graph} (hnames : ruleNames events = [])
    (hquiet : Quiet events) (hg : g.Planned working) : Stage working events g
  | dividing {events : List Event} {g : Graph} (paths : NodeId)
    (hnames : DividingNames (ruleNames events)) (hquiet : Quiet events) (hg : g.Growing paths)
    (hareas : g.Has .area) : Stage working events g
  | planting {events : List Event} {g : Graph} (paths : NodeId)
    (hnames : PlantingNames (ruleNames events)) (hquiet : Quiet events) (hg : g.Growing paths)
    (hareas : ¬g.Has .area) : Stage working events g
  | complete {g : Graph} (before after : List Event) (step : Nat) (node : NodeId)
    (hnames : PlantingNames (ruleNames before)) (hbefore : Quiet before)
    (hrest : ruleNames after = []) (hafter : Quiet after) (hg : g.hasNonterminals = false) :
    Stage working
      (before ++ [.adjacencyRebuilt g.edgeCount,
        .ruleApplied step node .pathSystem "path_network" .applied] ++ after) g

namespace Stage
variable {working : Rect} {events : List Event} {g : Graph}

/-- Events of a run as a whole do not matter. -/
theorem frame {event : Event} (h : Stage working events g) (hframe : event.isFrame = true) :
    Stage working (events ++ [event]) g := by
  obtain ⟨hframe, hnone⟩ := quiet_frame hframe
  have happend : ∀ xs, ruleNames (xs ++ [event]) = ruleNames xs := by
    intro xs
    rw [ruleNames_append, hnone, List.append_nil]
  cases h with
  | planned hnames hquiet hg => exact .planned ((happend _).trans hnames) (hquiet.append hframe) hg
  | dividing paths hnames hquiet hg hareas =>
    exact .dividing paths (by rwa [happend]) (hquiet.append hframe) hg hareas
  | planting paths hnames hquiet hg hareas =>
    exact .planting paths (by rwa [happend]) (hquiet.append hframe) hg hareas
  | complete before after step node hnames hbefore hrest hafter hg =>
    rw [List.append_assoc _ after]
    exact .complete before (after ++ [event]) step node hnames hbefore ((happend _).trans hrest)
      (hafter.append hframe) hg

private theorem exists_whole (h : Stage working events g) :
    ∃ whole, WholeDerivation whole ∧ ruleNames events <+: whole := by
  cases h with
  | planned hnames hquiet hg =>
    have hwhole : WholeDerivation ["garden_split", "area_split", "path_network"] :=
      ⟨["area_split"], [], by simp, by simp [areaRules], by simp, rfl⟩
    rw [hnames]
    exact ⟨_, hwhole, List.nil_prefix⟩
  | dividing paths hnames hquiet hg hareas => exact hnames.exists_whole
  | planting paths hnames hquiet hg hareas =>
    exact ⟨_, hnames.whole, List.prefix_append _ _⟩
  | complete before after step node hnames hbefore hrest hafter hg =>
    refine ⟨_, hnames.whole, ?_⟩
    rw [ruleNames_append, ruleNames_append, hrest, List.append_nil]
    exact List.prefix_rfl

theorem complete_iff (h : Stage working events g) :
    g.hasNonterminals = false ↔ "path_network" ∈ ruleNames events := by
  have hwaits : ∀ {id e}, g.element? id = some e → e.symbol.isNonterminal = true →
      ¬g.hasNonterminals = false := by
    intro id e he hs
    rw [Graph.hasNonterminals_iff.2 ⟨id, e, he, hs⟩]
    simp
  cases h with
  | planned hnames hquiet hg =>
    obtain ⟨id, hid⟩ := hg
    have hgarden := hid id
    rw [if_pos rfl] at hgarden
    refine iff_of_false (hwaits hgarden rfl) ?_
    simp [hnames]
  | dividing paths hnames hquiet hg hareas =>
    obtain ⟨rect, intensity, hp⟩ := hg.waits
    exact iff_of_false (hwaits hp rfl) hnames.not_mem
  | planting paths hnames hquiet hg hareas =>
    obtain ⟨rect, intensity, hp⟩ := hg.waits
    exact iff_of_false (hwaits hp rfl) hnames.not_mem
  | complete before after step node hnames hbefore hrest hafter hg =>
    refine iff_of_true hg ?_
    rw [ruleNames_append, ruleNames_append]
    exact List.mem_append_left _ (List.mem_append_right _ List.mem_cons_self)

end Stage

/-- An item of a kind that occurs once stands where it occurs. -/
theorem split_unique {α : Type} {p : α → Prop} {xs ys xs' ys' : List α} {y y' : α}
    (h : xs ++ y :: ys = xs' ++ y' :: ys') (hxs : ∀ z ∈ xs, ¬p z) (hys : ∀ z ∈ ys, ¬p z)
    (hy : p y') : xs' = xs ∧ y' = y ∧ ys' = ys := by
  induction xs generalizing xs' with
  | nil =>
    cases xs' with
    | nil =>
      obtain ⟨rfl, rfl⟩ := List.cons.inj h
      exact ⟨rfl, rfl, rfl⟩
    | cons z zs =>
      obtain ⟨-, rfl⟩ := List.cons.inj h
      exact absurd hy (hys y' (by simp))
  | cons x xs ih =>
    cases xs' with
    | nil =>
      obtain ⟨rfl, -⟩ := List.cons.inj h
      exact absurd hy (hxs x List.mem_cons_self)
    | cons z zs =>
      obtain ⟨rfl, htail⟩ := List.cons.inj h
      obtain ⟨rfl, rfl, rfl⟩ := ih htail fun z hz => hxs z (List.mem_cons_of_mem _ hz)
      exact ⟨rfl, rfl, rfl⟩

/-- Edges are found anew right before the paths are laid, once, and are the final ones. -/
theorem Stage.rebuilt {working : Rect} {events before after : List Event} {g : Graph} {k : Nat}
    (h : Stage working events g) (heq : events = before ++ .adjacencyRebuilt k :: after) :
    (∃ step node rest,
      after = .ruleApplied step node .pathSystem "path_network" .applied :: rest) ∧
      k = g.edgeCount ∧ Quiet before ∧ Quiet after := by
  have hnoisy : Quiet events → False := fun hquiet => hquiet k (by simp [heq])
  cases h with
  | planned hnames hquiet hg => exact (hnoisy hquiet).elim
  | dividing paths hnames hquiet hg hareas => exact (hnoisy hquiet).elim
  | planting paths hnames hquiet hg hareas => exact (hnoisy hquiet).elim
  | complete before' after' step node hnames hbefore hrest hafter hg =>
    rw [List.append_assoc] at heq
    have hquiet : ∀ {xs : List Event}, Quiet xs → ∀ z ∈ xs, ¬∃ k, z = .adjacencyRebuilt k := by
      rintro xs hxs z hz ⟨k, rfl⟩
      exact hxs k hz
    have hlast : Quiet (.ruleApplied step node .pathSystem "path_network" .applied :: after') :=
      (quiet_applied _ _ _ _ _).append hafter
    obtain ⟨rfl, hk, rfl⟩ := split_unique heq (hquiet hbefore) (hquiet hlast) ⟨k, rfl⟩
    exact ⟨⟨step, node, after', rfl⟩, Event.adjacencyRebuilt.inj hk, hbefore, hlast⟩

/-- Once there is a path, all ground is final. -/
theorem Stage.ground_final {working : Rect} {events : List Event} {g : Graph}
    (h : Stage working events g) (hpath : g.Has .pathRect) :
    ¬g.Has .area ∧ ¬g.Has .flowerArea := by
  have hnone : ∀ {paths}, ¬g.Growing paths := fun hg => hg.not_has_pathRect hpath
  cases h with
  | planned hnames hquiet hg =>
    obtain ⟨id, e, he, hs⟩ := hpath
    rw [(hg.eq_garden he).1] at hs
    cases hs
  | dividing paths hnames hquiet hg hareas => exact (hnone hg).elim
  | planting paths hnames hquiet hg hareas => exact (hnone hg).elim
  | complete before after step node hnames hbefore hrest hafter hno =>
    have hterminal : ∀ s : Symbol, s.isNonterminal = true → ¬g.Has s := by
      rintro s hs ⟨id, e, he, rfl⟩
      rw [Graph.hasNonterminals_iff.2 ⟨id, e, he, hs⟩] at hno
      cases hno
    exact ⟨hterminal .area rfl, hterminal .flowerArea rfl⟩

/-! ### What a step does at each stage -/

namespace Engine
variable {σ : Type} [WordSource σ] {e : Engine σ} {t : Tier} {n : Node} {name : String}
  {outcome : Outcome} {paths : NodeId} {working : Rect}

omit [WordSource σ] in
theorem preparation_eq_nil (e : Engine σ) (ht : t ≠ .pathSystem) : e.preparation t = [] := by
  simp only [preparation, if_neg ht]

theorem Advances.not_live (hadv : e.Advances t n name outcome) {s : Symbol} {u : Tier}
    (hs : Tier.of? s = some u) (hu : u ∈ Tier.all.takeWhile (· ≠ t)) : ¬e.graph.Has s := by
  rintro ⟨id, x, hx, rfl⟩
  have hlive : Agenda.isLive e.graph u id = true := Agenda.isLive_iff.2 ⟨x, hx, hs⟩
  rw [hadv.higher u hu id] at hlive
  cases hlive

theorem Advances.splits (hadv : e.Advances t n name outcome) (hg : e.Gardening)
    (hp : e.graph.Planned working) :
    t = .other ∧ name = "garden_split" ∧ ∃ paths, (e.step ()).engine.graph.Growing paths ∧
      (e.step ()).engine.graph.Has .area := by
  obtain ⟨hgarden, -⟩ := hp.eq_garden hadv.node
  have hsymbol : n.symbol = .garden := congrArg Element.symbol hgarden
  have ht : t = .other := by
    have hn := hadv.tier
    rw [hsymbol] at hn
    exact (Option.some.inj hn).symm
  have hp' : (e.prepared t).graph.Planned working := hp.of_eq (Gardening.prepared_element? e t)
  rcases hadv.graph with ⟨-, x, hx, hgraph⟩ | ⟨-, -, harea, -⟩
  · rw [hgarden] at hx
    obtain ⟨hname, hstays, hadded⟩ : name = "garden_split" ∧ x.stays = none ∧ x.added =
        [.area working e.params.divisions, .pathSystem working e.params.pathsIntensity] := by
      cases hx
      exact ⟨rfl, rfl, rfl⟩
    obtain ⟨hgrowing, harea⟩ :=
      hp'.growing (hg.fresh_prepared t) hadv.prepared_node hstays hadded
    rw [hgraph]
    exact ⟨ht, hname, _, hgrowing.of_eq fun _ => rfl, harea.of_eq fun _ => rfl⟩
  · rw [hsymbol] at harea
    cases harea

theorem Advances.grows (hadv : e.Advances t n name outcome) (hg : e.Gardening)
    (hp : e.graph.Growing paths) (hid : n.id ≠ paths)
    (hn : n.symbol = .area ∨ n.symbol = .flowerArea) :
    (e.step ()).engine.graph.Growing paths := by
  rcases hadv.graph with ⟨-, x, hx, hgraph⟩ | ⟨-, -, -, hgraph⟩
  · obtain ⟨hstays, hadded⟩ := hx.ground hn
    have hp' : (e.prepared t).graph.Growing paths := hp.of_eq (Gardening.prepared_element? e t)
    rw [hgraph]
    exact (hp'.expanded (hg.fresh_prepared t) hadv.prepared_node hid hstays hadded).of_eq
      fun _ => rfl
  · rw [hgraph]
    exact hp

private theorem Advances.name_mem_areaRules (hadv : e.Advances t n name outcome)
    (hn : n.symbol = .area) : name ∈ areaRules := by
  rcases hadv.graph with ⟨-, x, hx, -⟩ | ⟨-, rfl, -⟩
  · exact hx.name_mem_areaRules hn
  · exact List.mem_cons_self

theorem Advances.plants (hadv : e.Advances t n name outcome) (hg : e.Gardening)
    (hn : n.symbol = .flowerArea) (hareas : ¬e.graph.Has .area) :
    name ∈ flowerRules ∧ ¬(e.step ()).engine.graph.Has .area := by
  rcases hadv.graph with ⟨-, x, hx, hgraph⟩ | ⟨-, -, harea, -⟩
  · refine ⟨hx.name_mem_flowerRules hn, ?_⟩
    rw [hgraph]
    rintro ⟨i, y, hy, hsymbol⟩
    rcases Graph.element?_expanded_cases (hg.fresh_prepared t) hadv.prepared_node hy with
      ⟨-, hold⟩ | ⟨-, hself⟩ | ⟨k, -, hk⟩
    · exact hareas ⟨i, y, (Gardening.prepared_element? e t i).symm.trans hold, hsymbol⟩
    · exact hx.not_area hn (.inl hself) hsymbol
    · exact hx.not_area hn (.inr (List.mem_of_getElem? hk)) hsymbol
  · rw [hn] at harea
    cases harea

/-- The last step finds the edges anew and lays the paths, which leaves the edges alone. -/
theorem Advances.lays (hadv : e.Advances .pathSystem n name outcome) (hg : e.Gardening)
    (hp : e.graph.Growing n.id) (hn : n.symbol = .pathSystem) :
    e.stepEvents = [.adjacencyRebuilt (e.step ()).engine.graph.edgeCount,
        .ruleApplied (e.steps + 1) n.id .pathSystem "path_network" .applied] ∧
      (e.step ()).engine.graph.hasNonterminals = false := by
  have hareas : ¬e.graph.Has .area := hadv.not_live rfl (by decide)
  have hflowers : ¬e.graph.Has .flowerArea := hadv.not_live rfl (by decide)
  have hprepared : ∀ i, (e.prepared .pathSystem).graph.element? i = e.graph.element? i :=
    Gardening.prepared_element? e .pathSystem
  rcases hadv.graph with ⟨rfl, x, hx, hgraph⟩ | ⟨-, -, harea, -⟩
  · obtain ⟨hname, hstays, hjoined, hadded⟩ := hx.of_pathSystem hn
    have hfinished : ((e.prepared .pathSystem).graph.expanded n.id x).hasNonterminals = false :=
      (hp.of_eq hprepared).finished (hg.fresh_prepared .pathSystem) hadv.prepared_node
        (fun h => hareas (h.of_eq fun i => (hprepared i).symm))
        (fun h => hflowers (h.of_eq fun i => (hprepared i).symm)) hstays hadded
    have hcount : (e.step ()).engine.graph.edgeCount =
        (e.graph.contacts pathThickness).length := by
      have hsector : n.element.symbol.isSector = false := by
        rw [show n.element.symbol = .pathSystem from hn]
        rfl
      have hedges := Graph.edges_expanded_rebuildAdjacency pathThickness hadv.node hsector hstays
        hjoined
      rw [hgraph, ← Graph.edgeCount_rebuildAdjacency]
      exact congrArg List.length hedges
    refine ⟨?_, ?_⟩
    · rw [hadv.events, hcount, hname, hn]
      rfl
    · rw [hgraph]
      exact hfinished
  · rw [hn] at harea
    cases harea

/-- Edges are found anew only when no area and no flower area is left. -/
theorem Gardening.ground_final (hg : e.Gardening) {k : Nat}
    (hmem : .adjacencyRebuilt k ∈ e.stepEvents) :
    ¬e.graph.Has .area ∧ ¬e.graph.Has .flowerArea := by
  rcases hg.step_cases with ⟨-, -, -, -, hnone⟩ | ⟨t, n, name, outcome, hadv⟩
  · rw [hnone] at hmem
    cases hmem
  · rw [hadv.events] at hmem
    cases ht : decide (t = .pathSystem) with
    | true =>
      obtain rfl := of_decide_eq_true ht
      exact ⟨hadv.not_live rfl (by decide), hadv.not_live rfl (by decide)⟩
    | false =>
      rw [e.preparation_eq_nil (of_decide_eq_false ht)] at hmem
      simp at hmem

theorem stage_step {events : List Event} (h : Stage working events e.graph) (hg : e.Gardening) :
    Stage working (events ++ e.stepEvents) (e.step ()).engine.graph := by
  rcases hg.step_cases with ⟨-, -, hgraph, -, hnone⟩ | ⟨t, n, name, outcome, hadv⟩
  · rw [hnone, List.append_nil, hgraph]
    exact h
  -- what is told of a step that is not the last
  have hplain : t ≠ .pathSystem → Quiet events → Quiet (events ++ e.stepEvents) ∧
      ruleNames (events ++ e.stepEvents) = ruleNames events ++ [name] := by
    intro ht hquiet
    rw [hadv.events, e.preparation_eq_nil ht, ruleNames_append]
    exact ⟨hquiet.append (quiet_applied _ _ _ _ _), rfl⟩
  cases h with
  | planned hnames hquiet hp =>
    obtain ⟨rfl, rfl, paths, hgrowing, hareas⟩ := hadv.splits hg hp
    obtain ⟨hquiet', hnames'⟩ := hplain (by simp) hquiet
    rw [hnames] at hnames'
    exact .dividing paths ⟨[], by simp, hnames'⟩ hquiet' hgrowing hareas
  | dividing paths hnames hquiet hp hareas =>
    -- areas come first, so the node drawn is one
    rcases hp.node_cases hadv.node hadv.tier with ⟨hid, hn | hn⟩ | ⟨-, -, rfl⟩
    · obtain ⟨hn, rfl⟩ := hn
      obtain ⟨hquiet', hnames'⟩ := hplain (by simp) hquiet
      obtain ⟨hdividing, hplanting⟩ := hnames.concat (hadv.name_mem_areaRules hn)
      have hgrowing := hadv.grows hg hp hid (.inl hn)
      by_cases hareas' : (e.step ()).engine.graph.Has .area
      · exact .dividing paths (by rwa [hnames']) hquiet' hgrowing hareas'
      · exact .planting paths (by rwa [hnames']) hquiet' hgrowing hareas'
    · obtain ⟨-, rfl⟩ := hn
      exact absurd hareas (hadv.not_live rfl (by decide))
    · exact absurd hareas (hadv.not_live rfl (by decide))
  | planting paths hnames hquiet hp hareas =>
    -- the paths wait for the flower areas, so once they are drawn nothing else is left
    rcases hp.node_cases hadv.node hadv.tier with ⟨hid, hn | hn⟩ | ⟨rfl, hn, rfl⟩
    · exact absurd ⟨n.id, n.element, hadv.node, hn.1⟩ hareas
    · obtain ⟨hn, rfl⟩ := hn
      obtain ⟨hquiet', hnames'⟩ := hplain (by simp) hquiet
      obtain ⟨hmem, hareas'⟩ := hadv.plants hg hn hareas
      exact .planting paths (by rw [hnames']; exact hnames.concat hmem) hquiet'
        (hadv.grows hg hp hid (.inr hn)) hareas'
    · obtain ⟨hevents, hfinished⟩ := hadv.lays hg hp hn
      have hstage : Stage working _ (e.step ()).engine.graph :=
        .complete events [] (e.steps + 1) n.id hnames hquiet rfl (fun k hk => by cases hk) hfinished
      rw [List.append_nil] at hstage
      rw [hevents]
      exact hstage
  | complete before after step node hnames hbefore hrest hafter hno =>
    have hyes : e.graph.hasNonterminals = true :=
      Graph.hasNonterminals_iff.2 ⟨_, _, hadv.node, Tier.exists_of?_iff.1 ⟨t, hadv.tier⟩⟩
    rw [hno] at hyes
    cases hyes

theorem Course.stage {e₀ : Engine σ} {params : Params} {trail : List (Engine σ)}
    {events : List Event} (hbegun : Begun working params e₀) (h : Course e₀ trail events e) :
    e.Gardening ∧ Stage working events e.graph ∧
      ∀ x ∈ trail, x.Gardening ∧ ∃ earlier, Stage working earlier x.graph := by
  obtain ⟨-, -, source, rfl⟩ := hbegun.eq_start
  induction h with
  | start =>
    exact ⟨.start working params source,
      .planned rfl (fun k hk => by cases hk) (planned_start working params source),
      fun x hx => by cases hx⟩
  | step _ ih =>
    obtain ⟨hg, hstage, htrail⟩ := ih
    refine ⟨hg.step, stage_step hstage hg, fun x hx => ?_⟩
    rcases List.mem_append.1 hx with hx | hx
    · exact htrail x hx
    · obtain rfl := List.mem_singleton.1 hx
      exact ⟨hg, _, hstage⟩
  | frame event hframe _ ih =>
    obtain ⟨hg, hstage, htrail⟩ := ih
    exact ⟨hg, hstage.frame hframe, htrail⟩

/-- In a derivation from an accepted input the garden is split first; then areas are expanded, at
least one, until none is left, then flower areas, and the path system last, which completes it.
Edges are found anew only right before the paths are laid, when all ground is final, and stay as
they are then.  No path is there while an area or a flower area is. -/
theorem phases_in_order {params : Params} {e₀ : Engine σ} (hbegun : Begun working params e₀)
    {calls : List (Call σ)} (hcalls : ∀ c ∈ calls, c.KeepsRules) :
    let done := e₀.performAll ({} : Collector) calls
    let events := done.sink.events
    (∃ whole, WholeDerivation whole ∧ ruleNames events <+: whole) ∧
    (done.engine.isComplete = true ↔ "path_network" ∈ ruleNames events) ∧
    (∀ before k after, events = before ++ .adjacencyRebuilt k :: after →
      (∃ step node rest,
        after = .ruleApplied step node .pathSystem "path_network" .applied :: rest) ∧
      Quiet before ∧ Quiet after ∧ k = done.engine.graph.edgeCount ∧
      ∃ e ∈ e₀.trailAll calls, .adjacencyRebuilt k ∈ e.stepEvents ∧
        e.graph.count .area = 0 ∧ e.graph.count .flowerArea = 0) ∧
    ∀ e, e = done.engine ∨ e ∈ e₀.trailAll calls → 0 < e.graph.count .pathRect →
      e.graph.count .area = 0 ∧ e.graph.count .flowerArea = 0 := by
  intro done events
  obtain ⟨more, hmore, hcourse⟩ := course_performAll [] hcalls
  have hevents : events = more := congrArg Collector.events hmore
  have hcourse : Course e₀ (e₀.trailAll calls) events done.engine := hevents ▸ hcourse
  obtain ⟨-, hstage, htrail⟩ := hcourse.stage hbegun
  refine ⟨hstage.exists_whole, ?_, fun before k after heq => ?_, fun e he hpaths => ?_⟩
  · rw [← hstage.complete_iff]
    simp [isComplete]
  · obtain ⟨hrest, hk, hbefore, hafter⟩ := hstage.rebuilt heq
    have hmem : .adjacencyRebuilt k ∈ events := by simp [heq]
    refine ⟨hrest, hbefore, hafter, hk, ?_⟩
    rcases hcourse.mem_events hmem with hframe | ⟨e, he, hstep⟩
    · cases hframe
    · obtain ⟨hareas, hflowers⟩ := (htrail e he).1.ground_final hstep
      exact ⟨e, he, hstep, Graph.count_eq_zero_iff.2 hareas, Graph.count_eq_zero_iff.2 hflowers⟩
  · have hstage : ∃ earlier, Stage working earlier e.graph := by
      rcases he with rfl | he
      · exact ⟨_, hstage⟩
      · exact (htrail e he).2
    obtain ⟨earlier, hstage⟩ := hstage
    have hhas : e.graph.Has .pathRect := by
      by_cases hno : e.graph.Has .pathRect
      · exact hno
      · exact absurd (Graph.count_eq_zero_iff.2 hno) (Nat.ne_of_gt hpaths)
    obtain ⟨hareas, hflowers⟩ := hstage.ground_final hhas
    exact ⟨Graph.count_eq_zero_iff.2 hareas, Graph.count_eq_zero_iff.2 hflowers⟩

/-- The middling garden, derived in three calls. -/
theorem phases_in_order_middling :
    let calls : List (Call WordCycle) := [.step, .run 1500, .step]
    let done := middling.performAll ({} : Collector) calls
    let events := done.sink.events
    Begun ⟨10.0, 10.0, 580.0, 480.0⟩ {} middling ∧ (∀ c ∈ calls, c.KeepsRules) ∧
    (∃ whole, WholeDerivation whole ∧ ruleNames events <+: whole) ∧
    (done.engine.isComplete = true ↔ "path_network" ∈ ruleNames events) ∧
    (∀ before k after, events = before ++ .adjacencyRebuilt k :: after →
      (∃ step node rest,
        after = .ruleApplied step node .pathSystem "path_network" .applied :: rest) ∧
      Quiet before ∧ Quiet after ∧ k = done.engine.graph.edgeCount ∧
      ∃ e ∈ middling.trailAll calls, .adjacencyRebuilt k ∈ e.stepEvents ∧
        e.graph.count .area = 0 ∧ e.graph.count .flowerArea = 0) ∧
    ∀ e, e = done.engine ∨ e ∈ middling.trailAll calls → 0 < e.graph.count .pathRect →
      e.graph.count .area = 0 ∧ e.graph.count .flowerArea = 0 := by
  intro calls done events
  have hcalls : ∀ c ∈ calls, c.KeepsRules := by simp [calls, Call.Within]
  exact ⟨begun_middling, hcalls, phases_in_order begun_middling hcalls⟩

end Engine
end Parterre
