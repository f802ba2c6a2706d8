import Mathlib.Data.List.Nodup
import Parterre.Proofs.GardenSteps

/-! # An agenda without leftovers

In general the agenda cleans up late and holds stale entries besides the live ones.  The garden
grammar leaves none behind.  A production changes no other node than the one drawn, which is off the
agenda by then, and whatever it adds is new; so every entry stays live, in its tier and by itself,
until it is drawn.  Between calls the entries are the nonterminals, and a draw throws nothing
away. -/
namespace Parterre
open Chance

namespace Agenda

def entries (a : Agenda) : List (Tier × NodeId) :=
  Tier.all.flatMap fun t => (a.bucket t).toList.map fun id => (t, id)

/-- Whether each entry is queued under its tier and is there once, and whatever is queued is live
in a graph: nothing on the agenda is stale. -/
structure Tidy (a : Agenda) (g : Graph) : Prop where
  nodup : ∀ t, (a.bucket t).toList.Nodup
  queued_of_mem : ∀ t id, id ∈ a.bucket t → a.queued.get? id = some t
  live_of_queued : ∀ id t, a.queued.get? id = some t → isLive g t id = true

end Agenda

/-- The nonterminals of a graph, each with its tier. -/
def Graph.waiting (g : Graph) : List (Tier × NodeId) :=
  g.nonterminals.filterMap fun n => (Tier.of? n.symbol).map fun t => (t, n.id)

namespace Graph
variable {g : Graph}

theorem mem_waiting_iff {t : Tier} {id : NodeId} :
    (t, id) ∈ g.waiting ↔ Agenda.isLive g t id = true := by
  simp only [waiting, List.mem_filterMap, Option.map_eq_some_iff, Prod.mk.injEq,
    Agenda.isLive_iff]
  constructor
  · rintro ⟨n, hn, t', ht, rfl, rfl⟩
    exact ⟨n.element, mem_nodes_iff.1 (List.mem_filter.1 hn).1, ht⟩
  · rintro ⟨e, he, ht⟩
    have hn : (⟨id, e⟩ : Node) ∈ g.nonterminals :=
      List.mem_filter.2 ⟨mem_nodes_iff.2 he, Tier.exists_of?_iff.1 ⟨t, ht⟩⟩
    exact ⟨⟨id, e⟩, hn, t, ht, rfl, rfl⟩

/-- Every nonterminal has a tier, so none is left out. -/
@[simp] theorem map_id_waiting (g : Graph) :
    g.waiting.map Prod.snd = g.nonterminals.map Node.id := by
  unfold waiting nonterminals
  induction g.nodes with
  | nil => rfl
  | cons n nodes ih =>
    rw [List.filter_cons]
    split
    · next hn =>
      obtain ⟨t, ht⟩ := Tier.exists_of?_iff.2 hn
      simp only [List.filterMap_cons, ht, Option.map_some, List.map_cons, ih]
    · exact ih

theorem nodup_ids_waiting (g : Graph) : (g.waiting.map Prod.snd).Nodup := by
  rw [map_id_waiting]
  exact g.nodup_ids.sublist (List.filter_sublist.map Node.id)

@[simp] theorem length_waiting (g : Graph) : g.waiting.length = g.nonterminals.length := by
  have hlength := congrArg List.length g.map_id_waiting
  rwa [List.length_map, List.length_map] at hlength

end Graph

namespace Agenda
variable {a b : Agenda} {g g' : Graph} {t u : Tier} {id : NodeId}

@[simp] theorem mem_entries_iff : (t, id) ∈ a.entries ↔ id ∈ a.bucket t := by
  simp only [entries, List.mem_flatMap, List.mem_map, Prod.mk.injEq, Array.mem_toList_iff]
  constructor
  · rintro ⟨t', -, id', hid, rfl, rfl⟩
    exact hid
  · intro hid
    exact ⟨t, Tier.mem_all t, id, hid, rfl, rfl⟩

@[simp] theorem length_entries (a : Agenda) : a.entries.length = a.size := by
  simp only [entries, size, Tier.all, List.flatMap_cons, List.flatMap_nil, List.append_nil,
    List.length_append, List.length_map, Array.length_toList, List.map_cons, List.map_nil,
    List.foldl_cons, List.foldl_nil]
  omega

/-- Entries of different tiers differ, so only one of the same tier could be there twice. -/
theorem nodup_entries (h : ∀ t, (a.bucket t).toList.Nodup) : a.entries.Nodup := by
  refine List.nodup_flatMap.2 ⟨fun t _ => ?_, ?_⟩
  · exact (h t).map fun _ _ heq => congrArg Prod.snd heq
  · have hall : Tier.all.Pairwise (· ≠ ·) := by decide
    refine hall.imp fun {t u} htu => ?_
    rintro ⟨v, i⟩ ht hu
    obtain ⟨j, -, hj⟩ := List.mem_map.1 ht
    obtain ⟨k, -, hk⟩ := List.mem_map.1 hu
    exact htu ((congrArg Prod.fst hj).trans (congrArg Prod.fst hk).symm)

theorem perm_entries (hmem : (a.bucket t).toList.Perm (id :: (b.bucket t).toList))
    (hrest : ∀ u, u ≠ t → b.bucket u = a.bucket u) : a.entries.Perm ((t, id) :: b.entries) := by
  obtain ⟨front, back, hall⟩ := List.append_of_mem (Tier.mem_all t)
  have hnodup : (front ++ t :: back).Nodup := hall ▸ by decide
  obtain ⟨hback, hfront⟩ : t ∉ back ∧ t ∉ front := by
    rw [List.nodup_middle, List.nodup_cons, List.mem_append, not_or] at hnodup
    exact ⟨hnodup.1.2, hnodup.1.1⟩
  have hsame : ∀ ts : List Tier, t ∉ ts →
      (ts.flatMap fun u => (a.bucket u).toList.map fun i => (u, i)) =
        ts.flatMap fun u => (b.bucket u).toList.map fun i => (u, i) := by
    intro ts ht
    refine List.flatMap_congr fun u hu => ?_
    rw [hrest u fun hut => ht (hut ▸ hu)]
  simp only [entries, hall, List.flatMap_append, List.flatMap_cons, hsame front hfront,
    hsame back hback]
  have hstep := (hmem.map fun i => (t, i)).append_right
    (back.flatMap fun u => (b.bucket u).toList.map fun i => (u, i))
  exact (hstep.append_left _).trans List.perm_middle

/-! ### Queueing -/

namespace Tidy

private theorem tier_eq (h : a.Tidy g) {n : Node} (hn : g.node? id = some n)
    (hq : a.queued.get? id = some t) : Tier.of? n.symbol = some t := by
  obtain ⟨e, he, ht⟩ := isLive_iff.1 (h.live_of_queued id t hq)
  obtain ⟨he', -⟩ := Graph.node?_eq_some_iff.1 hn
  obtain rfl := Option.some.inj (he.symm.trans he')
  exact ht

/-- A tidy agenda also serves a graph in which whatever is queued is live as before. -/
theorem of_live (h : a.Tidy g) (hlive : ∀ id t, a.queued.get? id = some t →
    isLive g t id = true → isLive g' t id = true) : a.Tidy g' :=
  ⟨h.nodup, h.queued_of_mem, fun id t hq => hlive id t hq (h.live_of_queued id t hq)⟩

private theorem notMem_of_not_queued (h : a.Tidy g) (hnone : a.queued.get? id = none) (t : Tier) :
    id ∉ a.bucket t := by
  intro hmem
  rw [h.queued_of_mem t id hmem] at hnone
  cases hnone

private theorem enter (h : a.Tidy g) {s : Symbol} (ht : Tier.of? s = some t)
    (hlive : isLive g t id = true) (hnone : a.queued.get? id = none) :
    (a.schedule id s).Tidy g := by
  have hbucket (u : Tier) : (a.schedule id s).bucket u =
      if u = t then (a.bucket t).push id else a.bucket u := by
    simp only [schedule, ht, hnone, reduceCtorEq, ↓reduceIte]
    exact bucket_setBucket a t u _
  have hnew := h.notMem_of_not_queued hnone
  refine ⟨fun u => ?_, fun u i hi => ?_, fun i u hq => ?_⟩
  · rw [hbucket]
    split
    · rw [Array.toList_push]
      exact (List.perm_append_singleton id _).nodup_iff.2
        (List.nodup_cons.2 ⟨mt Array.mem_toList_iff.1 (hnew t), h.nodup t⟩)
    · exact h.nodup u
  · have hold : ∀ v, i ∈ a.bucket v → (a.schedule id s).queued.get? i = some v := by
      intro v hv
      rw [queued_schedule, if_neg fun hid : id = i => hnew v (hid ▸ hv)]
      exact h.queued_of_mem v i hv
    rw [hbucket] at hi
    split at hi
    · next hu =>
      subst hu
      rcases Array.mem_push.1 hi with hi | rfl
      · exact hold u hi
      · rw [queued_schedule, if_pos rfl, ht]
    · exact hold u hi
  · rw [queued_schedule] at hq
    split at hq
    · next hid =>
      subst hid
      cases ht.symm.trans hq
      exact hlive
    · exact h.live_of_queued i u hq

/-- Queueing a node of the graph keeps an agenda tidy: either the node is queued already, under its
tier, or it is not queued at all. -/
theorem scheduleLive (h : a.Tidy g) (id : NodeId) : (scheduleLive g a id).Tidy g := by
  unfold Agenda.scheduleLive
  split
  · next n hn =>
    obtain ⟨he, -⟩ := Graph.node?_eq_some_iff.1 hn
    cases hq : a.queued.get? id with
    | some t =>
      have ht := h.tier_eq hn hq
      simp only [schedule, ht, hq, ↓reduceIte]
      exact h
    | none =>
      cases ht : Tier.of? n.symbol with
      | some t => exact h.enter ht (isLive_iff.2 ⟨n.element, he, ht⟩) hq
      | none =>
        have herase : a.queued.erase id = a.queued := by
          refine Table.ext_get? fun i => ?_
          rw [Table.get?_erase]
          split
          · next hi => rw [← hi, hq]
          · rfl
        simp only [schedule, ht, herase]
        exact h
  · exact h

private theorem scheduleAll (h : a.Tidy g) (ids : List NodeId) :
    (ids.foldl (Agenda.scheduleLive g) a).Tidy g := by
  induction ids generalizing a with
  | nil => exact h
  | cons id ids ih => exact ih (h.scheduleLive id)

theorem absorb (h : a.Tidy g) : (a.absorb g).Tidy g.forgetChanges :=
  (h.scheduleAll g.recordedChanges).of_live fun _ _ _ hlive => hlive

end Tidy

theorem tidy_empty (g : Graph) : ({} : Agenda).Tidy g := by
  have hbucket : ∀ t, ({} : Agenda).bucket t = #[] := fun t => by cases t <;> rfl
  refine ⟨fun t => ?_, fun t id hid => ?_, fun id t hq => ?_⟩
  · rw [hbucket]
    exact List.nodup_nil
  · rw [hbucket] at hid
    simp at hid
  · rw [Table.get?_empty] at hq
    cases hq

/-! ### Drawing -/

section Draws
variable {i : Nat} (hi : i < (a.bucket t).size)

@[simp] theorem get?_queued_dequeue (id : NodeId) : (a.dequeue t i hi).queued.get? id =
    if (a.bucket t)[i] = id then none else a.queued.get? id :=
  Table.get?_erase _ _ _

private theorem perm_entries_dequeue :
    a.entries.Perm ((t, (a.bucket t)[i]) :: (a.dequeue t i hi).entries) := by
  refine perm_entries ?_ fun u hu => ?_
  · rw [bucket_dequeue, bucket_setBucket, if_pos rfl]
    exact perm_swapRemove hi
  · rw [bucket_dequeue, bucket_setBucket, if_neg hu]

private theorem Tidy.dequeue (h : a.Tidy g) : (a.dequeue t i hi).Tidy g := by
  have hqueued : a.queued.get? (a.bucket t)[i] = some t :=
    h.queued_of_mem t _ (Array.getElem_mem hi)
  have hleft : ((a.bucket t)[i] :: (swapRemove (a.bucket t) i).toList).Nodup :=
    (perm_swapRemove hi).nodup_iff.1 (h.nodup t)
  obtain ⟨hgone, hnodup⟩ := List.nodup_cons.1 hleft
  have hsub : ∀ j ∈ swapRemove (a.bucket t) i, j ∈ a.bucket t := fun j hj =>
    Array.mem_toList_iff.1 ((perm_swapRemove hi).mem_iff.2
      (List.mem_cons_of_mem _ (Array.mem_toList_iff.2 hj)))
  refine ⟨fun u => ?_, fun u j hj => ?_, fun j u hq => ?_⟩
  · rw [bucket_dequeue, bucket_setBucket]
    split
    · exact hnodup
    · exact h.nodup u
  · -- an entry that is left is not the one drawn, so it is queued as before
    rw [bucket_dequeue, bucket_setBucket] at hj
    have hold : a.queued.get? j = some u ∧ j ≠ (a.bucket t)[i] := by
      split at hj
      · next hu =>
        subst hu
        refine ⟨h.queued_of_mem u j (hsub j hj), ?_⟩
        rintro rfl
        exact hgone (Array.mem_toList_iff.2 hj)
      · next hu =>
        have hqj := h.queued_of_mem u j hj
        refine ⟨hqj, ?_⟩
        rintro rfl
        exact hu (Option.some.inj (hqj.symm.trans hqueued))
    exact (queued_dequeue hi j u hold.1).resolve_right hold.2
  · exact h.live_of_queued j u (queued_of_dequeue hi j u hq).1

end Draws

variable {σ : Type} [WordSource σ]

theorem Tidy.nextIn_eq (h : a.Tidy g) (t : Tier) (source : σ) :
    (a.bucket t = #[] ∧ nextIn g t (a.bucket t).size a source = ⟨none, a, source⟩) ∨
    ∃ i, ∃ hi : i < (a.bucket t).size, nextIn g t (a.bucket t).size a source =
      ⟨some (a.bucket t)[i], a.dequeue t i hi, (drawEntry (a.bucket t).size source).2⟩ := by
  rcases Nat.eq_zero_or_pos (a.bucket t).size with hzero | hpos
  · have hempty := Array.size_eq_zero_iff.1 hzero
    exact .inl ⟨hempty, by rw [hzero]; rfl⟩
  · right
    have hi := drawEntry_lt hpos source
    have hqueued := h.queued_of_mem t _ (Array.getElem_mem hi)
    exact ⟨_, hi, nextIn_of_live hi hqueued (h.live_of_queued _ t hqueued)⟩

private theorem Tidy.nextAmong_eq (h : a.Tidy g) (ts : List Tier) (source : σ) :
    ((∀ t ∈ ts, a.bucket t = #[]) ∧ nextAmong g ts a source = ⟨none, a, source⟩) ∨
    ∃ t i, ∃ hi : i < (a.bucket t).size, nextAmong g ts a source =
      ⟨some (t, (a.bucket t)[i]), a.dequeue t i hi, (drawEntry (a.bucket t).size source).2⟩ := by
  induction ts with
  | nil => exact .inl ⟨fun t ht => (by cases ht), rfl⟩
  | cons t rest ih =>
    unfold nextAmong
    rcases h.nextIn_eq t source with ⟨hempty, hnone⟩ | ⟨i, hi, hsome⟩
    · simp only [hnone]
      refine ih.imp_left fun hrest => ⟨fun u hu => ?_, hrest.2⟩
      rcases List.mem_cons.1 hu with rfl | hu
      · exact hempty
      · exact hrest.1 u hu
    · simp only [hsome]
      exact .inr ⟨t, i, hi, rfl⟩

private theorem Tidy.next_eq (h : a.Tidy g) (source : σ) :
    (a.entries = [] ∧ a.next g source = ⟨none, a, source⟩) ∨
    ∃ t i, ∃ hi : i < (a.bucket t).size, a.next g source =
      ⟨some (t, (a.bucket t)[i]), a.dequeue t i hi, (drawEntry (a.bucket t).size source).2⟩ := by
  refine (h.nextAmong_eq Tier.all source).imp_left fun ⟨hempty, hnone⟩ => ⟨?_, hnone⟩
  refine List.flatMap_eq_nil_iff.2 fun t ht => ?_
  rw [hempty t ht]
  rfl

private theorem exists_takeWords_drawEntry (n : Nat) (source : σ) :
    ∃ k ≤ 1, (drawEntry n source).2 = (takeWords k source).2 := by
  unfold drawEntry
  split
  · exact ⟨0, Nat.zero_le 1, rfl⟩
  · exact ⟨1, Nat.le_refl 1, rfl⟩

end Agenda

/-- What a production of the grammar does to a node leaves the other ones live. -/
theorem Work.Expands.isLive_of_ne {σ : Type} [WordSource σ] {work : Work σ Outcome}
    {params : Params} {g : Graph} {id : NodeId} {e : Element} {name : String}
    (h : work.Expands params g id e name) (hg : g.Fresh) (he : g.element? id = some e) {i : NodeId}
    (hi : i ≠ id) {u : Tier} (hlive : Agenda.isLive g u i = true) :
    Agenda.isLive work.graph u i = true := by
  obtain ⟨y, hy, hu⟩ := Agenda.isLive_iff.1 hlive
  rcases h with ⟨-, x, -, hgraph⟩ | ⟨-, -, -, hgraph⟩
  · rw [hgraph]
    exact Agenda.isLive_iff.2 ⟨y, Graph.element?_expanded_of_ne hg he hi hy, hu⟩
  · rw [hgraph]
    exact hlive

namespace Engine
variable {σ : Type} [WordSource σ] {e : Engine σ}

/-- The state between two calls of an engine that works by the garden grammar: besides what holds
of any engine that does, nothing on the agenda is stale. -/
structure Orderly (e : Engine σ) : Prop where
  gardening : e.Gardening
  tidy : e.agenda.Tidy e.graph

omit [WordSource σ] in
private theorem tidy_expandBy {p : Production σ} {n : Node}
    (h : e.agenda.Tidy (p.apply e.params n.id e.graph e.source).graph) :
    (e.expandBy p n ()).engine.agenda.Tidy (e.expandBy p n ()).engine.graph := by
  have hafter : (e.applyRule p n).2.agenda.Tidy (e.applyRule p n).2.graph :=
    h.absorb.scheduleLive n.id
  unfold expandBy
  simp only
  split <;> exact hafter

namespace Orderly

private theorem start (working : Rect) (params : Params) (source : σ) :
    (start working params source).Orderly :=
  ⟨.start working params source, (Agenda.tidy_empty _).absorb⟩

theorem upcoming_eq (h : e.Orderly) :
    (e.agenda.entries = [] ∧ e.upcoming = ⟨none, e.agenda, e.source⟩) ∨
    ∃ t i, ∃ hi : i < (e.agenda.bucket t).size, e.upcoming =
      ⟨some (t, (e.agenda.bucket t)[i]), e.agenda.dequeue t i hi,
        (Agenda.drawEntry (e.agenda.bucket t).size e.source).2⟩ := by
  unfold upcoming
  rw [h.gardening.attended.absorb_eq]
  exact h.tidy.next_eq e.source

theorem step_eq_self (h : e.Orderly) (hnone : e.upcoming.found = none) :
    (e.step ()).engine = e := by
  rw [(step_of_none () hnone).engine]
  unfold taken
  rw [h.gardening.attended.absorb_eq]
  rcases h.upcoming_eq with ⟨-, hup⟩ | ⟨t, i, hi, hup⟩
  · rw [hup]
  · rw [hup] at hnone
    cases hnone

/-- A step leaves nothing stale: the node that it works on is off the agenda when the graph
changes, and all other nodes stay live. -/
theorem step (h : e.Orderly) : (e.step ()).engine.Orderly := by
  rcases h.upcoming_eq with ⟨-, hup⟩ | ⟨t, i, hi, hup⟩
  · have hnone : e.upcoming.found = none := by rw [hup]
    rw [h.step_eq_self hnone]
    exact h
  · refine ⟨h.gardening.step, ?_⟩
    have hfound : e.upcoming.found = some (t, (e.agenda.bucket t)[i]) := by rw [hup]
    obtain ⟨n, p, source, hid, hx, ht, hn, hp, hwork⟩ := h.gardening.draws hfound
    rw [(step_of_rule () hfound hn hp).engine]
    apply tidy_expandBy
    have hagenda : (e.taken.prepared t).agenda = e.agenda.dequeue t i hi := by
      rw [prepared_agenda]
      exact congrArg Drawn.agenda hup
    have hnode : (e.prepared t).graph.element? (e.agenda.bucket t)[i] = some n.element := by
      rw [Gardening.prepared_element?, ← hid]
      exact hx
    change (e.taken.prepared t).agenda.Tidy
      (p.apply (e.taken.prepared t).params n.id _ source).graph
    rw [hagenda, prepared_params, hid]
    refine (h.tidy.dequeue hi).of_live fun j u hq hlive => ?_
    have hj : j ≠ (e.agenda.bucket t)[i] := by
      rintro rfl
      rw [Agenda.get?_queued_dequeue, if_pos rfl] at hq
      cases hq
    refine hwork.isLive_of_ne (h.gardening.fresh_prepared t) hnode hj ?_
    obtain ⟨y, hy, hu⟩ := Agenda.isLive_iff.1 hlive
    exact Agenda.isLive_iff.2 ⟨y, (Gardening.prepared_element? e t j).trans hy, hu⟩

theorem queued_iff (h : e.Orderly) {t : Tier} {id : NodeId} :
    e.agenda.queued.get? id = some t ↔ (t, id) ∈ e.graph.waiting := by
  rw [Graph.mem_waiting_iff]
  refine ⟨h.tidy.live_of_queued id t, fun hlive => ?_⟩
  exact (h.gardening.attended.covers id t hlive).resolve_right (by simp)

theorem perm_waiting (h : e.Orderly) : e.agenda.entries.Perm e.graph.waiting := by
  have hwaiting : e.graph.waiting.Nodup := .of_map Prod.snd e.graph.nodup_ids_waiting
  refine (List.perm_ext_iff_of_nodup (Agenda.nodup_entries h.tidy.nodup) hwaiting).2 ?_
  rintro ⟨t, id⟩
  rw [Agenda.mem_entries_iff, ← h.queued_iff]
  exact ⟨h.tidy.queued_of_mem t id, h.gardening.attended.sound id t⟩

end Orderly

theorem Leads.orderly {working : Rect} {params : Params} {source : σ}
    (h : Leads (fun rules => rules = .standard) (start working params source) e) : e.Orderly := by
  refine h.preserves (.start working params source) (fun _ ho => ho.step) ?_
  rintro e rules rfl ho
  rw [show e.withRules .standard = e from by rw [← ho.gardening.rules]; rfl]
  exact ho

/-- Under the standard rules the agenda is exact.  Between calls its entries are the nonterminals,
each once and in its tier, with nothing else among them, and so is what is queued; there are as many
as are pending.  The draw that a step begins with changes nothing if there are none, and else takes
one entry out, with its place in the queue, for at most one word. -/
theorem agenda_is_exact {working : Rect} {params : Params} {source : σ}
    (h : Leads (fun rules => rules = .standard) (start working params source) e) :
    e.agenda.entries.Perm e.graph.waiting ∧ (e.agenda.entries.map Prod.snd).Nodup ∧
    (∀ t id, e.agenda.queued.get? id = some t ↔ (t, id) ∈ e.graph.waiting) ∧
    e.agenda.size = e.pending ∧
    (e.agenda.entries = [] ∧ e.upcoming = ⟨none, e.agenda, e.source⟩ ∨
      ∃ t id, e.upcoming.found = some (t, id) ∧
        e.agenda.entries.Perm ((t, id) :: e.upcoming.agenda.entries) ∧
        (∀ i, e.upcoming.agenda.queued.get? i =
          if i = id then none else e.agenda.queued.get? i) ∧
        ∃ k ≤ 1, e.upcoming.source = (takeWords k e.source).2) := by
  have ho := h.orderly
  have hperm := ho.perm_waiting
  refine ⟨hperm, ?_, fun t id => ho.queued_iff, ?_, ?_⟩
  · exact (hperm.map Prod.snd).nodup_iff.2 e.graph.nodup_ids_waiting
  · rw [← Agenda.length_entries, hperm.length_eq, Graph.length_waiting]
    rfl
  · rcases ho.upcoming_eq with hnone | ⟨t, i, hi, hup⟩
    · exact .inl hnone
    · rw [hup]
      refine .inr ⟨t, _, rfl, Agenda.perm_entries_dequeue hi, fun j => ?_,
        Agenda.exists_takeWords_drawEntry _ _⟩
      simp only [Agenda.get?_queued_dequeue, eq_comm]

/-- The middling garden after five steps, when five areas and the path system wait. -/
theorem agenda_is_exact_midway :
    let e := (middling.performAll () [.step, .withRules .standard, .run 4]).engine
    Leads (fun rules => rules = .standard) middling e ∧ e.agenda.size = 6 ∧
      e.agenda.entries.Perm e.graph.waiting ∧ (e.agenda.entries.map Prod.snd).Nodup ∧
      (∀ t id, e.agenda.queued.get? id = some t ↔ (t, id) ∈ e.graph.waiting) ∧
      e.agenda.size = e.pending ∧
      (e.agenda.entries = [] ∧ e.upcoming = ⟨none, e.agenda, e.source⟩ ∨
        ∃ t id, e.upcoming.found = some (t, id) ∧
          e.agenda.entries.Perm ((t, id) :: e.upcoming.agenda.entries) ∧
          (∀ i, e.upcoming.agenda.queued.get? i =
            if i = id then none else e.agenda.queued.get? i) ∧
          ∃ k ≤ 1, e.upcoming.source = (takeWords k e.source).2) := by
  intro e
  have hleads : Leads (fun rules => rules = .standard) middling e :=
    leads_performAll () (by simp [Call.Within])
  exact ⟨hleads, by decide +kernel, agenda_is_exact hleads⟩

end Engine
end Parterre
