import Parterre.Proofs.AgendaDraws

/-! # What an agenda gives out

An agenda is asked to queue nodes and to give out the next one, in any order, by any graphs and
sources.  Whatever is queued under a tier was put there by the latest request to queue it, and has
not been given out since; so a node comes out only after it was queued, once for each time.  And it
does come out: as long as it stays live in its tier, it is queued until it is given out. -/
namespace Parterre
open Chance

namespace Agenda

/-! ### What a draw does to the queue -/

/-- What giving out a node, if one is found, does to the queue: the node was queued under its tier
and is queued no more, and no other one is queued that was not. -/
structure Dequeues (a b : Agenda) (found : Option (Tier × NodeId)) : Prop where
  queued_of_found : ∀ t id, found = some (t, id) → a.queued.get? id = some t
  not_queued_of_found : ∀ t id, found = some (t, id) → b.queued.get? id = none
  queued_of_left : ∀ id u, b.queued.get? id = some u → a.queued.get? id = some u

variable {a b c : Agenda} {g : Graph} {t : Tier} {found : Option (Tier × NodeId)}

theorem dequeues_none (h : ∀ id u, b.queued.get? id = some u → a.queued.get? id = some u) :
    Dequeues a b none :=
  ⟨nofun, nofun, h⟩

theorem Dequeues.of_left (h : ∀ id u, b.queued.get? id = some u → a.queued.get? id = some u)
    (hdraw : Dequeues b c found) : Dequeues a c found where
  queued_of_found t id hfound := h id t (hdraw.queued_of_found t id hfound)
  not_queued_of_found := hdraw.not_queued_of_found
  queued_of_left id u hu := h id u (hdraw.queued_of_left id u hu)

section Entries
variable {i : Nat} (hi : i < (a.bucket t).size)

private theorem queued_dequeue_self : (a.dequeue t i hi).queued.get? (a.bucket t)[i] = none := by
  simp [dequeue, Table.get?_erase]

private theorem dequeues_dequeue (hqueued : a.queued.get? (a.bucket t)[i] = some t) :
    Dequeues a (a.dequeue t i hi) (some (t, (a.bucket t)[i])) := by
  refine ⟨?_, ?_, fun id u hu => (queued_of_dequeue hi id u hu).1⟩
  · rintro t' id hfound
    cases hfound
    exact hqueued
  · rintro t' id hfound
    cases hfound
    exact queued_dequeue_self hi

end Entries

variable {σ : Type} [WordSource σ]

private theorem dequeues_nextIn (g : Graph) (t : Tier) (n : Nat) (a : Agenda) (source : σ) :
    Dequeues a (nextIn g t n a source).agenda
      ((nextIn g t n a source).found.map fun id => (t, id)) := by
  induction n generalizing a source with
  | zero => exact dequeues_none fun _ _ => id
  | succ n ih =>
    unfold nextIn
    rcases drawEntry (a.bucket t).size source with ⟨i, source'⟩
    simp only
    by_cases hi : i < (a.bucket t).size
    · rw [Array.getElem?_eq_getElem hi]
      simp only [queued_setBucket]
      split
      · next hqueued =>
        split
        · exact dequeues_dequeue hi hqueued
        · -- a node that is not live leaves the queue all the same
          exact (ih (a.dequeue t i hi) source').of_left fun id u hu =>
            (queued_of_dequeue hi id u hu).1
      · refine (ih _ source').of_left fun id u hu => ?_
        rwa [queued_setBucket] at hu
    · rw [Array.getElem?_eq_none (Nat.le_of_not_lt hi)]
      exact dequeues_none fun _ _ => id

private theorem dequeues_nextAmong (g : Graph) (ts : List Tier) (a : Agenda) (source : σ) :
    Dequeues a (nextAmong g ts a source).agenda (nextAmong g ts a source).found := by
  induction ts generalizing a source with
  | nil => exact dequeues_none fun _ _ => id
  | cons t rest ih =>
    have first := dequeues_nextIn g t (a.bucket t).size a source
    unfold nextAmong
    cases hfound : (nextIn g t (a.bucket t).size a source).found with
    | some id =>
      rw [hfound] at first
      simp only [hfound]
      exact first
    | none =>
      simp only [hfound]
      exact (ih _ _).of_left first.queued_of_left

theorem dequeues_next (a : Agenda) (g : Graph) (source : σ) :
    Dequeues a (a.next g source).agenda (a.next g source).found :=
  dequeues_nextAmong g Tier.all a source

/-! ### Requests and what came of them -/

inductive Request (σ : Type) where
  | schedule (id : NodeId) (s : Symbol)
  | next (g : Graph) (source : σ)

/-- A request that was served, with what was given out. -/
inductive Served where
  | scheduled (id : NodeId) (s : Symbol)
  | drawn (g : Graph) (found : Option (Tier × NodeId))

/-- Whether a request, as it was served, queued a node or gave it out. -/
def Served.Moves (id : NodeId) : Served → Prop
  | .scheduled i _ => i = id
  | .drawn _ found => ∃ t, found = some (t, id)

/-- The requests served so far, and the agenda after them. -/
structure Service where
  past : List Served := []
  agenda : Agenda := {}

namespace Service

def serve (s : Service) : Request σ → Service
  | .schedule id symbol =>
    ⟨s.past ++ [.scheduled id symbol], s.agenda.schedule id symbol⟩
  | .next g source =>
    ⟨s.past ++ [.drawn g (s.agenda.next g source).found], (s.agenda.next g source).agenda⟩

def serveAll (s : Service) (requests : List (Request σ)) : Service := requests.foldl serve s

end Service

/-- Whether a request to queue a node under a symbol was followed by others that neither queued it
again nor gave it out. -/
def Since (past : List Served) (id : NodeId) (s : Symbol) (after : List Served) : Prop :=
  (∃ before, past = before ++ .scheduled id s :: after) ∧ ∀ x ∈ after, ¬x.Moves id

section Past
variable {past after : List Served} {id : NodeId} {s : Symbol} {x : Served}

theorem Since.concat (h : Since past id s after) (hx : ¬x.Moves id) :
    Since (past ++ [x]) id s (after ++ [x]) := by
  obtain ⟨⟨before, rfl⟩, hafter⟩ := h
  refine ⟨⟨before, by simp⟩, fun y hy => ?_⟩
  rcases List.mem_append.1 hy with hy | hy
  · exact hafter y hy
  · exact List.mem_singleton.1 hy ▸ hx

/-- Either the node was queued just now, or the last request left it alone. -/
theorem Since.of_concat (h : Since (past ++ [x]) id s after) :
    (x = .scheduled id s ∧ after = []) ∨
      ∃ between, after = between ++ [x] ∧ Since past id s between ∧ ¬x.Moves id := by
  obtain ⟨⟨before, hpast⟩, hafter⟩ := h
  rcases List.eq_nil_or_concat after with rfl | ⟨between, y, rfl⟩
  · obtain ⟨-, hx⟩ := List.append_inj' hpast rfl
    exact .inl ⟨List.singleton_inj.1 hx, rfl⟩
  · have hlast : past ++ [x] = (before ++ .scheduled id s :: between) ++ [y] := by simpa using hpast
    obtain ⟨hfirst, hx⟩ := List.append_inj' hlast rfl
    obtain rfl := List.singleton_inj.1 hx
    exact .inr ⟨between, by simp, ⟨⟨before, hfirst⟩, fun z hz => hafter z (by simp [hz])⟩,
      hafter x (by simp)⟩

/-- Whatever gave the node out came before the request that queued it. -/
theorem Since.mem_of_drawn (h : Since past id s after) {before : List Served} {g : Graph}
    {later : List Served} (hpast : past = before ++ .drawn g (some (t, id)) :: later) :
    .scheduled id s ∈ later := by
  obtain ⟨⟨front, hfront⟩, hafter⟩ := h
  rcases List.append_eq_append_iff.1 (hfront.symm.trans hpast) with
    ⟨between, -, hrest⟩ | ⟨between, -, hrest⟩
  · rcases List.cons_eq_append_iff.1 hrest with ⟨-, hx⟩ | ⟨rest, -, hrest⟩
    · cases hx
    · exact absurd ⟨t, rfl⟩ (hafter (.drawn g (some (t, id))) (by simp [hrest]))
  · rcases List.cons_eq_append_iff.1 hrest with ⟨-, hx⟩ | ⟨rest, -, hrest⟩
    · cases hx
    · simp [hrest]

end Past

/-- The agenda keeps to what was requested: whatever is queued was left alone since it was queued,
and whatever was left alone and stayed live is queued. -/
structure Service.Faithful (s : Service) : Prop where
  sound : s.agenda.Sound
  left : ∀ id t, s.agenda.queued.get? id = some t →
    ∃ symbol after, Since s.past id symbol after ∧ Tier.of? symbol = some t
  queued : ∀ id symbol after t, Since s.past id symbol after → Tier.of? symbol = some t →
    (∀ g found, .drawn g found ∈ after → isLive g t id = true) →
    s.agenda.queued.get? id = some t

namespace Service

private theorem faithful_empty : ({} : Service).Faithful where
  sound id t h := by simp at h
  left id t h := by simp at h
  queued id symbol after t h := by
    obtain ⟨⟨before, hpast⟩, -⟩ := h
    simp at hpast

variable {s : Service}

/-- What a request leaves alone and leaves queued was left alone before. -/
theorem Faithful.left_concat (h : s.Faithful) {id : NodeId} {t : Tier} {x : Served}
    (hq : s.agenda.queued.get? id = some t) (hx : ¬x.Moves id) :
    ∃ symbol after, Since (s.past ++ [x]) id symbol after ∧ Tier.of? symbol = some t := by
  obtain ⟨symbol, after, hsince, ht⟩ := h.left id t hq
  exact ⟨symbol, after ++ [x], hsince.concat hx, ht⟩

private theorem Faithful.schedule (h : s.Faithful) (id : NodeId) (symbol : Symbol) :
    (s.serve (.schedule id symbol : Request σ)).Faithful := by
  refine ⟨h.sound.schedule id symbol, fun i t hq => ?_, fun i symbol' after t hsince ht hlive => ?_⟩
  · change (s.agenda.schedule id symbol).queued.get? i = some t at hq
    rw [queued_schedule] at hq
    split at hq
    · next hi =>
      subst hi
      exact ⟨symbol, [], ⟨⟨s.past, rfl⟩, by simp⟩, hq⟩
    · next hi => exact h.left_concat hq hi
  · change (s.agenda.schedule id symbol).queued.get? i = some t
    rw [queued_schedule]
    rcases hsince.of_concat with ⟨hx, -⟩ | ⟨between, rfl, hbetween, hx⟩
    · cases hx
      rw [if_pos rfl, ht]
    · rw [if_neg (show ¬id = i from hx)]
      exact h.queued i symbol' between t hbetween ht fun g found hg => hlive g found (by simp [hg])

private theorem Faithful.next (h : s.Faithful) (g : Graph) (source : σ) :
    (s.serve (.next g source)).Faithful := by
  have hdraw := dequeues_next s.agenda g source
  refine ⟨h.sound.next g source, fun id t hq => ?_, fun id symbol after t hsince ht hlive => ?_⟩
  · refine h.left_concat (hdraw.queued_of_left id t hq) ?_
    rintro ⟨u, hu⟩
    exact absurd (hq.symm.trans (hdraw.not_queued_of_found u id hu)) (by simp)
  · rcases hsince.of_concat with ⟨hx, -⟩ | ⟨between, rfl, hbetween, hx⟩
    · cases hx
    · have hq := h.queued id symbol between t hbetween ht fun g' found hg =>
        hlive g' found (by simp [hg])
      have draws := drawsAmong_nextAmong g Tier.all (by decide) s.agenda source
      rcases draws.kept id t hq with hq | hfound | hdead
      · exact hq
      · exact absurd hfound hx
      · exact absurd (hlive g (s.agenda.next g source).found (by simp)) (by simp [hdead])

private theorem faithful_serveAll (requests : List (Request σ)) :
    (({} : Service).serveAll requests).Faithful := by
  refine List.foldlRecOn requests serve faithful_empty fun s h request _ => ?_
  cases request with
  | schedule id symbol => exact h.schedule id symbol
  | next g source => exact h.next g source

end Service

private theorem size_eq_zero {a : Agenda} (h : ∀ t, a.bucket t = #[]) : a.size = 0 := by
  simp [size, Tier.all, h]

/-- However an agenda was used, the node that it gives out next is live, in the tier where the
latest request put it, and was queued since it was last given out; no higher tier has an entry left.
If it gives out none, no entry is left at all.  And a node that a request put in a tier is queued
there, as long as no request moved it, it was not given out, and each graph that was given shows it
live in the tier. -/
theorem nodes_are_given_out_in_order (requests : List (Request σ)) :
    let past := (({} : Service).serveAll requests).past
    let a := (({} : Service).serveAll requests).agenda
    (∀ (g : Graph) (source : σ) t id, (a.next g source).found = some (t, id) →
      isLive g t id = true ∧
      (∃ before s after, past = before ++ .scheduled id s :: after ∧ Tier.of? s = some t ∧
        ∀ s', .scheduled id s' ∉ after) ∧
      (∀ before g' t' after, past = before ++ .drawn g' (some (t', id)) :: after →
        ∃ s, .scheduled id s ∈ after) ∧
      ∀ u ∈ Tier.all.takeWhile (· ≠ t), (a.next g source).agenda.bucket u = #[]) ∧
    (∀ (g : Graph) (source : σ), (a.next g source).found = none →
      (a.next g source).agenda.size = 0) ∧
    ∀ before id s after t, past = before ++ .scheduled id s :: after → Tier.of? s = some t →
      (∀ s', .scheduled id s' ∉ after) →
      (∀ g found, .drawn g found ∈ after → isLive g t id = true ∧ ∀ u, found ≠ some (u, id)) →
      a.queued.get? id = some t ∧ id ∈ a.bucket t := by
  intro past a
  have h : (({} : Service).serveAll requests).Faithful := Service.faithful_serveAll requests
  refine ⟨fun g source t id hfound => ?_, fun g source hnone => ?_,
    fun before id s after t hpast ht hno hlive => ?_⟩
  · have draws := drawsAmong_nextAmong g Tier.all (by decide) a source
    have hq := (dequeues_next a g source).queued_of_found t id hfound
    obtain ⟨s, after, ⟨⟨before, hpast⟩, hafter⟩, ht⟩ := h.left id t hq
    have hsince : Since past id s after := ⟨⟨before, hpast⟩, hafter⟩
    exact ⟨(draws.live_of_some t id hfound).1,
      ⟨before, s, after, hpast, ht, fun s' hs' => hafter _ hs' rfl⟩,
      fun _ _ _ _ hpast' => ⟨s, hsince.mem_of_drawn hpast'⟩, draws.bucket_of_some t id hfound⟩
  · have draws := drawsAmong_nextAmong g Tier.all (by decide) a source
    exact size_eq_zero fun t => draws.bucket_of_none hnone t (Tier.mem_all t)
  · have hsince : Since past id s after := by
      refine ⟨⟨before, hpast⟩, fun x hx hmoves => ?_⟩
      cases x with
      | scheduled i s' =>
        obtain rfl : i = id := hmoves
        exact hno s' hx
      | drawn g found =>
        obtain ⟨u, hu⟩ := hmoves
        exact (hlive g found hx).2 u hu
    have hq := h.queued id s after t hsince ht fun g found hg => (hlive g found hg).1
    exact ⟨hq, h.sound id t hq⟩

def twoAreas : Graph :=
  Graph.empty.addAll [.area ⟨0.0, 0.0, 40.0, 40.0⟩ 1, .area ⟨40.0, 0.0, 40.0, 40.0⟩ 1]

/-- The first area moves to another tier and back, so that it has three entries, and is given out
once.  The other one waits meanwhile and comes next. -/
theorem nodes_are_given_out_in_order_returned :
    let source := WordCycle.ofList [3865470566]
    let requests : List (Request WordCycle) := [.schedule 1 .area, .schedule 2 .area,
      .schedule 1 .flowerArea, .schedule 1 .area, .next twoAreas source]
    let past := (({} : Service).serveAll requests).past
    let a := (({} : Service).serveAll requests).agenda
    (past = [.scheduled 1 .area] ++ .scheduled 2 .area :: [.scheduled 1 .flowerArea,
        .scheduled 1 .area, .drawn twoAreas (some (.area, 1))] ∧ isLive twoAreas .area 2 = true ∧
      a.queued.get? 2 = some .area ∧ 2 ∈ a.bucket .area) ∧
    ((a.next twoAreas source).found = some (.area, 2) ∧ ∃ before s after,
      past = before ++ .scheduled 2 s :: after ∧ Tier.of? s = some .area ∧
        ∀ s', .scheduled 2 s' ∉ after) ∧
    ((a.next Graph.empty source).found = none ∧ (a.next Graph.empty source).agenda.size = 0) := by
  intro source requests past a
  obtain ⟨hgiven, hnone, hwaits⟩ := nodes_are_given_out_in_order requests
  let asked : Agenda := ((({} : Agenda).schedule 1 .area).schedule 2 .area).schedule 1 .flowerArea
  have hdrawn : ((asked.schedule 1 .area).next twoAreas source).found = some (.area, 1) := by
    decide +kernel
  have hpast : past = [.scheduled 1 .area] ++ .scheduled 2 .area :: [.scheduled 1 .flowerArea,
      .scheduled 1 .area, .drawn twoAreas (some (.area, 1))] := by
    rw [← hdrawn]
    rfl
  have hlive : isLive twoAreas .area 2 = true := by decide +kernel
  have hsecond : (a.next twoAreas source).found = some (.area, 2) := by decide +kernel
  have hlost : (a.next Graph.empty source).found = none := by decide +kernel
  refine ⟨⟨hpast, hlive, hwaits _ 2 .area _ .area hpast rfl (by simp) fun g found hg => ?_⟩,
    ⟨hsecond, (hgiven twoAreas source .area 2 hsecond).2.1⟩, hlost, hnone Graph.empty source hlost⟩
  simp only [List.mem_cons, Served.drawn.injEq, reduceCtorEq, List.not_mem_nil, or_false,
    false_or] at hg
  obtain ⟨rfl, rfl⟩ := hg
  exact ⟨hlive, by simp⟩

end Agenda
end Parterre
