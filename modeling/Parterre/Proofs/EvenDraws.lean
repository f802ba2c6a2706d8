import Parterre.Proofs.AgendaHistory
import Parterre.Proofs.WordRuns

/-! # How evenly an agenda draws

The next node is drawn evenly among the entries of the highest tier that has one.  A node that
leaves a tier leaves its entry behind, and if it comes back it gets another one; so a node has an
entry for each time that it came to the tier, and is drawn accordingly often.  Where no node came
twice, the draw is even among the nodes. -/
namespace Parterre
open Chance

private theorem Tier.exists_all_eq (t : Tier) :
    ∃ rest, all = all.takeWhile (· ≠ t) ++ t :: rest := by
  cases t <;> exact ⟨_, rfl⟩

namespace Agenda
variable {a : Agenda} {g : Graph} {t : Tier} {id : NodeId}

/-! ### The entries that queueing leaves -/

def scheduleAll (a : Agenda) (calls : List (NodeId × Symbol)) : Agenda :=
  calls.foldl (fun a call => a.schedule call.1 call.2) a

/-- How often a node comes to a tier as it is queued again and again, from a tier at first or from
none. -/
def arrivals (t : Tier) (id : NodeId) : Option Tier → List (NodeId × Symbol) → Nat
  | _, [] => 0
  | tier, (i, s) :: rest =>
    if i = id then
      (if Tier.of? s = some t ∧ tier ≠ some t then 1 else 0) + arrivals t id (Tier.of? s) rest
    else arrivals t id tier rest

private theorem bucket_schedule (a : Agenda) (i : NodeId) (s : Symbol) (t : Tier) :
    (a.schedule i s).bucket t =
      if Tier.of? s = some t ∧ a.queued.get? i ≠ some t then (a.bucket t).push i
      else a.bucket t := by
  unfold schedule
  split
  · next hs => simp only [hs, reduceCtorEq, false_and, if_false]; rfl
  · next u hs =>
    split
    · next hq =>
      rw [hs, hq, if_neg]
      rintro ⟨hu, hne⟩
      exact hne hu
    · next hq =>
      change (a.setBucket u ((a.bucket u).push i)).bucket t = _
      rw [bucket_setBucket, hs]
      by_cases ht : t = u
      · subst ht
        rw [if_pos rfl, if_pos ⟨rfl, hq⟩]
      · rw [if_neg ht, if_neg fun h => ht (Option.some.inj h.1).symm]

/-- A node has an entry for each time that it came to a tier. -/
theorem count_bucket_scheduleAll (calls : List (NodeId × Symbol)) (a : Agenda) (t : Tier)
    (id : NodeId) : ((a.scheduleAll calls).bucket t).toList.count id =
      (a.bucket t).toList.count id + arrivals t id (a.queued.get? id) calls := by
  induction calls generalizing a with
  | nil => rfl
  | cons call calls ih =>
    obtain ⟨i, s⟩ := call
    change (((a.schedule i s).scheduleAll calls).bucket t).toList.count id = _
    rw [ih, bucket_schedule, queued_schedule, arrivals]
    by_cases hi : i = id
    · subst hi
      rw [if_pos rfl, if_pos rfl]
      split
      · rw [Array.toList_push, List.count_append, List.count_singleton_self, Nat.add_assoc]
      · rw [Nat.zero_add]
    · rw [if_neg hi, if_neg hi]
      split
      · rw [Array.toList_push, List.count_append, List.count_singleton, if_neg (by simpa using hi),
          Nat.add_zero]
      · rfl

/-! ### The entry that is drawn -/

/-- A tier is the highest one that has an entry, nothing in it is stale, and whatever is queued is
live in a graph. -/
structure Ready (a : Agenda) (g : Graph) (t : Tier) : Prop where
  live : ∀ id u, a.queued.get? id = some u → isLive g u id = true
  higher : ∀ u ∈ Tier.all.takeWhile (· ≠ t), a.bucket u = #[]
  nonempty : a.bucket t ≠ #[]
  queued : ∀ id ∈ a.bucket t, a.queued.get? id = some t

variable {σ : Type} [WordSource σ]

/-- The index of an entry is that of the next word, also where no word is taken. -/
theorem drawEntry_fst (n : Nat) (source : σ) :
    (drawEntry n source).1 = indexOf n (WordSource.next source).1 := by
  unfold drawEntry
  split
  · next hn =>
    subst hn
    have := indexOf_lt Nat.one_pos (WordSource.next source).1
    omega
  · rfl

private theorem nextAmong_append (g : Graph) (empties ts : List Tier) (a : Agenda) (source : σ)
    (h : ∀ u ∈ empties, a.bucket u = #[]) :
    nextAmong g (empties ++ ts) a source = nextAmong g ts a source := by
  induction empties with
  | nil => rfl
  | cons u empties ih =>
    have hnone : nextIn g u (a.bucket u).size a source = ⟨none, a, source⟩ := by
      rw [h u List.mem_cons_self]
      rfl
    rw [List.cons_append, nextAmong, hnone]
    exact ih fun v hv => h v (List.mem_cons_of_mem u hv)

/-- From a tier that is ready the first entry that is drawn is given out. -/
theorem Ready.next_eq (h : a.Ready g t) (source : σ) :
    ∃ hi : (drawEntry (a.bucket t).size source).1 < (a.bucket t).size,
      a.next g source = ⟨some (t, (a.bucket t)[(drawEntry (a.bucket t).size source).1]),
        a.dequeue t _ hi, (drawEntry (a.bucket t).size source).2⟩ := by
  have hi := drawEntry_lt (Array.size_pos_iff.2 h.nonempty) source
  have hqueued := h.queued _ (Array.getElem_mem hi)
  obtain ⟨rest, hall⟩ := t.exists_all_eq
  refine ⟨hi, ?_⟩
  rw [next, hall, nextAmong_append g _ _ a source h.higher, nextAmong]
  simp only [nextIn_of_live hi hqueued (h.live _ t hqueued)]

theorem Ready.found_eq_some_iff (h : a.Ready g t) (source : σ) :
    (a.next g source).found = some (t, id) ↔
      (a.bucket t).toList[indexOf (a.bucket t).toList.length (WordSource.next source).1]? =
        some id := by
  obtain ⟨hi, hnext⟩ := h.next_eq source
  rw [hnext, ← drawEntry_fst, Array.length_toList, Array.getElem?_toList,
    Array.getElem?_eq_getElem hi]
  simp

/-- Where a tier has one entry, it is given out without a draw. -/
theorem Ready.next_of_single (h : a.Ready g t) (hone : a.bucket t = #[id]) (source : σ) :
    (a.next g source).found = some (t, id) ∧ (a.next g source).source = source := by
  obtain ⟨hi, hnext⟩ := h.next_eq source
  constructor
  · rw [h.found_eq_some_iff, ← drawEntry_fst, Array.length_toList, hone]
    rfl
  · rw [hnext]
    change (drawEntry (a.bucket t).size source).2 = source
    rw [hone]
    rfl

theorem Ready.filter_words (h : a.Ready g t) (id : NodeId) (fed : UInt32 → σ)
    (hfed : ∀ w, (WordSource.next (fed w)).1 = w) :
    (Finset.univ.filter fun w => (a.next g (fed w)).found = some (t, id)) =
      Finset.univ.filter fun w =>
        (a.bucket t).toList[indexOf (a.bucket t).toList.length w]? = some id := by
  refine Finset.filter_congr fun w _ => ?_
  rw [h.found_eq_some_iff, hfed]

/-- The next node is drawn evenly among the entries: after nodes were queued in any order, a node
has as many entries in the highest tier as it came to that tier, and each of them gets its share of
the words, rounded down or up.  So the draw is even among the nodes if none of them came there more
than once, and where there is a single entry no word is taken. -/
theorem draws_are_even_among_entries (calls : List (NodeId × Symbol))
    (h : (scheduleAll {} calls).Ready g t) (fed : UInt32 → σ)
    (hfed : ∀ w, (WordSource.next (fed w)).1 = w) :
    let a := scheduleAll {} calls
    let entries := (a.bucket t).toList
    let words := fun id =>
      (Finset.univ.filter fun w => (a.next g (fed w)).found = some (t, id)).card
    (∀ id, entries.count id = arrivals t id none calls ∧
      arrivals t id none calls * (UInt32.size / entries.length) ≤ words id ∧
      words id ≤ arrivals t id none calls * (UInt32.size ⌈/⌉ entries.length)) ∧
    ((∀ id, arrivals t id none calls ≤ 1) → ∀ id ∈ entries,
      words id = UInt32.size / entries.toFinset.card ∨
        words id = UInt32.size ⌈/⌉ entries.toFinset.card) ∧
    ∀ id, a.bucket t = #[id] → ∀ source : σ,
      (a.next g source).found = some (t, id) ∧ (a.next g source).source = source := by
  intro a entries words
  have hcount (id : NodeId) : entries.count id = arrivals t id none calls := by
    have hstart : (({} : Agenda).bucket t).toList.count id = 0 := by cases t <;> rfl
    have hall := count_bucket_scheduleAll calls {} t id
    rwa [hstart, Nat.zero_add, show ({} : Agenda).queued.get? id = none from Table.get?_empty id]
      at hall
  have hne : entries ≠ [] := fun hnil => h.nonempty (Array.toList_eq_nil_iff.1 hnil)
  have hbounds (id : NodeId) : entries.count id * (UInt32.size / entries.length) ≤ words id ∧
      words id ≤ entries.count id * (UInt32.size ⌈/⌉ entries.length) := by
    rw [show words id = _ from congrArg Finset.card (h.filter_words id fed hfed)]
    exact card_words_bounds hne id
  refine ⟨fun id => ⟨hcount id, hcount id ▸ hbounds id⟩, fun honce id hid => ?_,
    fun id hone source => h.next_of_single hone source⟩
  have hnodup : entries.Nodup := List.nodup_iff_count_le_one.2 fun i => hcount i ▸ honce i
  have hword := hbounds id
  rw [List.count_eq_one_of_mem hnodup hid, Nat.one_mul, Nat.one_mul] at hword
  rw [List.toFinset_card_of_nodup hnodup]
  exact eq_div_or_eq_ceilDiv (List.length_pos_iff.2 hne) hword.1 hword.2

theorem ready_twoAreas (hqueued : a.queued.entries = [(1, .area), (2, .area)])
    (hareas : ∀ id ∈ a.areas.toList, id ∈ [1, 2]) (hne : a.areas ≠ #[]) :
    a.Ready twoAreas .area := by
  have hin {id : NodeId} {u : Tier} : a.queued.get? id = some u ↔
      (id, u) ∈ [(1, Tier.area), (2, Tier.area)] := by
    rw [Table.get?_eq_some_iff, hqueued]
  refine ⟨fun id u hq => ?_, fun u hu => ?_, hne, fun id hid => ?_⟩
  · have hlive : ∀ entry ∈ [(1, Tier.area), (2, Tier.area)], isLive twoAreas entry.2 entry.1 := by
      decide +kernel
    exact hlive (id, u) (hin.1 hq)
  · simp [Tier.all] at hu
  · have harea := hareas id (Array.mem_toList_iff.2 hid)
    rw [hin]
    simpa using harea

/-- Two areas that are queued once each are given out by half of the words each. -/
theorem draws_are_even_among_entries_pair :
    let a := scheduleAll {} [(1, .area), (2, .area)]
    a.Ready twoAreas .area ∧ (∀ w, (WordSource.next (WordCycle.ofList [w])).1 = w) ∧
    ∀ id ∈ (a.bucket .area).toList, (Finset.univ.filter fun w =>
      (a.next twoAreas (WordCycle.ofList [w])).found = some (.area, id)).card = 2147483648 := by
  intro a
  have hready : a.Ready twoAreas .area :=
    ready_twoAreas (by decide +kernel) (by decide +kernel) (by decide +kernel)
  have honce (id : NodeId) : arrivals .area id none [(1, .area), (2, .area)] ≤ 1 := by
    by_cases hone : 1 = id
    · subst hone
      decide
    · by_cases htwo : 2 = id
      · subst htwo
        decide
      · simp only [arrivals, if_neg hone, if_neg htwo, Nat.zero_le]
  have hbucket : (a.bucket .area).toList = [1, 2] := by decide +kernel
  have hhalf : UInt32.size ⌈/⌉ 2 = 2147483648 := by decide +kernel
  obtain ⟨-, heven, -⟩ := draws_are_even_among_entries [(1, .area), (2, .area)] hready
    (fun w => WordCycle.ofList [w]) fun w => rfl
  refine ⟨hready, fun w => rfl, fun id hid => ?_⟩
  have hwords := heven honce id hid
  rw [hbucket, show [1, 2].toFinset.card = 2 from rfl, hhalf] at hwords
  rcases hwords with h | h
  · exact h
  · exact h

/-- The first of two areas moved to another tier and came back, before the second one was queued. -/
def returned : List (NodeId × Symbol) := [(1, .area), (1, .flowerArea), (1, .area), (2, .area)]

/-- An area that came back is given out by twice as many words as the other one. -/
theorem returned_node_is_drawn_twice_as_often :
    let a := scheduleAll {} returned
    let words := fun id => (Finset.univ.filter fun w : UInt32 =>
      (a.next twoAreas (WordCycle.ofList [w])).found = some (.area, id)).card
    a.Ready twoAreas .area ∧ (a.bucket .area).toList.toFinset.card = 2 ∧
    words 1 = 2863311531 ∧ words 2 = 1431655765 ∧
    ∀ id ∈ (a.bucket .area).toList,
      ¬(words id = UInt32.size / 2 ∨ words id = UInt32.size ⌈/⌉ 2) := by
  intro a words
  have hbucket : (a.bucket .area).toList = [1, 1, 2] := by decide +kernel
  have hready : a.Ready twoAreas .area :=
    ready_twoAreas (by decide +kernel) (by decide +kernel) (by decide +kernel)
  have hwords (id : NodeId) : words id = ∑ i ∈ (Finset.range 3).filter
      (fun i => [1, 1, 2][i]? = some id), runLength 3 i := by
    rw [show words id = _ from congrArg Finset.card
      (hready.filter_words id (fun w => WordCycle.ofList [w]) fun w => rfl), hbucket]
    exact card_filter_getElem? [1, 1, 2] id
  have hfirst : words 1 = 2863311531 := by
    rw [hwords]
    decide +kernel
  have hsecond : words 2 = 1431655765 := by
    rw [hwords]
    decide +kernel
  have hhalf : UInt32.size ⌈/⌉ 2 = 2147483648 := by decide +kernel
  refine ⟨hready, by rw [hbucket]; rfl, hfirst, hsecond, fun id hid => ?_⟩
  rw [hbucket] at hid
  simp only [List.mem_cons, List.not_mem_nil, or_false] at hid
  rcases hid with rfl | rfl | rfl
  · rw [hfirst, hhalf]
    decide
  · rw [hfirst, hhalf]
    decide
  · rw [hsecond, hhalf]
    decide

end Agenda
end Parterre
