import Parterre.Derivation.Agenda
import Parterre.Proofs.GraphEdits

/-! # Draws from the agenda

The agenda cleans up late, so two facts are kept about it instead of an exact list of what waits:
whatever is queued under a tier is among the entries of that tier, and every live node is queued
under its own tier.  Drawing loses nothing but stale entries, and finds a live node of the highest
tier that has one. -/
namespace Parterre
open Chance

namespace Tier

theorem exists_of?_iff {s : Symbol} : (∃ t, of? s = some t) ↔ s.isNonterminal = true := by
  cases s <;> simp [of?, Symbol.isNonterminal]

theorem mem_all (t : Tier) : t ∈ all := by cases t <;> decide

end Tier

section SwapRemove
variable {α : Type} {xs : Array α} {i : Nat}

private theorem size_swapRemove (h : i < xs.size) : (swapRemove xs i).size + 1 = xs.size := by
  simpa using (perm_swapRemove h).length_eq.symm

private theorem mem_swapRemove_of_ne (h : i < xs.size) {x : α} (hx : x ∈ xs) (hne : x ≠ xs[i]) :
    x ∈ swapRemove xs i := by
  have := (perm_swapRemove h).mem_iff.1 (Array.mem_toList_iff.2 hx)
  exact Array.mem_toList_iff.1 ((List.mem_cons.1 this).resolve_left hne)

end SwapRemove

namespace Agenda

/-- What is queued under a tier is among the entries of that tier. -/
def Sound (a : Agenda) : Prop := ∀ id t, a.queued.get? id = some t → id ∈ a.bucket t

/-- Every live node of a graph is queued under its tier, except for those with given ids. -/
def Covers (a : Agenda) (g : Graph) (except : List NodeId) : Prop :=
  ∀ id t, isLive g t id = true → a.queued.get? id = some t ∨ id ∈ except

theorem isLive_iff {g : Graph} {t : Tier} {id : NodeId} :
    isLive g t id = true ↔ ∃ e, g.element? id = some e ∧ Tier.of? e.symbol = some t := by
  unfold isLive Graph.node?
  cases g.element? id with
  | none => simp
  | some e =>
    simp only [Option.map_some, Option.some.injEq, exists_eq_left']
    exact decide_eq_true_iff

theorem Covers.mono {a : Agenda} {g : Graph} {xs ys : List NodeId} (h : a.Covers g xs)
    (hsub : xs ⊆ ys) : a.Covers g ys :=
  fun id t hl => (h id t hl).imp_right (@hsub id)

/-- The agenda of a graph also serves a later one, apart from what was changed in between. -/
theorem Covers.follows {a : Agenda} {g g' : Graph} {xs more : List NodeId} (h : a.Covers g xs)
    (hg : g.Follows more g') : a.Covers g' (xs ++ more) := by
  intro id t hl
  obtain ⟨e, he, ht⟩ := isLive_iff.1 hl
  rcases hg.element? id e he with he | hm
  · exact (h id t (isLive_iff.2 ⟨e, he, ht⟩)).imp_right (List.mem_append_left _)
  · exact .inr (List.mem_append_right _ hm)

/-! ### Queueing -/

@[simp] theorem queued_schedule (a : Agenda) (id : NodeId) (s : Symbol) (i : NodeId) :
    (a.schedule id s).queued.get? i = if id = i then Tier.of? s else a.queued.get? i := by
  unfold schedule
  split
  · next hs => rw [Table.get?_erase, hs]
  · next t hs =>
    split
    · next hq =>
      split
      · next hi => rw [← hi, hq, hs]
      · rfl
    · rw [Table.get?_insert, hs]

private theorem mem_bucket_schedule {a : Agenda} {i : NodeId} {u : Tier} (h : i ∈ a.bucket u)
    (id : NodeId) (s : Symbol) : i ∈ (a.schedule id s).bucket u := by
  unfold schedule
  split
  · exact h
  · split
    · exact h
    · change i ∈ (a.setBucket _ _).bucket u
      rw [bucket_setBucket]
      split
      · next hu => exact Array.mem_push_of_mem _ (hu ▸ h)
      · exact h

theorem Sound.schedule {a : Agenda} (h : a.Sound) (id : NodeId) (s : Symbol) :
    (a.schedule id s).Sound := by
  intro i u hq
  rw [queued_schedule] at hq
  split at hq
  · next hi =>
    subst hi
    by_cases hold : a.queued.get? id = some u
    · exact mem_bucket_schedule (h id u hold) id s
    · simp only [Agenda.schedule, hq, hold, ↓reduceIte]
      change id ∈ (a.setBucket _ _).bucket u
      rw [bucket_setBucket, if_pos rfl]
      exact Array.mem_push_self
  · exact mem_bucket_schedule (h i u hq) id s

theorem Sound.scheduleLive {a : Agenda} (h : a.Sound) (g : Graph) (id : NodeId) :
    (scheduleLive g a id).Sound := by
  unfold Agenda.scheduleLive
  split
  · exact h.schedule _ _
  · exact h

theorem Covers.scheduleLive {a : Agenda} {g : Graph} {id : NodeId} {rest : List NodeId}
    (h : a.Covers g (id :: rest)) : (scheduleLive g a id).Covers g rest := by
  intro i t hl
  by_cases hi : id = i
  · subst hi
    obtain ⟨e, he, ht⟩ := isLive_iff.1 hl
    left
    simp [Agenda.scheduleLive, Graph.node?, he, queued_schedule, Node.symbol, ht]
  · have hq : (Agenda.scheduleLive g a id).queued.get? i = a.queued.get? i := by
      unfold Agenda.scheduleLive
      split
      · rw [queued_schedule, if_neg hi]
      · rfl
    rw [hq]
    refine (h i t hl).imp_right fun hm => ?_
    exact (List.mem_cons.1 hm).resolve_left (Ne.symm hi)

theorem Sound.scheduleAll {a : Agenda} (h : a.Sound) (g : Graph) (ids : List NodeId) :
    (ids.foldl (Agenda.scheduleLive g) a).Sound := by
  induction ids generalizing a with
  | nil => exact h
  | cons id ids ih => exact ih (h.scheduleLive g id)

theorem Covers.scheduleAll {a : Agenda} {g : Graph} {ids rest : List NodeId}
    (h : a.Covers g (ids ++ rest)) : (ids.foldl (Agenda.scheduleLive g) a).Covers g rest := by
  induction ids generalizing a with
  | nil => exact h
  | cons id ids ih => exact ih h.scheduleLive

/-! ### Drawing from one tier -/

variable {σ : Type} [WordSource σ]

theorem drawEntry_lt {n : Nat} (h : 0 < n) (source : σ) : (drawEntry n source).1 < n := by
  unfold drawEntry
  split
  · exact h
  · exact indexOf_lt h _

/-- What a draw of entries of one tier leaves: other tiers are as before, nothing but entries that
are not live were lost, and if nothing is found, the tier is used up. -/
structure DrawsFrom (g : Graph) (t : Tier) (a : Agenda) (d : Drawn σ NodeId) : Prop where
  bucket_of_ne : ∀ u, u ≠ t → d.agenda.bucket u = a.bucket u
  bucket_of_none : d.found = none → d.agenda.bucket t = #[]
  live_of_some : ∀ id, d.found = some id → isLive g t id = true
  kept : ∀ id u, a.queued.get? id = some u →
    d.agenda.queued.get? id = some u ∨ d.found = some id ∨ u = t ∧ isLive g t id = false
  sound : a.Sound → d.agenda.Sound

/-- Taking out an entry keeps an agenda sound if it leaves the queue as well, or was not queued. -/
theorem Sound.take {a b : Agenda} {t : Tier} {i : Nat} (h : a.Sound) (hi : i < (a.bucket t).size)
    (hb : ∀ u, b.bucket u = (a.setBucket t (swapRemove (a.bucket t) i)).bucket u)
    (hq : ∀ id u, b.queued.get? id = some u →
      a.queued.get? id = some u ∧ ¬(id = (a.bucket t)[i] ∧ u = t)) : b.Sound := by
  intro id u hu
  obtain ⟨ha, hne⟩ := hq id u hu
  rw [hb, bucket_setBucket]
  split
  · next hut =>
    subst hut
    exact mem_swapRemove_of_ne hi (h id u ha) fun he => hne ⟨he, rfl⟩
  · exact h id u ha

omit [WordSource σ] in
theorem DrawsFrom.cons {g : Graph} {t : Tier} {a b : Agenda} {d : Drawn σ NodeId} {i : Nat}
    (h : DrawsFrom g t b d) (hi : i < (a.bucket t).size)
    (hb : ∀ u, b.bucket u = (a.setBucket t (swapRemove (a.bucket t) i)).bucket u)
    (hq : ∀ id u, b.queued.get? id = some u →
      a.queued.get? id = some u ∧ ¬(id = (a.bucket t)[i] ∧ u = t))
    (hk : ∀ id u, a.queued.get? id = some u →
      b.queued.get? id = some u ∨ u = t ∧ isLive g t id = false) : DrawsFrom g t a d where
  bucket_of_ne u hu := by rw [h.bucket_of_ne u hu, hb, bucket_setBucket, if_neg hu]
  bucket_of_none := h.bucket_of_none
  live_of_some := h.live_of_some
  kept id u hu := by
    rcases hk id u hu with hu | hu
    · exact h.kept id u hu
    · exact .inr (.inr hu)
  sound ha := h.sound (ha.take hi hb hq)

omit [WordSource σ] in
theorem drawsFrom_of_empty {g : Graph} {t : Tier} {a : Agenda} (source : σ)
    (h : a.bucket t = #[]) : DrawsFrom g t a ⟨none, a, source⟩ where
  bucket_of_ne _ _ := rfl
  bucket_of_none _ := h
  live_of_some _ hid := nomatch hid
  kept _ _ := .inl
  sound := id

section Entries
variable {g : Graph} {t : Tier} {a : Agenda} {i : Nat} (hi : i < (a.bucket t).size)

def dequeue (a : Agenda) (t : Tier) (i : Nat) (hi : i < (a.bucket t).size) : Agenda :=
  { a.setBucket t (swapRemove (a.bucket t) i) with queued := a.queued.erase (a.bucket t)[i] }

theorem bucket_dequeue (u : Tier) : (a.dequeue t i hi).bucket u =
    (a.setBucket t (swapRemove (a.bucket t) i)).bucket u := by
  cases u <;> rfl

theorem queued_dequeue (id : NodeId) (u : Tier) (h : a.queued.get? id = some u) :
    (a.dequeue t i hi).queued.get? id = some u ∨ id = (a.bucket t)[i] := by
  by_cases hid : (a.bucket t)[i] = id
  · exact .inr hid.symm
  · exact .inl (by simp [dequeue, Table.get?_erase, hid, h])

theorem queued_of_dequeue (id : NodeId) (u : Tier)
    (h : (a.dequeue t i hi).queued.get? id = some u) :
    a.queued.get? id = some u ∧ ¬(id = (a.bucket t)[i] ∧ u = t) := by
  have herase := Table.get?_erase a.queued (a.bucket t)[i] id
  rw [show (a.queued.erase (a.bucket t)[i]).get? id = some u from h] at herase
  split at herase
  · cases herase
  · next hne => exact ⟨herase.symm, fun he => hne he.1.symm⟩

omit [WordSource σ] in
private theorem drawsFrom_live (source : σ) (hlive : isLive g t (a.bucket t)[i] = true) :
    DrawsFrom g t a ⟨some (a.bucket t)[i], a.dequeue t i hi, source⟩ where
  bucket_of_ne u hu := by rw [bucket_dequeue, bucket_setBucket, if_neg hu]
  bucket_of_none := nofun
  live_of_some id hid := Option.some.inj hid ▸ hlive
  kept id u hu := by
    rcases queued_dequeue hi id u hu with hq | rfl
    · exact .inl hq
    · exact .inr (.inl rfl)
  sound ha := ha.take hi (bucket_dequeue hi) (queued_of_dequeue hi)

omit [WordSource σ] in
private theorem DrawsFrom.dead {d : Drawn σ NodeId} (h : DrawsFrom g t (a.dequeue t i hi) d)
    (hqueued : a.queued.get? (a.bucket t)[i] = some t)
    (hdead : isLive g t (a.bucket t)[i] = false) : DrawsFrom g t a d := by
  refine h.cons hi (bucket_dequeue hi) (queued_of_dequeue hi) fun id u hu => ?_
  rcases queued_dequeue hi id u hu with hq | rfl
  · exact .inl hq
  · exact .inr ⟨Option.some.inj (hu.symm.trans hqueued), hdead⟩

omit [WordSource σ] in
private theorem DrawsFrom.stale {d : Drawn σ NodeId}
    (h : DrawsFrom g t (a.setBucket t (swapRemove (a.bucket t) i)) d)
    (hstale : ¬a.queued.get? (a.bucket t)[i] = some t) : DrawsFrom g t a d := by
  refine h.cons hi (fun u => rfl) (fun id u hu => ?_) fun id u hu => .inl ?_
  · rw [queued_setBucket] at hu
    refine ⟨hu, ?_⟩
    rintro ⟨rfl, rfl⟩
    exact hstale hu
  · rwa [queued_setBucket]

/-- An entry that is queued and live is given out at the first draw. -/
theorem nextIn_of_live {source : σ}
    (hi : (drawEntry (a.bucket t).size source).1 < (a.bucket t).size)
    (hqueued : a.queued.get? (a.bucket t)[(drawEntry (a.bucket t).size source).1] = some t)
    (hlive : isLive g t (a.bucket t)[(drawEntry (a.bucket t).size source).1] = true) :
    nextIn g t (a.bucket t).size a source =
      ⟨some (a.bucket t)[(drawEntry (a.bucket t).size source).1], a.dequeue t _ hi,
        (drawEntry (a.bucket t).size source).2⟩ := by
  have hfirst (n : Nat) : nextIn g t (n + 1) a source =
      ⟨some (a.bucket t)[(drawEntry (a.bucket t).size source).1], a.dequeue t _ hi,
        (drawEntry (a.bucket t).size source).2⟩ := by
    unfold nextIn
    simp only [Array.getElem?_eq_getElem hi, queued_setBucket, hqueued, hlive, ↓reduceIte]
    rfl
  obtain ⟨n, hn⟩ := Nat.exists_eq_succ_of_ne_zero (Nat.ne_zero_of_lt hi)
  rw [← hfirst n, ← Nat.succ_eq_add_one, ← hn]

end Entries

private theorem drawsFrom_nextIn (g : Graph) (t : Tier) (n : Nat) (a : Agenda) (source : σ)
    (h : (a.bucket t).size ≤ n) : DrawsFrom g t a (nextIn g t n a source) := by
  -- every entry that is thrown away makes the tier smaller, so `n` draws use it up
  induction n generalizing a source with
  | zero => exact drawsFrom_of_empty source (Array.size_eq_zero_iff.1 (by omega))
  | succ n ih =>
    unfold nextIn
    rcases hd : drawEntry (a.bucket t).size source with ⟨i, source'⟩
    simp only
    by_cases hpos : 0 < (a.bucket t).size
    · have hi : i < (a.bucket t).size := by
        have := drawEntry_lt hpos source
        rwa [hd] at this
      have hsize : ((a.setBucket t (swapRemove (a.bucket t) i)).bucket t).size ≤ n := by
        have := size_swapRemove hi
        rw [bucket_setBucket, if_pos rfl]
        omega
      rw [Array.getElem?_eq_getElem hi]
      simp only [queued_setBucket]
      split
      · next hqueued =>
        split
        · next hlive => exact drawsFrom_live hi source' hlive
        · next hdead =>
          have hrest := ih (a.dequeue t i hi) source' (by rwa [bucket_dequeue])
          exact hrest.dead hi hqueued (by simpa using hdead)
      · next hstale => exact (ih _ source' hsize).stale hi hstale
    · have hempty : a.bucket t = #[] := Array.size_eq_zero_iff.1 (by omega)
      simp only [hempty, List.getElem?_toArray, List.getElem?_nil]
      exact drawsFrom_of_empty _ hempty

/-! ### Drawing from the tiers in order -/

/-- What a draw from tiers in order leaves.  If something is found, the tiers before the one where
it was found are used up, and else all of them. -/
structure DrawsAmong (g : Graph) (ts : List Tier) (a : Agenda) (d : Drawn σ (Tier × NodeId)) :
    Prop where
  bucket_of_notMem : ∀ u, u ∉ ts → d.agenda.bucket u = a.bucket u
  bucket_of_none : d.found = none → ∀ t ∈ ts, d.agenda.bucket t = #[]
  live_of_some : ∀ t id, d.found = some (t, id) → isLive g t id = true ∧ t ∈ ts
  bucket_of_some : ∀ t id, d.found = some (t, id) →
    ∀ u ∈ ts.takeWhile (· ≠ t), d.agenda.bucket u = #[]
  kept : ∀ id u, a.queued.get? id = some u →
    d.agenda.queued.get? id = some u ∨ (∃ t, d.found = some (t, id)) ∨ isLive g u id = false
  sound : a.Sound → d.agenda.Sound

section Tiers
omit [WordSource σ]
variable {g : Graph} {t : Tier} {rest : List Tier} {a : Agenda} {d : Drawn σ NodeId}

private theorem DrawsFrom.among (h : DrawsFrom g t a d) {id : NodeId} (hfound : d.found = some id) :
    DrawsAmong g (t :: rest) a { d with found := some (t, id) } := by
  refine ⟨fun u hu => ?_, nofun, ?_, ?_, ?_, h.sound⟩
  · exact h.bucket_of_ne u fun hut => hu (hut ▸ List.mem_cons_self)
  · rintro t' id' heq
    cases heq
    exact ⟨h.live_of_some id hfound, List.mem_cons_self⟩
  · rintro t' id' heq
    cases heq
    simp
  · intro i u hu
    rcases h.kept i u hu with hq | hf | hdead
    · exact .inl hq
    · cases hfound.symm.trans hf
      exact .inr (.inl ⟨t, rfl⟩)
    · exact .inr (.inr (hdead.1 ▸ hdead.2))

/-- The draw goes on with the other tiers if the first one is used up. -/
theorem DrawsFrom.thenAmong (h : DrawsFrom g t a d) (ht : t ∉ rest) (hfound : d.found = none)
    {d' : Drawn σ (Tier × NodeId)} (later : DrawsAmong g rest d.agenda d') :
    DrawsAmong g (t :: rest) a d' := by
  have hempty := (later.bucket_of_notMem t ht).trans (h.bucket_of_none hfound)
  refine ⟨fun u hu => ?_, fun hn u hu => ?_, fun t' id hs => ?_, fun t' id hs u hu => ?_,
    fun i u hu => ?_, fun ha => later.sound (h.sound ha)⟩
  · rw [List.mem_cons, not_or] at hu
    exact (later.bucket_of_notMem u hu.2).trans (h.bucket_of_ne u hu.1)
  · rcases List.mem_cons.1 hu with rfl | hu
    · exact hempty
    · exact later.bucket_of_none hn u hu
  · obtain ⟨hlive, hmem⟩ := later.live_of_some t' id hs
    exact ⟨hlive, List.mem_cons_of_mem t hmem⟩
  · have hne : t ≠ t' := fun heq => ht (heq ▸ (later.live_of_some t' id hs).2)
    rw [List.takeWhile_cons_of_pos (by simpa using hne)] at hu
    rcases List.mem_cons.1 hu with rfl | hu
    · exact hempty
    · exact later.bucket_of_some t' id hs u hu
  · rcases h.kept i u hu with hq | hf | hdead
    · exact later.kept i u hq
    · rw [hfound] at hf
      cases hf
    · exact .inr (.inr (hdead.1 ▸ hdead.2))

end Tiers

theorem drawsAmong_nextAmong (g : Graph) (ts : List Tier) (h : ts.Nodup) (a : Agenda)
    (source : σ) : DrawsAmong g ts a (nextAmong g ts a source) := by
  induction ts generalizing a source with
  | nil =>
    unfold nextAmong
    exact ⟨fun _ _ => rfl, fun _ _ ht => (by cases ht), nofun, nofun, fun _ _ => .inl, id⟩
  | cons t rest ih =>
    obtain ⟨ht, hrest⟩ := List.nodup_cons.1 h
    have first := drawsFrom_nextIn g t _ a source (Nat.le_refl _)
    unfold nextAmong
    cases hfound : (nextIn g t (a.bucket t).size a source).found with
    | some id =>
      simp only [hfound]
      exact first.among hfound
    | none =>
      simp only [hfound]
      exact first.thenAmong ht hfound (ih hrest _ _)

/-! ### The next node -/

/-- A sound agenda that covers the graph gives out a node as long as a live one is left. -/
theorem not_live_of_next_eq_none {a : Agenda} {g : Graph} {source : σ} (hs : a.Sound)
    (hc : a.Covers g []) (h : (a.next g source).found = none) (id : NodeId) (t : Tier) :
    isLive g t id = false := by
  have draws := drawsAmong_nextAmong g Tier.all (by decide) a source
  cases hlive : isLive g t id with
  | false => rfl
  | true =>
    have hq := (hc id t hlive).resolve_right (by simp)
    rcases draws.kept id t hq with hq | ⟨t', hf⟩ | hdead
    · have hmem := draws.sound hs id t hq
      rw [draws.bucket_of_none h t (Tier.mem_all t)] at hmem
      exact absurd hmem (by simp)
    · exact absurd (h.symm.trans hf) (by simp)
    · exact absurd hlive (by simp [hdead])

/-- The node given out is live, and no node of a higher tier is; all other live nodes stay. -/
theorem next_eq_some {a : Agenda} {g : Graph} {source : σ} {t : Tier} {id : NodeId} (hs : a.Sound)
    (hc : a.Covers g []) (h : (a.next g source).found = some (t, id)) :
    isLive g t id = true ∧ (a.next g source).agenda.Covers g [id] ∧
      ∀ u ∈ Tier.all.takeWhile (· ≠ t), ∀ i, isLive g u i = false := by
  have draws := drawsAmong_nextAmong g Tier.all (by decide) a source
  have hcovers : (a.next g source).agenda.Covers g [id] := by
    intro i u hlive
    have hq := (hc i u hlive).resolve_right (by simp)
    rcases draws.kept i u hq with hq | ⟨t', hf⟩ | hdead
    · exact .inl hq
    · cases h.symm.trans hf
      exact .inr List.mem_cons_self
    · exact absurd hlive (by simp [hdead])
  have hlive := (draws.live_of_some t id h).1
  refine ⟨hlive, hcovers, fun u hu i => ?_⟩
  cases hi : isLive g u i with
  | false => rfl
  | true =>
    rcases hcovers i u hi with hq | hmem
    · have hmem := draws.sound hs i u hq
      rw [draws.bucket_of_some t id h u hu] at hmem
      exact absurd hmem (by simp)
    · -- the node itself is in one tier only
      obtain rfl := List.mem_singleton.1 hmem
      obtain ⟨e, he, ht⟩ := isLive_iff.1 hlive
      obtain ⟨e', he', hu'⟩ := isLive_iff.1 hi
      cases Option.some.inj (he.symm.trans he')
      cases Option.some.inj (ht.symm.trans hu')
      have hother := List.all_eq_true.1 List.all_takeWhile _ hu
      exact absurd hother (by simp)

theorem Sound.next {a : Agenda} (h : a.Sound) (g : Graph) (source : σ) :
    (a.next g source).agenda.Sound :=
  (drawsAmong_nextAmong g Tier.all (by decide) a source).sound h

end Agenda
end Parterre
