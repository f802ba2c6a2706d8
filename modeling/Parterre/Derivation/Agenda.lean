import Parterre.Garden.Graph
import Parterre.Chance.Draw

/-! # The agenda

Which nonterminals wait to be expanded, in four tiers.  The next node is drawn evenly from the
highest tier that has one.  Entries are cleaned up late: a node that was removed, or that moved to
another tier, leaves an entry behind, and such an entry is thrown away when it is drawn. -/
namespace Parterre
open Chance

/-- The priority of a nonterminal. -/
inductive Tier where
  | area
  | flowerArea
  | pathSystem
  | other
  deriving DecidableEq, Inhabited

namespace Tier

/-- The tiers, the highest first. -/
def all : List Tier := [area, flowerArea, pathSystem, other]

def name : Tier → String
  | area => "Area"
  | flowerArea => "FlowerArea"
  | pathSystem => "PathSystem"
  | other => "Other"

/-- The tier of a symbol; terminals have none. -/
def of? (s : Symbol) : Option Tier :=
  match s with
  | .area => some area
  | .flowerArea => some flowerArea
  | .pathSystem => some pathSystem
  | s => if s.isNonterminal then some other else none

end Tier

/-- Waiting nodes by tier, and the tier under which each of them is queued. -/
structure Agenda where
  areas : Array NodeId := #[]
  flowerAreas : Array NodeId := #[]
  pathSystems : Array NodeId := #[]
  others : Array NodeId := #[]
  queued : Table NodeId Tier := ∅

/-- What was drawn, the agenda without it, and the source afterwards. -/
structure Drawn (σ α : Type) where
  found : Option α
  agenda : Agenda
  source : σ

/-- An array without the item at an index, whose place the last item takes. -/
def swapRemove {α : Type} (xs : Array α) (i : Nat) : Array α :=
  match xs.back? with
  | some last => (xs.setIfInBounds i last).pop
  | none => #[]

/-- Removing an item by index removes that item and no other. -/
theorem perm_swapRemove {α : Type} {xs : Array α} {i : Nat} (h : i < xs.size) :
    xs.toList.Perm (xs[i] :: (swapRemove xs i).toList) := by
  obtain ⟨init, last, rfl⟩ : ∃ init last, xs = (init ++ [last]).toArray :=
    ⟨xs.toList.dropLast, xs.toList.getLast (List.ne_nil_of_length_pos (by simp; omega)), by
      rw [List.dropLast_concat_getLast]⟩
  simp only [swapRemove, List.back?_toArray, List.getLast?_concat, List.setIfInBounds_toArray,
    List.pop_toArray, List.getElem_toArray]
  rcases Nat.lt_or_ge i init.length with hi | hi
  · obtain ⟨front, back, hinit, -, hset⟩ := @List.exists_of_set _ i last init hi
    rw [List.set_append_left _ _ hi, List.dropLast_concat, List.getElem_append_left hi, hset]
    generalize init[i] = x at hinit
    subst hinit
    rw [List.append_assoc]
    refine List.perm_middle.trans (.cons x ?_)
    exact .append_left front (List.perm_append_singleton last back)
  · obtain rfl : i = init.length := by simp at h; omega
    simp

namespace Agenda

def bucket (a : Agenda) : Tier → Array NodeId
  | .area => a.areas
  | .flowerArea => a.flowerAreas
  | .pathSystem => a.pathSystems
  | .other => a.others

def setBucket (a : Agenda) (t : Tier) (ids : Array NodeId) : Agenda :=
  match t with
  | .area => { a with areas := ids }
  | .flowerArea => { a with flowerAreas := ids }
  | .pathSystem => { a with pathSystems := ids }
  | .other => { a with others := ids }

@[simp] theorem bucket_setBucket (a : Agenda) (t u : Tier) (ids : Array NodeId) :
    (a.setBucket t ids).bucket u = if u = t then ids else a.bucket u := by
  cases t <;> cases u <;> rfl

@[simp] theorem queued_setBucket (a : Agenda) (t : Tier) (ids : Array NodeId) :
    (a.setBucket t ids).queued = a.queued := by
  cases t <;> rfl

def size (a : Agenda) : Nat := (Tier.all.map fun t => (a.bucket t).size).foldl (· + ·) 0

def isEmpty (a : Agenda) : Bool := a.size = 0

/-- Queues a node under the tier of its symbol, unless it is queued there already.  A terminal is
queued no more. -/
def schedule (a : Agenda) (id : NodeId) (s : Symbol) : Agenda :=
  match Tier.of? s with
  | none => { a with queued := a.queued.erase id }
  | some t =>
    if a.queued.get? id = some t then a
    else { a.setBucket t ((a.bucket t).push id) with queued := a.queued.insert id t }

/-- Queues a node of a graph, if it is there. -/
def scheduleLive (g : Graph) (a : Agenda) (id : NodeId) : Agenda :=
  match g.node? id with
  | some n => a.schedule id n.symbol
  | none => a

/-- Queues the nodes that were added or changed since the graph's changes were last forgotten. -/
def absorb (a : Agenda) (g : Graph) : Agenda := g.recordedChanges.foldl (scheduleLive g) a

def isLive (g : Graph) (t : Tier) (id : NodeId) : Bool :=
  match g.node? id with
  | some n => Tier.of? n.symbol = some t
  | none => false

variable {σ : Type} [WordSource σ]

/-- Draws an index into `n` entries; a single entry needs no draw. -/
def drawEntry (n : Nat) (source : σ) : Nat × σ :=
  if n = 1 then (0, source) else drawIndex n source

/-- Draws entries of a tier until one is live, at most `n` of them. -/
def nextIn (g : Graph) (t : Tier) : Nat → Agenda → σ → Drawn σ NodeId
  | 0, a, source => ⟨none, a, source⟩
  | n + 1, a, source =>
    let (i, source) := drawEntry (a.bucket t).size source
    match (a.bucket t)[i]? with
    | none => ⟨none, a, source⟩
    | some id =>
      let a := a.setBucket t (swapRemove (a.bucket t) i)
      if a.queued.get? id = some t then
        let a := { a with queued := a.queued.erase id }
        if isLive g t id then ⟨some id, a, source⟩ else nextIn g t n a source
      else nextIn g t n a source

/-- Draws a live node from the first of the given tiers that has one. -/
def nextAmong (g : Graph) : List Tier → Agenda → σ → Drawn σ (Tier × NodeId)
  | [], a, source => ⟨none, a, source⟩
  | t :: rest, a, source =>
    let drawn := nextIn g t (a.bucket t).size a source
    match drawn.found with
    | some id => { drawn with found := some (t, id) }
    | none => nextAmong g rest drawn.agenda drawn.source

def next (a : Agenda) (g : Graph) (source : σ) : Drawn σ (Tier × NodeId) :=
  nextAmong g Tier.all a source

end Agenda
end Parterre
