import Mathlib.Data.Finset.Sym
import Mathlib.Data.Sym.Sym2.Order
import Mathlib.Order.Lattice.Nat
import Parterre.Proofs.RebuiltEdges

/-! # Plain graphs

A graph without an index: an element for each id in use, and for each pair of nodes that is joined
the border of the edge, if it has one.  Nothing is held twice, so there is nothing that could get
out of step. -/
namespace Parterre

inductive Operation where
  | edit (x : Graph.Edit)
  | rebuild (thickness : Float32)

def Operation.isAdd : Operation → Bool
  | .edit (.add _) => true
  | _ => false

inductive Answer where
  | done
  | added (id : NodeId)
  | element (e : Option Element)
  | node (n : Option Node)
  | joined (b : Bool)
  | count (n : Nat)
  deriving DecidableEq

def Answer.added? : Answer → Option NodeId
  | .added id => some id
  | _ => none

/-- Something that operations change and that answers them. -/
structure Store (S : Type) where
  perform : S → Operation → S
  answer : S → Operation → Answer

namespace Store
variable {S T : Type}

def performAll (store : Store S) (s : S) (ops : List Operation) : S := ops.foldl store.perform s

def answers (store : Store S) : S → List Operation → List Answer
  | _, [] => []
  | s, op :: ops => store.answer s op :: store.answers (store.perform s op) ops

/-- States that are related, and that operations lead to related ones with the same answers, remain
so. -/
theorem simulation {store : Store S} {store' : Store T} {R : S → T → Prop}
    (hstep : ∀ s t op, R s t →
      store.answer s op = store'.answer t op ∧ R (store.perform s op) (store'.perform t op))
    {s : S} {t : T} (h : R s t) (ops : List Operation) :
    store.answers s ops = store'.answers t ops ∧
      R (store.performAll s ops) (store'.performAll t ops) := by
  induction ops generalizing s t with
  | nil => exact ⟨rfl, h⟩
  | cons op ops ih =>
    obtain ⟨hanswer, hnext⟩ := hstep s t op h
    obtain ⟨hanswers, hlast⟩ := ih hnext
    exact ⟨congrArg₂ List.cons hanswer hanswers, hlast⟩

end Store

/-- A graph as two maps.  Both are finite, since the ids in use are below the next one. -/
@[ext] structure PlainGraph where
  nextId : NodeId
  elements : NodeId → Option Element
  borders : Sym2 NodeId → Option (Option Rect)
  lt_nextId : ∀ id, (elements id).isSome → id < nextId
  /-- What is joined is there, and no node is joined with itself. -/
  joined : ∀ a b, (borders s(a, b)).isSome → a ≠ b ∧ (elements a).isSome ∧ (elements b).isSome

namespace PlainGraph

def empty : PlainGraph where
  nextId := 1
  elements _ := none
  borders _ := none
  lt_nextId _ h := by cases h
  joined _ _ h := by cases h

def add (p : PlainGraph) (e : Element) : PlainGraph where
  nextId := p.nextId + 1
  elements id := if id = p.nextId then some e else p.elements id
  borders := p.borders
  lt_nextId id h := by
    split at h
    · next hid => exact Nat.lt_succ_of_le (Nat.le_of_eq hid)
    · exact Nat.lt_succ_of_lt (p.lt_nextId id h)
  joined a b h := by
    obtain ⟨hne, ha, hb⟩ := p.joined a b h
    exact ⟨hne, by split <;> first | rfl | assumption, by split <;> first | rfl | assumption⟩

def replace (p : PlainGraph) (id : NodeId) (e : Element) : PlainGraph where
  nextId := p.nextId
  elements i := (p.elements i).map fun old => if i = id then e else old
  borders := p.borders
  lt_nextId i h := p.lt_nextId i (by simpa using h)
  joined a b h := by simpa using p.joined a b h

def remove (p : PlainGraph) (id : NodeId) : PlainGraph where
  nextId := p.nextId
  elements i := if i = id then none else p.elements i
  borders pair := if id ∈ pair then none else p.borders pair
  lt_nextId i h := by
    split at h
    · cases h
    · exact p.lt_nextId i h
  joined a b h := by
    split at h
    · cases h
    · next hid =>
      rw [Sym2.mem_iff, not_or] at hid
      rw [if_neg (Ne.symm hid.1), if_neg (Ne.symm hid.2)]
      exact p.joined a b h

theorem remove_eq_self {p : PlainGraph} {id : NodeId} (h : p.elements id = none) :
    p.remove id = p := by
  ext1
  · rfl
  · funext i
    simp only [remove]
    split
    · next hi => rw [hi, h]
    · rfl
  · funext pair
    simp only [remove]
    split
    · next hid =>
      -- a pair with the node would need it to be there
      obtain ⟨other, rfl⟩ := hid
      refine (Option.not_isSome_iff_eq_none.1 fun hsome => ?_).symm
      have hthere := (p.joined id other hsome).2.1
      rw [h] at hthere
      cases hthere
    · rfl

def Joinable (p : PlainGraph) (a b : NodeId) : Prop :=
  a ≠ b ∧ (p.elements a).isSome ∧ (p.elements b).isSome

instance (p : PlainGraph) (a b : NodeId) : Decidable (p.Joinable a b) :=
  inferInstanceAs (Decidable (_ ∧ _ ∧ _))

/-- Joins two nodes that may be joined, with a new border if they are joined already. -/
def connect (p : PlainGraph) (a b : NodeId) (border : Option Rect) : PlainGraph :=
  if h : p.Joinable a b then
    { p with
      borders := fun pair => if pair = s(a, b) then some border else p.borders pair
      joined := fun c d hcd => by
        split at hcd
        · next heq =>
          rcases Sym2.eq_iff.1 heq with ⟨rfl, rfl⟩ | ⟨rfl, rfl⟩
          · exact h
          · exact ⟨h.1.symm, h.2.2, h.2.1⟩
        · exact p.joined c d hcd }
  else p

def clearEdges (p : PlainGraph) : PlainGraph :=
  { p with
    borders := fun _ => none
    joined := fun _ _ h => by cases h }

def sectorRect? (p : PlainGraph) (id : NodeId) : Option Rect :=
  (p.elements id).bind Element.sectorRect?

private theorem isSome_of_sectorRect? {p : PlainGraph} {id : NodeId} {r : Rect}
    (h : p.sectorRect? id = some r) : (p.elements id).isSome := by
  obtain ⟨e, he, -⟩ := Option.bind_eq_some_iff.1 h
  rw [he]
  rfl

/-- What joins a pair of nodes, if both are sectors and share a border; it is looked for from the
one with the lower id. -/
def contact (p : PlainGraph) (thickness : Float32) (pair : Sym2 NodeId) : Option (Option Rect) :=
  if pair.IsDiag then none
  else (p.sectorRect? pair.inf).bind fun ra => (p.sectorRect? pair.sup).bind fun rb =>
    (ra.borderBetween rb thickness).map Rect.longBorder?

/-- Joins the sectors that share a border, and no other nodes. -/
def rebuild (p : PlainGraph) (thickness : Float32) : PlainGraph :=
  { p with
    borders := p.contact thickness
    joined := fun a b h => by
      obtain ⟨kept, hkept⟩ := Option.isSome_iff_exists.1 h
      unfold contact at hkept
      split at hkept
      · cases hkept
      · next hdiag =>
        obtain ⟨ra, ha, hrest⟩ := Option.bind_eq_some_iff.1 hkept
        obtain ⟨rb, hb, -⟩ := Option.bind_eq_some_iff.1 hrest
        refine ⟨hdiag, ?_⟩
        rw [Sym2.inf_mk] at ha
        rw [Sym2.sup_mk] at hb
        rcases Nat.le_total a b with hab | hab
        · rw [inf_eq_left.2 hab] at ha
          rw [sup_eq_right.2 hab] at hb
          exact ⟨isSome_of_sectorRect? ha, isSome_of_sectorRect? hb⟩
        · rw [inf_eq_right.2 hab] at ha
          rw [sup_eq_left.2 hab] at hb
          exact ⟨isSome_of_sectorRect? hb, isSome_of_sectorRect? ha⟩ }

def edgeCount (p : PlainGraph) : Nat :=
  ((Finset.range p.nextId).sym2.filter fun pair => (p.borders pair).isSome).card

def edit (p : PlainGraph) : Graph.Edit → PlainGraph
  | .add e => p.add e
  | .replace id e => p.replace id e
  | .remove id => p.remove id
  | .connect a b border => p.connect a b border
  | .clearEdges => p.clearEdges

def store : Store PlainGraph where
  perform p
    | .edit x => p.edit x
    | .rebuild thickness => p.rebuild thickness
  answer p
    | .edit (.add _) => .added p.nextId
    | .edit (.replace id _) => .element (p.elements id)
    | .edit (.remove id) => .node ((p.elements id).map (Node.mk id))
    | .edit (.connect a b _) => .joined (p.Joinable a b)
    | .edit .clearEdges => .done
    | .rebuild thickness => .count (p.rebuild thickness).edgeCount

/-! ### Ids -/

theorem connect_nodes (p : PlainGraph) (a b : NodeId) (border : Option Rect) :
    (p.connect a b border).nextId = p.nextId ∧ (p.connect a b border).elements = p.elements := by
  unfold connect
  split <;> exact ⟨rfl, rfl⟩

/-- An id is given out exactly if a node is added, and then the next one is. -/
theorem nextId_perform (p : PlainGraph) (op : Operation) :
    (store.perform p op).nextId = p.nextId + (if op.isAdd then 1 else 0) ∧
      (store.answer p op).added? = if op.isAdd then some p.nextId else none := by
  cases op with
  | rebuild thickness => exact ⟨rfl, rfl⟩
  | edit x =>
    cases x with
    | connect a b border => exact ⟨(p.connect_nodes a b border).1, rfl⟩
    | _ => exact ⟨rfl, rfl⟩

theorem nextId_performAll (p : PlainGraph) (ops : List Operation) :
    (store.performAll p ops).nextId = p.nextId + ops.countP Operation.isAdd := by
  induction ops generalizing p with
  | nil => rfl
  | cons op ops ih =>
    change (store.performAll (store.perform p op) ops).nextId = _
    rw [ih, (p.nextId_perform op).1, List.countP_cons]
    lia

theorem added_answers (p : PlainGraph) (ops : List Operation) :
    (store.answers p ops).filterMap Answer.added? =
      List.range' p.nextId (ops.countP Operation.isAdd) := by
  induction ops generalizing p with
  | nil => rfl
  | cons op ops ih =>
    obtain ⟨hnext, hadded⟩ := p.nextId_perform op
    rw [Store.answers, List.filterMap_cons, hadded, ih, hnext, List.countP_cons]
    cases op.isAdd <;> rfl

/-- An id that was given out and is no longer in use is never used again. -/
theorem elements_perform_of_gone {p : PlainGraph} {id : NodeId} (hid : id < p.nextId)
    (hgone : p.elements id = none) (op : Operation) :
    id < (store.perform p op).nextId ∧ (store.perform p op).elements id = none := by
  refine ⟨(p.nextId_perform op).1 ▸ Nat.lt_add_right _ hid, ?_⟩
  cases op with
  | rebuild thickness => exact hgone
  | edit x =>
    cases x with
    | add e => exact (if_neg (Nat.ne_of_lt hid)).trans hgone
    | replace i e =>
      change (p.elements id).map _ = none
      rw [hgone]
      rfl
    | remove i =>
      change (if id = i then none else p.elements id) = none
      rw [hgone, ite_self]
    | connect a b border => exact (congrFun (p.connect_nodes a b border).2 id).trans hgone
    | clearEdges => exact hgone

theorem elements_performAll_of_gone {p : PlainGraph} {id : NodeId} (hid : id < p.nextId)
    (hgone : p.elements id = none) (ops : List Operation) :
    (store.performAll p ops).elements id = none := by
  induction ops generalizing p with
  | nil => exact hgone
  | cons op ops ih =>
    obtain ⟨hid', hgone'⟩ := elements_perform_of_gone hid hgone op
    exact ih hid' hgone'

end PlainGraph
end Parterre
