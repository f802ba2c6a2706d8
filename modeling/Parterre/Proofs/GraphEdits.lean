import Parterre.Garden.Adjacency

/-! # Edits of a graph

A graph changes in five ways: a node is added, gets another element or goes, two nodes are joined,
or all edges are dropped.  Whatever a sequence of such edits does, each node that it adds or changes
is among the recorded changes, and ids that were never given out stay unused. -/
namespace Parterre
namespace Graph

/-! ### Nodes -/

theorem mem_nodes_iff {g : Graph} {n : Node} :
    n ∈ g.nodes ↔ g.element? n.id = some n.element := by
  unfold nodes element?
  rw [Table.get?_eq_some_iff, List.mem_map]
  constructor
  · rintro ⟨entry, hentry, rfl⟩
    exact hentry
  · intro h
    exact ⟨_, h, rfl⟩

theorem nodup_ids (g : Graph) : (g.nodes.map Node.id).Nodup := by
  rw [nodes, List.map_map, List.Nodup, List.pairwise_map]
  refine g.elements.ascending.imp fun {p q} hpq hid => ?_
  have heq : p.1 = q.1 := hid
  rw [heq] at hpq
  simp at hpq

theorem node?_eq_some_iff {g : Graph} {id : NodeId} {n : Node} :
    g.node? id = some n ↔ g.element? id = some n.element ∧ n.id = id := by
  unfold node?
  rw [Option.map_eq_some_iff]
  constructor
  · rintro ⟨e, he, rfl⟩
    exact ⟨he, rfl⟩
  · rintro ⟨he, rfl⟩
    exact ⟨n.element, he, rfl⟩

theorem hasNonterminals_iff {g : Graph} :
    g.hasNonterminals = true ↔
      ∃ id e, g.element? id = some e ∧ e.symbol.isNonterminal = true := by
  unfold hasNonterminals
  rw [List.any_eq_true]
  constructor
  · rintro ⟨n, hn, hs⟩
    exact ⟨n.id, n.element, mem_nodes_iff.1 hn, hs⟩
  · rintro ⟨id, e, he, hs⟩
    exact ⟨⟨id, e⟩, mem_nodes_iff.2 he, hs⟩

theorem isNonterminal_eq_false {g : Graph} (h : g.hasNonterminals = false) {id : NodeId}
    {e : Element} (he : g.element? id = some e) : e.symbol.isNonterminal = false := by
  rw [← Bool.not_eq_true]
  intro hs
  rw [hasNonterminals_iff.2 ⟨id, e, he, hs⟩] at h
  cases h

theorem contains_iff {g : Graph} {id : NodeId} :
    g.contains id = true ↔ ∃ e, g.element? id = some e :=
  Table.contains_iff

/-! ### Edits -/

inductive Edit where
  | add (e : Element)
  | replace (id : NodeId) (e : Element)
  | remove (id : NodeId)
  | connect (a b : NodeId) (border : Option Rect)
  | clearEdges

def edit (g : Graph) : Edit → Graph
  | .add e => g.add e
  | .replace id e => g.replace id e
  | .remove id => g.remove id
  | .connect a b border => g.connect a b border
  | .clearEdges => g.clearEdges

def editAll (g : Graph) (edits : List Edit) : Graph := edits.foldl edit g

@[simp] theorem editAll_nil (g : Graph) : g.editAll [] = g := rfl

@[simp] theorem editAll_cons (g : Graph) (x : Edit) (edits : List Edit) :
    g.editAll (x :: edits) = (g.edit x).editAll edits := rfl

@[simp] theorem editAll_append (g : Graph) (xs ys : List Edit) :
    g.editAll (xs ++ ys) = (g.editAll xs).editAll ys :=
  List.foldl_append

theorem addAll_eq_editAll (g : Graph) (es : List Element) :
    g.addAll es = g.editAll (es.map .add) := by
  unfold addAll editAll
  rw [List.foldl_map]
  rfl

theorem editAll_cons_add (g : Graph) (x : Edit) (es : List Element) :
    g.editAll (x :: es.map .add) = (g.edit x).addAll es := by
  rw [editAll_cons, addAll_eq_editAll]

/-! ### Edges without nodes -/

@[simp] theorem changes_connect (g : Graph) (a b : NodeId) (border : Option Rect) :
    (g.connect a b border).changes = g.changes := by
  unfold connect
  split
  · split <;> rfl
  · rfl

@[simp] theorem nextId_connect (g : Graph) (a b : NodeId) (border : Option Rect) :
    (g.connect a b border).nextId = g.nextId := by
  unfold connect
  split
  · split <;> rfl
  · rfl

theorem connectAll_nodes (g : Graph) (cs : List Contact) :
    let joined := cs.foldl (fun g c => g.connect c.a c.b c.border) g
    (∀ id, joined.element? id = g.element? id) ∧ joined.nextId = g.nextId ∧
      joined.changes = g.changes := by
  induction cs generalizing g with
  | nil => exact ⟨fun _ => rfl, rfl, rfl⟩
  | cons c cs ih =>
    obtain ⟨helement, hnext, hchanges⟩ := ih (g.connect c.a c.b c.border)
    refine ⟨fun id => ?_, ?_, ?_⟩
    · exact (helement id).trans (element?_connect g c.a c.b c.border id)
    · exact hnext.trans (nextId_connect g c.a c.b c.border)
    · exact hchanges.trans (changes_connect g c.a c.b c.border)

@[simp] theorem element?_rebuildAdjacency (g : Graph) (thickness : Float32) (id : NodeId) :
    (g.rebuildAdjacency thickness).element? id = g.element? id :=
  (connectAll_nodes g.clearEdges _).1 id

@[simp] theorem nextId_rebuildAdjacency (g : Graph) (thickness : Float32) :
    (g.rebuildAdjacency thickness).nextId = g.nextId :=
  (connectAll_nodes g.clearEdges _).2.1

@[simp] theorem changes_rebuildAdjacency (g : Graph) (thickness : Float32) :
    (g.rebuildAdjacency thickness).changes = g.changes :=
  (connectAll_nodes g.clearEdges _).2.2

/-! ### Unused ids -/

/-- The ids from the next one on are not in use. -/
def Fresh (g : Graph) : Prop := ∀ id, g.nextId ≤ id → g.element? id = none

theorem fresh_empty : empty.trackChanges.Fresh := fun id _ => Table.get?_empty id

theorem Fresh.lt_nextId {g : Graph} (h : g.Fresh) {id : NodeId} {e : Element}
    (he : g.element? id = some e) : id < g.nextId := by
  by_cases hlt : id < g.nextId
  · exact hlt
  · have hnone := h id (Nat.le_of_not_lt hlt)
    simp [hnone] at he

theorem Fresh.add {g : Graph} (h : g.Fresh) (e : Element) : (g.add e).Fresh := by
  intro id hid
  rw [nextId_add] at hid
  rw [element?_add, if_neg (by lia)]
  exact h id (by lia)

theorem Fresh.of_eq {g g' : Graph} (h : g.Fresh) (he : ∀ id, g'.element? id = g.element? id)
    (hn : g'.nextId = g.nextId) : g'.Fresh := by
  intro id hid
  rw [he]
  exact h id (hn ▸ hid)

@[simp] theorem nextId_addAll (g : Graph) (es : List Element) :
    (g.addAll es).nextId = g.nextId + es.length := by
  induction es generalizing g with
  | nil => rfl
  | cons e es ih =>
    change ((g.add e).addAll es).nextId = _
    rw [ih, nextId_add, List.length_cons]
    lia

theorem element?_addAll {g : Graph} (h : g.Fresh) (es : List Element) (id : NodeId) :
    (g.addAll es).element? id =
      if id < g.nextId then g.element? id else es[id - g.nextId]? := by
  induction es generalizing g with
  | nil =>
    split
    · rfl
    · next hid => exact h id (Nat.le_of_not_lt hid)
  | cons e es ih =>
    change ((g.add e).addAll es).element? id = _
    rw [ih (h.add e), nextId_add, element?_add]
    rcases Nat.lt_trichotomy id g.nextId with hid | rfl | hid
    · rw [if_pos (by lia), if_neg (by lia), if_pos hid]
    · rw [if_pos (by lia), if_pos rfl, if_neg (by lia), Nat.sub_self]
      rfl
    · have hsub : id - g.nextId = (id - (g.nextId + 1)) + 1 := by lia
      rw [if_neg (by lia), if_neg (by lia), hsub]
      rfl

theorem Fresh.addAll {g : Graph} (h : g.Fresh) (es : List Element) : (g.addAll es).Fresh := by
  intro id hid
  rw [nextId_addAll] at hid
  rw [element?_addAll h, if_neg (by lia)]
  exact List.getElem?_eq_none (by lia)

@[simp] theorem nextId_replace (g : Graph) (i : NodeId) (e : Element) :
    (g.replace i e).nextId = g.nextId := by
  unfold replace
  split <;> rfl

@[simp] theorem nextId_remove (g : Graph) (i : NodeId) : (g.remove i).nextId = g.nextId := by
  unfold remove
  split <;> rfl

/-- A node may also be removed before others are added. -/
theorem remove_add (g : Graph) (e : Element) {i : NodeId} (h : i ≠ g.nextId) :
    (g.add e).remove i = (g.remove i).add e := by
  have hcontains : (g.add e).contains i = g.contains i := by
    have hi := element?_add g e i
    rw [if_neg (Ne.symm h)] at hi
    exact congrArg Option.isSome hi
  have helements : (g.elements.insert g.nextId e).erase i =
      (g.elements.erase i).insert g.nextId e := by
    refine Table.ext_get? fun k => ?_
    simp only [Table.get?_erase, Table.get?_insert]
    by_cases hk : i = k
    · rw [if_pos hk, if_neg fun hn => h (hk.trans hn.symm), if_pos hk]
    · rw [if_neg hk, if_neg hk]
  unfold remove
  rw [hcontains]
  split
  · change Graph.mk ((g.elements.insert g.nextId e).erase i) _ _ _ _ = _
    rw [helements]
    rfl
  · rfl

theorem remove_addAll (g : Graph) (es : List Element) {i : NodeId} (h : i < g.nextId) :
    (g.addAll es).remove i = (g.remove i).addAll es := by
  induction es generalizing g with
  | nil => rfl
  | cons e es ih =>
    change ((g.add e).addAll es).remove i = ((g.remove i).add e).addAll es
    rw [ih _ (by rw [nextId_add]; lia), remove_add g e (by lia)]

/-! ### Recorded changes -/

/-- A graph that came out of another one: its record of changes goes on from the other's by `more`,
and every node in it that is new or has another element than before is among them. -/
structure Follows (g : Graph) (more : List NodeId) (g' : Graph) : Prop where
  changes : g'.changes = g.changes.map (· ++ more)
  element? : ∀ id e, g'.element? id = some e → g.element? id = some e ∨ id ∈ more

theorem Follows.refl (g : Graph) : g.Follows [] g where
  changes := by cases h : g.changes <;> simp
  element? _ _ h := .inl h

theorem Follows.trans {g₁ g₂ g₃ : Graph} {xs ys : List NodeId} (h₁ : g₁.Follows xs g₂)
    (h₂ : g₂.Follows ys g₃) : g₁.Follows (xs ++ ys) g₃ where
  changes := by
    rw [h₂.changes, h₁.changes, Option.map_map]
    congr 1
    funext l
    simp
  element? id e h := by
    rcases h₂.element? id e h with h | h
    · exact (h₁.element? id e h).imp_right (List.mem_append_left _)
    · exact .inr (List.mem_append_right _ h)

theorem Follows.of_eq {g g' : Graph} (hc : g'.changes = g.changes)
    (he : ∀ id, g'.element? id = g.element? id) : g.Follows [] g' where
  changes := by rw [hc]; exact (Follows.refl g).changes
  element? id e h := .inl (he id ▸ h)

theorem follows_add (g : Graph) (e : Element) : g.Follows [g.nextId] (g.add e) where
  changes := rfl
  element? id e' h := by
    rw [element?_add] at h
    split at h
    · next hid => exact .inr (by simp [hid])
    · exact .inl h

theorem follows_replace (g : Graph) (i : NodeId) (e : Element) :
    ∃ more, g.Follows more (g.replace i e) := by
  by_cases hi : g.contains i = true
  · refine ⟨[i], by simp [replace, hi, record], ?_⟩
    intro id e' h
    rw [element?_replace] at h
    split at h
    · next hid => exact .inr (by simp [hid.1])
    · exact .inl h
  · exact ⟨[], by simpa [replace, hi] using Follows.refl g⟩

@[simp] theorem changes_remove (g : Graph) (i : NodeId) : (g.remove i).changes = g.changes := by
  unfold remove
  split <;> rfl

theorem follows_remove (g : Graph) (i : NodeId) : g.Follows [] (g.remove i) where
  changes := by rw [changes_remove]; exact (Follows.refl g).changes
  element? id e h := by
    rw [element?_remove] at h
    split at h
    · exact absurd h (by simp)
    · exact .inl h

theorem follows_edit (g : Graph) (x : Edit) : ∃ more, g.Follows more (g.edit x) := by
  cases x with
  | add e => exact ⟨_, follows_add g e⟩
  | replace id e => exact follows_replace g id e
  | remove id => exact ⟨_, follows_remove g id⟩
  | connect a b border =>
    exact ⟨_, .of_eq (changes_connect g a b border) (element?_connect g a b border)⟩
  | clearEdges => exact ⟨_, .of_eq rfl (element?_clearEdges g)⟩

/-- Nothing that edits do to the nodes escapes the record. -/
theorem follows_editAll (g : Graph) (edits : List Edit) :
    ∃ more, g.Follows more (g.editAll edits) := by
  induction edits generalizing g with
  | nil => exact ⟨[], .refl g⟩
  | cons x edits ih =>
    obtain ⟨xs, hx⟩ := follows_edit g x
    obtain ⟨ys, hy⟩ := ih (g.edit x)
    exact ⟨xs ++ ys, hx.trans hy⟩

end Graph
end Parterre
