import Mathlib.Algebra.Order.Ring.Nat
import Parterre.Proofs.Expansions

/-! # The nodes as a list

What the edits of a graph do to the list of its nodes, and what an expansion does to a total over
all elements: the element expanded is taken off it, and what comes of the element is added. -/
namespace Parterre
namespace Graph
variable {g g' : Graph} {id : NodeId} {e : Element} {x : Expansion}

def contents (g : Graph) : List Element := g.nodes.map Node.element

theorem nodes_congr (h : ∀ i, g'.element? i = g.element? i) : g'.nodes = g.nodes := by
  unfold nodes
  rw [Table.ext_get? h]

theorem nodup_nodes (g : Graph) : g.nodes.Nodup :=
  List.Pairwise.of_map Node.id (fun _ _ => mt (congrArg Node.id)) g.nodup_ids

/-- Besides the nodes that are left, there is the one that is removed. -/
theorem perm_nodes_remove (he : g.element? id = some e) :
    g.nodes.Perm (⟨id, e⟩ :: (g.remove id).nodes) := by
  have hgone : ⟨id, e⟩ ∉ (g.remove id).nodes := by
    simp [mem_nodes_iff, element?_remove]
  refine (List.perm_ext_iff_of_nodup g.nodup_nodes
    (List.nodup_cons.2 ⟨hgone, nodup_nodes _⟩)).2 fun n => ?_
  rw [List.mem_cons, mem_nodes_iff, mem_nodes_iff, element?_remove]
  by_cases hn : id = n.id
  · subst hn
    rw [if_pos rfl, he]
    cases n
    simp [eq_comm]
  · rw [if_neg hn]
    refine ⟨.inr, fun h => h.resolve_left ?_⟩
    rintro rfl
    exact hn rfl

private theorem perm_nodes_replace (e' : Element) (he : g.element? id = some e) :
    (g.replace id e').nodes.Perm (⟨id, e'⟩ :: (g.remove id).nodes) := by
  have hcontains : g.contains id = true := contains_iff.2 ⟨e, he⟩
  have hnew : (g.replace id e').element? id = some e' := by
    rw [element?_replace, if_pos ⟨rfl, hcontains⟩]
  have hrest : ((g.replace id e').remove id).nodes = (g.remove id).nodes := by
    refine nodes_congr fun i => ?_
    rw [element?_remove, element?_remove, element?_replace]
    by_cases hi : id = i
    · rw [if_pos hi, if_pos hi]
    · rw [if_neg hi, if_neg hi, if_neg fun h => hi h.1]
  exact hrest ▸ perm_nodes_remove hnew

theorem nodes_add (h : g.Fresh) (e : Element) : (g.add e).nodes = g.nodes ++ [⟨g.nextId, e⟩] := by
  have hlast : ∀ entry ∈ g.elements.entries, compare entry.1 g.nextId = .lt := by
    intro entry hentry
    exact Nat.compare_eq_lt.2 (h.lt_nextId (Table.get?_eq_some_iff.2 hentry))
  have hentries := Table.entries_insert_of_forall_lt g.elements g.nextId e hlast
  change (g.elements.insert g.nextId e).entries.map (fun entry => Node.mk entry.1 entry.2) = _
  rw [hentries, List.map_append]
  rfl

theorem contents_addAll (h : g.Fresh) (es : List Element) :
    (g.addAll es).contents = g.contents ++ es := by
  induction es generalizing g with
  | nil => exact (List.append_nil _).symm
  | cons e es ih =>
    change ((g.add e).addAll es).contents = _
    rw [ih (h.add e), contents, nodes_add h, List.map_append, List.append_assoc]
    rfl

def total (f : Element → Nat) (g : Graph) : Nat := (g.contents.map f).sum

theorem total_congr (f : Element → Nat) (h : ∀ i, g'.element? i = g.element? i) :
    g'.total f = g.total f := by
  unfold total contents
  rw [nodes_congr h]

theorem total_remove (f : Element → Nat) (he : g.element? id = some e) :
    g.total f = f e + (g.remove id).total f :=
  (((perm_nodes_remove he).map Node.element).map f).sum_nat

private theorem total_replace (f : Element → Nat) (e' : Element) (he : g.element? id = some e) :
    (g.replace id e').total f = f e' + (g.remove id).total f :=
  (((perm_nodes_replace e' he).map Node.element).map f).sum_nat

theorem total_addAll (f : Element → Nat) (h : g.Fresh) (es : List Element) :
    (g.addAll es).total f = g.total f + (es.map f).sum := by
  rw [total, contents_addAll h, List.map_append, List.sum_append]
  rfl

theorem total_expanded (f : Element → Nat) (h : g.Fresh) (he : g.element? id = some e) :
    (g.expanded id x).total f + f e =
      g.total f + (x.stays.toList.map f).sum + (x.added.map f).sum := by
  have hremove := total_remove f he
  rw [expanded, total_congr f (connectAll_nodes _ x.joined).1]
  cases x.stays with
  | some e' =>
    have hreplace := total_replace f e' he
    simp only [total_addAll f (h.replace id e'), Option.toList_some, List.map_cons, List.map_nil,
      List.sum_cons, List.sum_nil]
    omega
  | none =>
    simp only [total_addAll f (h.remove id), Option.toList_none, List.map_nil, List.sum_nil]
    omega

theorem le_total {f : Element → Nat} (he : g.element? id = some e) : f e ≤ g.total f := by
  rw [total_remove f he]
  exact Nat.le_add_right _ _

end Graph
end Parterre
