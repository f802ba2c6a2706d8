import Std.Data.ExtTreeMap

/-! # Tables

A table holds one value for each of finitely many keys, in ascending key order.  It is kept as a
balanced search tree, of which nothing shows: `Table.ext_get?` says that two tables with the same
look-ups are equal.  The other statements say what each operation does to `get?`, that `entries`
lists the look-ups in key order, and that a key above all others is entered last. -/
namespace Parterre

/-- Finitely many entries, by ascending key. -/
@[ext] structure Table (κ ν : Type) [Ord κ] where
  tree : Std.ExtTreeMap κ ν

namespace Table
variable {κ ν : Type} [Ord κ]

instance : EmptyCollection (Table κ ν) := ⟨⟨∅⟩⟩

instance : Inhabited (Table κ ν) := ⟨∅⟩

variable [Std.TransOrd κ]

def entries (t : Table κ ν) : List (κ × ν) := t.tree.toList

def keys (t : Table κ ν) : List κ := t.entries.map (·.1)

def size (t : Table κ ν) : Nat := t.tree.size

def get? (t : Table κ ν) (k : κ) : Option ν := t.tree[k]?

def contains (t : Table κ ν) (k : κ) : Bool := (t.get? k).isSome

/-- Enters a value under a key, instead of an earlier one. -/
def insert (t : Table κ ν) (k : κ) (v : ν) : Table κ ν := ⟨t.tree.insert k v⟩

def erase (t : Table κ ν) (k : κ) : Table κ ν := ⟨t.tree.erase k⟩

/-- Applies a function to the value of a key that has one. -/
def adjust (t : Table κ ν) (k : κ) (f : ν → ν) : Table κ ν := ⟨t.tree.modify k f⟩

def retain (t : Table κ ν) (keep : ν → Bool) : Table κ ν := ⟨t.tree.filter fun _ v => keep v⟩

/-! ### Look-ups -/

@[simp] theorem get?_empty (k : κ) : (∅ : Table κ ν).get? k = none :=
  Std.ExtTreeMap.getElem?_empty

theorem contains_iff {t : Table κ ν} {k : κ} : t.contains k = true ↔ ∃ v, t.get? k = some v :=
  Option.isSome_iff_exists

variable [Std.LawfulEqOrd κ]

@[simp] theorem get?_insert [DecidableEq κ] (t : Table κ ν) (k : κ) (v : ν) (k' : κ) :
    (t.insert k v).get? k' = if k = k' then some v else t.get? k' := by
  simp [get?, insert, Std.ExtTreeMap.getElem?_insert]

@[simp] theorem get?_erase [DecidableEq κ] (t : Table κ ν) (k k' : κ) :
    (t.erase k).get? k' = if k = k' then none else t.get? k' := by
  simp [get?, erase, Std.ExtTreeMap.getElem?_erase]

@[simp] theorem get?_adjust [DecidableEq κ] (t : Table κ ν) (k : κ) (f : ν → ν) (k' : κ) :
    (t.adjust k f).get? k' = if k = k' then (t.get? k').map f else t.get? k' := by
  simp only [get?, adjust, Std.ExtTreeMap.getElem?_modify, Std.compare_eq_iff_eq]
  split
  · next h => rw [h]
  · rfl

@[simp] theorem get?_retain (t : Table κ ν) (keep : ν → Bool) (k : κ) :
    (t.retain keep).get? k = (t.get? k).filter keep :=
  Std.ExtTreeMap.getElem?_filter'

theorem get?_eq_some_iff {t : Table κ ν} {k : κ} {v : ν} :
    t.get? k = some v ↔ (k, v) ∈ t.entries :=
  Std.ExtTreeMap.mem_toList_iff_getElem?_eq_some.symm

theorem ext_get? {t u : Table κ ν} (h : ∀ k, t.get? k = u.get? k) : t = u :=
  Table.ext (Std.ExtTreeMap.ext_getElem? h)

/-! ### Order -/

omit [Std.LawfulEqOrd κ] in
theorem ascending (t : Table κ ν) : t.entries.Pairwise fun p q => compare p.1 q.1 = .lt :=
  Std.ExtTreeMap.ordered_keys_toList

omit [Std.LawfulEqOrd κ] in
theorem nodup_of_ascending {es : List (κ × ν)}
    (h : es.Pairwise fun p q => compare p.1 q.1 = .lt) : es.Nodup :=
  h.imp fun hpq he => by simp [he] at hpq

/-- Ascending entries are determined by what they contain. -/
theorem entries_eq_of_mem_iff {t : Table κ ν} {es : List (κ × ν)}
    (hes : es.Pairwise fun p q => compare p.1 q.1 = .lt) (h : ∀ e, e ∈ t.entries ↔ e ∈ es) :
    t.entries = es := by
  refine List.Perm.eq_of_pairwise (fun a b _ _ hab hba => ?_) t.ascending hes
    ((List.perm_ext_iff_of_nodup (nodup_of_ascending t.ascending) (nodup_of_ascending hes)).2 h)
  exact absurd (Std.TransCmp.lt_trans hab hba) (by simp)

theorem entries_insert_of_forall_lt [DecidableEq κ] (t : Table κ ν) (k : κ) (v : ν)
    (h : ∀ e ∈ t.entries, compare e.1 k = .lt) :
    (t.insert k v).entries = t.entries ++ [(k, v)] := by
  apply entries_eq_of_mem_iff
  · refine List.pairwise_append.2 ⟨t.ascending, List.pairwise_singleton .., ?_⟩
    intro e he e' he'
    rw [List.mem_singleton.1 he']
    exact h e he
  · rintro ⟨k', v'⟩
    rw [← get?_eq_some_iff, get?_insert, List.mem_append, ← get?_eq_some_iff, List.mem_singleton]
    split
    · next hk =>
      subst hk
      have : t.get? k ≠ some v' := fun hv => by
        have := h _ (get?_eq_some_iff.1 hv)
        simp at this
      simp [this, eq_comm]
    · next hk => simp [Ne.symm hk]

end Table
end Parterre
