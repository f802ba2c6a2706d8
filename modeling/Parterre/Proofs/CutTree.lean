import Parterre.Proofs.GardenSteps

/-! # The tree of cuts

The areas of a garden come from cutting the working rectangle again and again.  No state of a
derivation holds the tree of these cuts, but at each state there is one whose leaves are the
sectors, each with its rectangle. -/
namespace Parterre

/-- A way in which a rectangle is cut into parts, each of which belongs to a node. -/
inductive CutTree where
  | leaf (id : NodeId)
  | cut (c : Cut) (first second : CutTree)

namespace CutTree

/-- A part that is not cut further: its node, its rectangle and the number of cuts above it. -/
structure Leaf where
  id : NodeId
  rect : Rect
  level : Nat

def leaves : CutTree → Rect → Nat → List Leaf
  | leaf id, rect, level => [⟨id, rect, level⟩]
  | cut c first second, rect, level =>
    first.leaves (rect.firstPart c) (level + 1) ++ second.leaves (rect.secondPart c) (level + 1)

def ids : CutTree → List NodeId
  | leaf id => [id]
  | cut _ first second => first.ids ++ second.ids

/-- The largest number of cuts above a leaf. -/
def depth : CutTree → Nat
  | leaf _ => 0
  | cut _ first second => max first.depth second.depth + 1

/-- Whether each cut is one that its rectangle may receive, and leaves no sliver. -/
def Fits : CutTree → Rect → Prop
  | leaf _, _ => True
  | cut c first second, rect =>
    (c ∈ Cut.candidates rect ∧ rect.fits c minCutSide = true) ∧
      first.Fits (rect.firstPart c) ∧ second.Fits (rect.secondPart c)

/-- The tree with one more cut, at the leaf of a given node. -/
def cutAt (id : NodeId) (c : Cut) (a b : NodeId) : CutTree → CutTree
  | leaf i => if i = id then cut c (leaf a) (leaf b) else leaf i
  | cut d first second => cut d (first.cutAt id c a b) (second.cutAt id c a b)

variable {id a b : NodeId} {c : Cut}

@[simp] theorem map_id_leaves (t : CutTree) (rect : Rect) (level : Nat) :
    (t.leaves rect level).map Leaf.id = t.ids := by
  induction t generalizing rect level with
  | leaf i => rfl
  | cut d first second ihf ihs => simp only [leaves, ids, List.map_append, ihf, ihs]

theorem exists_leaf_at_depth (t : CutTree) (rect : Rect) (level : Nat) :
    ∃ l ∈ t.leaves rect level, l.level = level + t.depth := by
  induction t generalizing rect level with
  | leaf i => exact ⟨_, List.mem_singleton_self _, rfl⟩
  | cut d first second ihf ihs =>
    simp only [leaves, depth, List.mem_append]
    rcases Nat.le_total first.depth second.depth with hle | hle
    · obtain ⟨l, hl, hlevel⟩ := ihs (rect.secondPart d) (level + 1)
      exact ⟨l, .inr hl, by omega⟩
    · obtain ⟨l, hl, hlevel⟩ := ihf (rect.firstPart d) (level + 1)
      exact ⟨l, .inl hl, by omega⟩

theorem leaves_cutAt (t : CutTree) (rect : Rect) (level : Nat) :
    (t.cutAt id c a b).leaves rect level = (t.leaves rect level).flatMap fun l =>
      if l.id = id then
        [⟨a, l.rect.firstPart c, l.level + 1⟩, ⟨b, l.rect.secondPart c, l.level + 1⟩]
      else [l] := by
  induction t generalizing rect level with
  | leaf i =>
    simp only [cutAt, leaves, List.flatMap_cons, List.flatMap_nil, List.append_nil]
    split <;> rfl
  | cut d first second ihf ihs => simp only [cutAt, leaves, List.flatMap_append, ihf, ihs]

@[simp] theorem ids_cutAt (t : CutTree) :
    (t.cutAt id c a b).ids = t.ids.flatMap fun i => if i = id then [a, b] else [i] := by
  induction t with
  | leaf i =>
    simp only [cutAt, ids, List.flatMap_cons, List.flatMap_nil, List.append_nil]
    split <;> rfl
  | cut d first second ihf ihs => simp only [cutAt, ids, List.flatMap_append, ihf, ihs]

private theorem mem_leaves_cutAt {t : CutTree} {rect : Rect} {level : Nat} {l : Leaf} :
    l ∈ (t.cutAt id c a b).leaves rect level ↔
      (l ∈ t.leaves rect level ∧ l.id ≠ id) ∨ ∃ l' ∈ t.leaves rect level, l'.id = id ∧
        (l = ⟨a, l'.rect.firstPart c, l'.level + 1⟩ ∨
          l = ⟨b, l'.rect.secondPart c, l'.level + 1⟩) := by
  rw [leaves_cutAt, List.mem_flatMap]
  constructor
  · rintro ⟨l', hl', hl⟩
    split at hl
    · next hid => exact .inr ⟨l', hl', hid, by simpa using hl⟩
    · next hid =>
      obtain rfl := List.mem_singleton.1 hl
      exact .inl ⟨hl', hid⟩
  · rintro (⟨hl, hid⟩ | ⟨l', hl', hid, hl⟩)
    · exact ⟨l, hl, by simp [hid]⟩
    · exact ⟨l', hl', by simpa [hid] using hl⟩

private theorem nodup_ids_cutAt {t : CutTree} (h : t.ids.Nodup) (ha : a ∉ t.ids) (hb : b ∉ t.ids)
    (hab : a ≠ b) : (t.cutAt id c a b).ids.Nodup := by
  rw [ids_cutAt, List.Nodup, List.pairwise_flatMap]
  constructor
  · intro i _
    split
    · simp [hab]
    · simp
  · refine h.imp_of_mem fun {i j} hi hj hij => ?_
    intro x hx y hy hxy
    subst hxy
    -- the new nodes are none of the old ones, and no two leaves are at `id`
    split at hx <;> split at hy <;> simp only [List.mem_cons, List.not_mem_nil, or_false] at hx hy
    · next hi' hj' => exact hij (hi'.trans hj'.symm)
    · subst hy
      rcases hx with rfl | rfl
      · exact ha hj
      · exact hb hj
    · subst hx
      rcases hy with rfl | rfl
      · exact ha hi
      · exact hb hi
    · exact hij (hx.symm.trans hy)

private theorem Fits.cutAt {t : CutTree} {rect : Rect} (h : t.Fits rect) (level : Nat)
    (hc : ∀ l ∈ t.leaves rect level, l.id = id →
      c ∈ Cut.candidates l.rect ∧ l.rect.fits c minCutSide = true) :
    (t.cutAt id c a b).Fits rect := by
  induction t generalizing rect level with
  | leaf i =>
    simp only [CutTree.cutAt]
    split
    · next hi =>
      obtain ⟨hcut, hfits⟩ := hc ⟨i, rect, level⟩ (List.mem_singleton_self _) hi
      exact ⟨⟨hcut, hfits⟩, trivial, trivial⟩
    · trivial
  | cut d first second ihf ihs =>
    obtain ⟨hd, hf, hs⟩ := h
    refine ⟨hd, ihf hf (level + 1) fun l hl => ?_, ihs hs (level + 1) fun l hl => ?_⟩
    · exact hc l (List.mem_append_left _ hl)
    · exact hc l (List.mem_append_right _ hl)

/-- What the node of a leaf may carry, where the garden allows so many divisions: an area that has
left what the cuts above it did not use up, or ground that could not be cut or has used up all. -/
inductive Leaf.Carries (divisions : Nat) (l : Leaf) : Element → Prop where
  | area (depth : Nat) (hlevel : l.level + depth = divisions) :
    Carries divisions l (.area l.rect depth)
  | flowerArea (hlevel : l.level ≤ divisions)
      (hdone : l.level < divisions → l.rect.isCuttable minCutSide = false) :
    Carries divisions l (.flowerArea l.rect)
  | grassRect (hlevel : l.level ≤ divisions)
      (hdone : l.level < divisions → l.rect.isCuttable minCutSide = false) :
    Carries divisions l (.grassRect l.rect)

private theorem Leaf.Carries.level_le {divisions : Nat} {l : Leaf} {e : Element}
    (h : l.Carries divisions e) : l.level ≤ divisions := by
  cases h with
  | area depth hlevel => omega
  | flowerArea hlevel => exact hlevel
  | grassRect hlevel => exact hlevel

/-- An area that is not cut turns into ground. -/
theorem Leaf.Carries.settled {divisions depth : Nat} {l : Leaf} {rect : Rect}
    (h : l.Carries divisions (.area rect depth)) (huncut : Production.mayBeCut rect depth = false)
    (terrain : Terrain) : l.Carries divisions (terrain.ground rect) := by
  cases h with
  | area depth hlevel =>
    have hle : l.level ≤ divisions := by omega
    have hdone : l.level < divisions → l.rect.isCuttable minCutSide = false := by
      intro hlt
      have hpos : 0 < depth := by omega
      simpa [Production.mayBeCut, hpos] using huncut
    cases terrain with
    | flowers => exact .flowerArea hle hdone
    | grass => exact .grassRect hle hdone
    | trees => exact .grassRect hle hdone
    | water => exact .grassRect hle hdone

private theorem Leaf.Carries.grassed {divisions : Nat} {l : Leaf} {rect : Rect}
    (h : l.Carries divisions (.flowerArea rect)) : l.Carries divisions (.grassRect rect) := by
  cases h with
  | flowerArea hlevel hdone => exact .grassRect hlevel hdone

private theorem Leaf.Carries.isSector {divisions : Nat} {l : Leaf} {e : Element}
    (h : l.Carries divisions e) : e.symbol.isSector = true := by
  cases h <;> rfl

end CutTree

open Chance CutTree

namespace Graph

/-- The sectors of a graph are the leaves of a tree of cuts. -/
structure CutBy (g : Graph) (divisions : Nat) (working : Rect) (t : CutTree) : Prop where
  fits : t.Fits working
  nodup : t.ids.Nodup
  carries : ∀ l ∈ t.leaves working 0, ∃ e, g.element? l.id = some e ∧ l.Carries divisions e
  isLeaf : ∀ id e, g.element? id = some e → e.symbol.isSector = true → id ∈ t.ids
  split : ∀ id e, g.element? id = some e → e.symbol ≠ .garden

variable {g g' : Graph} {divisions : Nat} {working : Rect} {t : CutTree}

private theorem CutBy.of_eq (h : g.CutBy divisions working t)
    (he : ∀ id, g'.element? id = g.element? id) : g'.CutBy divisions working t := by
  refine ⟨h.fits, h.nodup, fun l hl => ?_, fun id e => ?_, fun id e => ?_⟩
  · rw [he]
    exact h.carries l hl
  · rw [he]
    exact h.isLeaf id e
  · rw [he]
    exact h.split id e

theorem CutBy.mem_ids {id : NodeId} (h : g.CutBy divisions working t) (hid : id ∈ t.ids) :
    ∃ l ∈ t.leaves working 0, l.id = id ∧
      ∃ e, g.element? id = some e ∧ l.Carries divisions e := by
  rw [← map_id_leaves t working 0] at hid
  obtain ⟨l, hl, rfl⟩ := List.mem_map.1 hid
  exact ⟨l, hl, rfl, h.carries l hl⟩

theorem CutBy.carries_of_id {id : NodeId} {e : Element} (h : g.CutBy divisions working t)
    (he : g.element? id = some e) {l : Leaf} (hl : l ∈ t.leaves working 0) (hid : l.id = id) :
    l.Carries divisions e := by
  obtain ⟨y, hy, hcarries⟩ := h.carries l hl
  rw [hid, he] at hy
  exact Option.some.inj hy ▸ hcarries

private theorem CutBy.lt_nextId {i : NodeId} (h : g.CutBy divisions working t) (hg : g.Fresh)
    (hi : i ∈ t.ids) : i < g.nextId := by
  obtain ⟨l, -, rfl, y, hy, -⟩ := h.mem_ids hi
  exact hg.lt_nextId hy

theorem CutBy.depth_le (h : g.CutBy divisions working t) : t.depth ≤ divisions := by
  obtain ⟨l, hl, hlevel⟩ := exists_leaf_at_depth t working 0
  obtain ⟨e, -, hcarries⟩ := h.carries l hl
  have := hcarries.level_le
  omega

theorem CutBy.perm_ids (h : g.CutBy divisions working t) :
    t.ids.Perm ((g.nodes.filter (·.symbol.isSector)).map Node.id) := by
  have hnodup : ((g.nodes.filter (·.symbol.isSector)).map Node.id).Nodup :=
    g.nodup_ids.sublist (List.filter_sublist.map _)
  refine (List.perm_ext_iff_of_nodup h.nodup hnodup).2 fun id => ⟨fun hid => ?_, fun hid => ?_⟩
  · obtain ⟨l, -, rfl, e, he, hcarries⟩ := h.mem_ids hid
    exact List.mem_map.2
      ⟨⟨l.id, e⟩, List.mem_filter.2 ⟨mem_nodes_iff.2 he, hcarries.isSector⟩, rfl⟩
  · obtain ⟨n, hn, rfl⟩ := List.mem_map.1 hid
    obtain ⟨hmem, hsector⟩ := List.mem_filter.1 hn
    exact h.isLeaf n.id n.element (mem_nodes_iff.1 hmem) hsector

/-! ### What expansions do to the tree -/

variable {id : NodeId} {e : Element} {x : Expansion}

/-- Splitting the garden leaves one area, whose tree has no cut. -/
theorem Planned.cutBy (h : g.Planned working) (hg : g.Fresh) (he : g.element? id = some e)
    {paths : Rect} {intensity : Nat} (hstays : x.stays = none)
    (hadded : x.added = [.area working divisions, .pathSystem paths intensity]) :
    (g.expanded id x).CutBy divisions working (.leaf g.nextId) := by
  have hnew : ∀ i y, (g.expanded id x).element? i = some y →
      (i = g.nextId ∧ y = .area working divisions) ∨ y = .pathSystem paths intensity := by
    intro i y hy
    obtain ⟨k, rfl, hk⟩ := h.element?_expanded_cases hg he hstays hy
    rw [hadded] at hk
    match k, hk with
    | 0, hk => exact .inl ⟨rfl, (Option.some.inj hk).symm⟩
    | 1, hk => exact .inr (Option.some.inj hk).symm
  refine ⟨trivial, List.pairwise_singleton _ _, fun l hl => ?_, fun i y hy hsector => ?_,
    fun i y hy => ?_⟩
  · obtain rfl := List.mem_singleton.1 hl
    refine ⟨.area working divisions, ?_, .area divisions (Nat.zero_add _)⟩
    have hfirst := element?_expanded_added (x := x) hg he 0
    rw [hadded] at hfirst
    exact hfirst
  · rcases hnew i y hy with ⟨rfl, -⟩ | rfl
    · exact List.mem_singleton_self _
    · cases hsector
  · rcases hnew i y hy with ⟨-, rfl⟩ | rfl <;> simp [Element.symbol]

theorem CutBy.cutAt (h : g.CutBy divisions working t) (hg : g.Fresh) {rect : Rect} {depth : Nat}
    (he : g.element? id = some (.area rect (depth + 1))) {c : Cut}
    (hc : c ∈ Cut.candidates rect) (hfits : rect.fits c minCutSide = true)
    (hstays : x.stays = none)
    (hadded : x.added = [.area (rect.firstPart c) depth, .area (rect.secondPart c) depth]) :
    (g.expanded id x).CutBy divisions working (t.cutAt id c g.nextId (g.nextId + 1)) := by
  have hleaf : ∀ l ∈ t.leaves working 0, l.id = id →
      l.rect = rect ∧ l.level + (depth + 1) = divisions := by
    intro l hl hid
    cases h.carries_of_id he hl hid with
    | area depth hlevel => exact ⟨rfl, hlevel⟩
  have hfirst := element?_expanded_added (x := x) hg he 0
  have hsecond := element?_expanded_added (x := x) hg he 1
  rw [hadded] at hfirst hsecond
  refine ⟨?_, ?_, fun l hl => ?_, fun i y hy hsector => ?_, fun i y hy => ?_⟩
  · refine h.fits.cutAt 0 fun l hl hid => ?_
    rw [(hleaf l hl hid).1]
    exact ⟨hc, hfits⟩
  · -- the ids of the two parts are new, so no leaf has them yet
    refine nodup_ids_cutAt h.nodup (fun hi => ?_) (fun hi => ?_) ?_
    · exact absurd (h.lt_nextId hg hi) (by lia)
    · exact absurd (h.lt_nextId hg hi) (by lia)
    · lia
  · rcases mem_leaves_cutAt.1 hl with ⟨hl, hne⟩ | ⟨l', hl', hid, rfl | rfl⟩
    · obtain ⟨y, hy, hcarries⟩ := h.carries l hl
      exact ⟨y, element?_expanded_of_ne hg he hne hy, hcarries⟩
    · obtain ⟨hrect, hlevel⟩ := hleaf l' hl' hid
      exact ⟨_, hfirst, by rw [← hrect]; exact .area depth (by simp only; omega)⟩
    · obtain ⟨hrect, hlevel⟩ := hleaf l' hl' hid
      exact ⟨_, hsecond, by rw [← hrect]; exact .area depth (by simp only; omega)⟩
  · rw [ids_cutAt, List.mem_flatMap]
    rcases element?_expanded_cases hg he hy with ⟨hi, hy⟩ | ⟨-, hself⟩ | ⟨k, rfl, hk⟩
    · exact ⟨i, h.isLeaf i y hy hsector, by simp [hi]⟩
    · rw [hstays] at hself
      cases hself
    · refine ⟨id, h.isLeaf id _ he rfl, ?_⟩
      rw [hadded] at hk
      match k, hk with
      | 0, _ => simp
      | 1, _ => simp
  · rcases element?_expanded_cases hg he hy with ⟨-, hy⟩ | ⟨-, hself⟩ | ⟨k, rfl, hk⟩
    · exact h.split i y hy
    · rw [hstays] at hself
      cases hself
    · rw [hadded] at hk
      match k, hk with
      | 0, hk => rw [← Option.some.inj hk]; simp [Element.symbol]
      | 1, hk => rw [← Option.some.inj hk]; simp [Element.symbol]

/-- Any other expansion keeps the tree: a leaf goes on carrying what it may, and what is added is no
sector. -/
theorem CutBy.expanded (h : g.CutBy divisions working t) (hg : g.Fresh)
    (he : g.element? id = some e)
    (hstays : ∀ l ∈ t.leaves working 0, l.id = id →
      ∃ y, x.stays = some y ∧ l.Carries divisions y)
    (hself : ∀ y, x.stays = some y → e.symbol.isSector = true ∧ y.symbol ≠ .garden)
    (hadded : ∀ y ∈ x.added, y.symbol.isSector = false ∧ y.symbol ≠ .garden) :
    (g.expanded id x).CutBy divisions working t := by
  refine ⟨h.fits, h.nodup, fun l hl => ?_, fun i y hy hsector => ?_, fun i y hy => ?_⟩
  · cases hid : decide (l.id = id) with
    | true =>
      have hid := of_decide_eq_true hid
      obtain ⟨y, hy, hcarries⟩ := hstays l hl hid
      exact ⟨y, by rw [hid, element?_expanded_self hg he, hy], hcarries⟩
    | false =>
      obtain ⟨y, hy, hcarries⟩ := h.carries l hl
      exact ⟨y, element?_expanded_of_ne hg he (of_decide_eq_false hid) hy, hcarries⟩
  · rcases element?_expanded_cases hg he hy with ⟨-, hold⟩ | ⟨hi, hnew⟩ | ⟨k, -, hk⟩
    · exact h.isLeaf i y hold hsector
    · rw [hi]
      exact h.isLeaf id e he (hself y hnew).1
    · rw [(hadded y (List.mem_of_getElem? hk)).1] at hsector
      cases hsector
  · rcases element?_expanded_cases hg he hy with ⟨-, hy⟩ | ⟨-, hy⟩ | ⟨k, -, hk⟩
    · exact h.split i y hy
    · exact (hself y hy).2
    · exact (hadded y (List.mem_of_getElem? hk)).2

theorem CutBy.grassed (h : g.CutBy divisions working t) (hg : g.Fresh) {rect : Rect}
    (he : g.element? id = some (.flowerArea rect)) (hstays : x.stays = some (.grassRect rect))
    (hadded : ∀ y ∈ x.added, y.symbol.isSector = false ∧ y.symbol ≠ .garden) :
    (g.expanded id x).CutBy divisions working t := by
  refine h.expanded hg he (fun l hl hid => ⟨_, hstays, ?_⟩) (fun y hy => ⟨rfl, ?_⟩) hadded
  · exact (h.carries_of_id he hl hid).grassed
  · rw [← Option.some.inj (hstays.symm.trans hy)]
    simp [Element.symbol]

/-- Whatever the grammar makes of a node, the sectors are the leaves of a tree. -/
theorem CutBy.expands {σ : Type} [WordSource σ] {params : Params} {name : String} {g₀ : Graph}
    (h : g.CutBy divisions working t) (hg : g.Fresh) (he : g.element? id = some e)
    (hx : Expands σ params g₀ e name x) :
    ∃ t, (g.expanded id x).CutBy divisions working t := by
  have hadded : ∀ y, x.stays = some y → ∀ z ∈ x.added,
      z.symbol.isSector = false ∧ z.symbol ≠ .garden := by
    intro y hy z hz
    have hplanting := hx.isPlanting_of_mem hy hz
    cases z <;> simp [Symbol.isPlanting, Symbol.isSector, Element.symbol] at hplanting ⊢
  cases hx with
  | gardenSplit rect => exact absurd rfl (h.split id _ he)
  | areaSplit rect depth cut thickness hcut hfits hthickness =>
    exact ⟨_, h.cutAt hg he hcut hfits rfl rfl⟩
  | areaTerminal rect depth terrain source huncut =>
    refine ⟨t, h.expanded hg he (fun l hl hid => ⟨_, rfl, ?_⟩) (fun y hy => ⟨rfl, ?_⟩)
      (hadded _ rfl)⟩
    · exact (h.carries_of_id he hl hid).settled huncut terrain
    · obtain rfl := Option.some.inj hy
      cases terrain <;> simp [Terrain.ground, Element.symbol]
  | roseBeds rect beds hbeds => exact ⟨t, h.grassed hg he rfl (hadded _ rfl)⟩
  | fountainCourt rect => exact ⟨t, h.grassed hg he rfl (hadded _ rfl)⟩
  | pathNetwork rect intensity =>
    -- the path system is at no leaf
    refine ⟨t, h.expanded hg he (fun l hl hid => ?_) (fun y hy => by cases hy) fun y hy => ?_⟩
    · cases h.carries_of_id he hl hid
    · obtain ⟨segment, -, rfl⟩ := List.mem_map.1 hy
      exact ⟨rfl, by simp [Element.symbol]⟩

end Graph

namespace Engine
variable {σ : Type} [WordSource σ] {working : Rect} {params : Params} {e₀ e : Engine σ}

/-- Until its first step a garden is planned; from then on its sectors are the leaves of a tree. -/
def Divided (working : Rect) (e : Engine σ) : Prop :=
  (e.steps = 0 ∧ e.graph.Planned working) ∨
    ∃ t, e.graph.CutBy e.params.divisions working t

theorem divided_start (working : Rect) (params : Params) (source : σ) :
    (start working params source).Divided working :=
  .inl ⟨rfl, planned_start working params source⟩

theorem Divided.step (h : e.Divided working) (hg : e.Gardening) :
    (e.step ()).engine.Divided working := by
  obtain ⟨-, hparams⟩ := step_keeps e
  unfold Divided
  rw [hparams]
  rcases hg.step_cases with ⟨-, -, hgraph, hsteps, -⟩ | ⟨tier, n, name, outcome, hadv⟩
  · rw [hgraph, hsteps]
    exact h
  right
  have hprepared : ∀ i, (e.prepared tier).graph.element? i = e.graph.element? i :=
    Gardening.prepared_element? e tier
  have hnode : (e.prepared tier).graph.element? n.id = some n.element :=
    (hprepared n.id).trans hadv.node
  have hfresh := hg.fresh_prepared tier
  rcases h with ⟨-, hplanned⟩ | ⟨t, hcut⟩
  · obtain ⟨hgarden, -⟩ := hplanned.eq_garden hadv.node
    rcases hadv.graph with ⟨-, x, hx, hgraph⟩ | ⟨-, -, harea, -⟩
    · rw [hgraph]
      rw [hgarden] at hx
      cases hx
      have hp : (e.prepared tier).graph.Planned working := hplanned.of_eq hprepared
      exact ⟨_, (hp.cutBy hfresh hnode rfl rfl).of_eq fun _ => rfl⟩
    · have hsymbol : n.symbol = .garden := congrArg Element.symbol hgarden
      rw [hsymbol] at harea
      cases harea
  · rcases hadv.graph with ⟨-, x, hx, hgraph⟩ | ⟨-, -, -, hgraph⟩
    · obtain ⟨t', ht'⟩ := (hcut.of_eq hprepared).expands hfresh hnode hx
      rw [hgraph]
      exact ⟨t', ht'.of_eq fun _ => rfl⟩
    · rw [hgraph]
      exact ⟨t, hcut⟩

theorem Begun.divided (h : Begun working params e₀) (hl : Leads (fun _ => False) e₀ e) :
    e.Divided working := by
  obtain ⟨-, -, source, rfl⟩ := h.eq_start
  have hboth := hl.preserves (P := fun e => e.Gardening ∧ e.Divided working)
    ⟨.start working params source, divided_start working params source⟩
    (fun e he => ⟨he.1.step, he.2.step he.1⟩) fun _ _ hno => hno.elim
  exact hboth.2

/-- From the first step on, the sectors are the leaves of a tree of cuts of the working rectangle.
It is no deeper than the divisions allow, each of its cuts is one that its rectangle may receive and
leaves no sliver, and each sector has the rectangle of its leaf.  An area has the divisions left
that its level leaves over; other ground is where no division was left or no cut fitted. -/
theorem sectors_are_leaves (hbegun : Begun working params e₀)
    (hleads : Leads (fun _ => False) e₀ e) (hsteps : 0 < e.steps) :
    ∃ t : CutTree, t.depth ≤ params.divisions ∧ t.Fits working ∧
      ((t.leaves working 0).map Leaf.id).Perm
        ((e.graph.nodes.filter (·.symbol.isSector)).map Node.id) ∧
      ∀ l ∈ t.leaves working 0, ∃ x, e.graph.element? l.id = some x ∧
        l.Carries params.divisions x := by
  obtain ⟨-, hparams⟩ := hbegun.gardening hleads
  rcases hbegun.divided hleads with ⟨hzero, -⟩ | ⟨t, hcut⟩
  · exact absurd hsteps (by omega)
  · rw [hparams] at hcut
    exact ⟨t, hcut.depth_le, hcut.fits, by rw [map_id_leaves]; exact hcut.perm_ids, hcut.carries⟩

/-- Three steps into the middling garden, which is cut twice. -/
theorem sectors_are_leaves_cut_twice :
    ∃ e, e = (middling.performAll () [.step, .run 2]).engine ∧
      Begun ⟨10.0, 10.0, 580.0, 480.0⟩ {} middling ∧ Leads (fun _ => False) middling e ∧
      0 < e.steps ∧ ∃ t : CutTree, t.depth ≤ ({} : Params).divisions ∧
        t.Fits ⟨10.0, 10.0, 580.0, 480.0⟩ ∧
        ((t.leaves ⟨10.0, 10.0, 580.0, 480.0⟩ 0).map Leaf.id).Perm
          ((e.graph.nodes.filter (·.symbol.isSector)).map Node.id) ∧
        ∀ l ∈ t.leaves ⟨10.0, 10.0, 580.0, 480.0⟩ 0, ∃ x, e.graph.element? l.id = some x ∧
          l.Carries ({} : Params).divisions x := by
  have hleads := @leads_middling [.step, .run 2] (by simp [Call.Within])
  have hsteps : 0 < (middling.performAll () [.step, .run 2]).engine.steps := by decide +kernel
  exact ⟨_, rfl, begun_middling, hleads, hsteps, sectors_are_leaves begun_middling hleads hsteps⟩

end Engine
end Parterre
