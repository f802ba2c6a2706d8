import Mathlib.Algebra.Group.Nat.Defs
import Mathlib.Data.List.Induction
import Mathlib.Data.Prod.Lex
import Parterre.Drawing.Image
import Parterre.Proofs.GraphEdits

/-! # What an image shows

Painting overwrites, so a pixel has the colour of the node that is painted last of those that cover
it.  Nodes are painted layer by layer, and by id inside a layer: the last one is the one with the
greatest layer and id.  All this follows from the laws of images, and one kind of image keeps
them. -/
namespace Parterre
open Binary32

/-! ### Images row by row -/

namespace Image
variable {img img' : Image} {x y x' y' : UInt32} {color : Color}

private theorem index_eq_iff (hx : x < img.width) (hx' : x' < img.width) :
    img.index x y = img.index x' y' ↔ x = x' ∧ y = y' := by
  refine ⟨fun h => ?_, fun ⟨hxx, hyy⟩ => by rw [hxx, hyy]⟩
  rw [UInt32.lt_iff_toNat_lt] at hx hx'
  have hcolumn : x.toNat = x'.toNat := by
    have hmod := congrArg (· % img.width.toNat) h
    simpa only [index, Nat.mul_add_mod_self_right, Nat.mod_eq_of_lt, hx, hx'] using hmod
  have hrow : y.toNat * img.width.toNat = y'.toNat * img.width.toNat := by
    unfold index at h
    omega
  have hwidth : 0 < img.width.toNat := Nat.zero_lt_of_lt hx
  exact ⟨UInt32.toNat.inj hcolumn, UInt32.toNat.inj (Nat.eq_of_mul_eq_mul_right hwidth hrow)⟩

private theorem index_lt_size (hx : x < img.width) (hy : y < img.height) :
    img.index x y < img.pixels.size := by
  rw [UInt32.lt_iff_toNat_lt] at hx hy
  have hrow : (y.toNat + 1) * img.width.toNat ≤ img.height.toNat * img.width.toNat :=
    Nat.mul_le_mul_right _ hy
  rw [Nat.add_mul, Nat.one_mul] at hrow
  rw [img.size_pixels, Nat.mul_comm img.width.toNat, index]
  omega

/-- An image that is made is not too large, and consists of pixels of the one colour. -/
private theorem filled_eq_some_iff {width height : UInt32} :
    filled width height color = some img ↔ width.toNat * height.toNat * 3 < Nat.pow 2 63 ∧
      ⟨width, height, Array.replicate (width.toNat * height.toNat) color,
        Array.size_replicate⟩ = img := by
  unfold filled
  split
  · next hroom => exact ⟨fun h => ⟨hroom, Option.some.inj h⟩, fun h => congrArg some h.2⟩
  · next hroom =>
    constructor
    · intro h
      cases h
    · rintro ⟨hroom', -⟩
      exact absurd hroom' hroom

/-- A pixel that is painted lies inside, and is the only one that changes. -/
private theorem set?_eq_some (h : img.set? x y color = some img') :
    img'.width = img.width ∧ img'.height = img.height ∧ ∀ x' y',
      img'.get? x' y' = if x' = x ∧ y' = y then some color else img.get? x' y' := by
  unfold set? at h
  split at h
  · next hin =>
    obtain rfl := Option.some.inj h
    refine ⟨rfl, rfl, fun x' y' => ?_⟩
    simp only [get?, Array.getElem?_setIfInBounds]
    by_cases hin' : x' < img.width ∧ y' < img.height
    · change (if _ then if img.index x y = img.index x' y' then _ else _ else _) = _
      rw [if_pos hin', if_pos hin', if_pos (index_lt_size hin.1 hin.2)]
      exact if_congr ((index_eq_iff hin.1 hin'.1).trans (by rw [eq_comm, @eq_comm _ y])) rfl rfl
    · rw [if_neg hin', if_neg hin', if_neg]
      rintro ⟨rfl, rfl⟩
      exact hin' hin
  · cases h

instance : LawfulRaster Image where
  isSome_filled width height c := by
    change (filled width height c).isSome = true ↔ _
    unfold filled
    split
    · next hroom => exact iff_of_true rfl hroom
    · next hroom => exact iff_of_false Bool.false_ne_true hroom
  width_of_filled h := by
    obtain ⟨-, rfl⟩ := filled_eq_some_iff.1 h
    rfl
  height_of_filled h := by
    obtain ⟨-, rfl⟩ := filled_eq_some_iff.1 h
    rfl
  get?_of_filled {width height x y c img} h hx hy := by
    obtain ⟨-, rfl⟩ := filled_eq_some_iff.1 h
    exact (if_pos ⟨hx, hy⟩).trans
      ((Array.getElem?_eq_getElem (index_lt_size hx hy)).trans
        (congrArg some (Array.getElem_replicate _)))
  isSome_set? img x y c := by
    change (img.set? x y c).isSome = true ↔ _ < img.width ∧ _ < img.height
    unfold set?
    split <;> simp [*]
  width_of_set? h := (set?_eq_some h).1
  height_of_set? h := (set?_eq_some h).2.1
  get?_of_set? h := (set?_eq_some h).2.2

end Image

/-! ### Spans -/

namespace Span
variable {s : Span} {x limit : UInt32} {lo hi : Float32}

def Holds (s : Span) (x : UInt32) : Prop := s.first ≤ x ∧ x < s.stop

@[simp] theorem mem_toList : x ∈ s.toList ↔ s.Holds x := by
  have hstop := s.stop.toNat_lt
  simp only [toList, Holds, List.mem_map, List.mem_range'_1, UInt32.le_iff_toNat_le,
    UInt32.lt_iff_toNat_lt]
  constructor
  · rintro ⟨n, hn, rfl⟩
    rw [UInt32.toNat_ofNat_of_lt' (by rw [UInt32.size]; omega)]
    omega
  · exact fun hx => ⟨x.toNat, by omega, UInt32.ofNat_toNat⟩

/-- Whether the pixel number `x`, of `count` along an axis, lies between two coordinates. -/
def Between (lo hi : Float32) (count x : UInt32) : Prop :=
  UInt32.ofNat (toNatUpTo (UInt32.size - 1) (greatest (floor lo) 0.0)) ≤ x ∧
    x < UInt32.ofNat (toNatUpTo (UInt32.size - 1) (greatest (ceil hi) 0.0)) ∧ x < count

instance : Decidable (Between lo hi limit x) := inferInstanceAs (Decidable (_ ∧ _ ∧ _))

/-- Neither the end at the limit nor a beginning that is brought down to it matters. -/
@[simp] theorem holds_ofInterval : (ofInterval lo hi limit).Holds x ↔ Between lo hi limit x := by
  simp only [Holds, ofInterval, Between, pixelAt, UInt32.le_iff_toNat_le, UInt32.lt_iff_toNat_lt,
    UInt32.toNat_min]
  omega

end Span

namespace Canvas
variable {c : Canvas} {shape : Shape} {color : Color} {g : Graph} {m n : Node} {ns : List Node}
  {x y : UInt32}

/-! ### Shapes -/

/-- Whether a shape covers a pixel: a rectangle all those that it reaches, and a circle those of
them whose middle lies in it or on it. -/
def Covers (c : Canvas) (x y : UInt32) (shape : Shape) : Prop :=
  let across := fromNat c.width.toNat / greatest c.extent.x 1.1920929e-7
  let down := fromNat c.height.toNat / greatest c.extent.y 1.1920929e-7
  let middle : Point := ⟨(fromNat x.toNat + 0.5) / across, (fromNat y.toNat + 0.5) / down⟩
  Span.Between (shape.bounds.x * across) (shape.bounds.right * across) c.width x ∧
    Span.Between (shape.bounds.y * down) (shape.bounds.bottom * down) c.height y ∧
    match shape with
    | .rect _ => True
    | .circle k => middle.distanceSquared k.center ≤ k.r * k.r

instance (c : Canvas) (x y : UInt32) (shape : Shape) : Decidable (c.Covers x y shape) :=
  match shape with
  | .rect _ => inferInstanceAs (Decidable (_ ∧ _ ∧ True))
  | .circle _ => inferInstanceAs (Decidable (_ ∧ _ ∧ _ ≤ _))

theorem covers_iff : c.Covers x y shape ↔ (c.columns shape.bounds c.width).Holds x ∧
    (c.rowsOf shape.bounds c.height).Holds y ∧ c.coversWithin shape x y := by
  rw [columns, rowsOf, Span.holds_ofInterval, Span.holds_ofInterval]
  refine and_congr_right' (and_congr_right' ?_)
  cases shape with
  | rect r => exact ⟨fun _ => rfl, fun _ => trivial⟩
  | circle k => exact decide_eq_true_iff.symm

variable {ι : Type} [Raster ι]

structure Sizes (c : Canvas) (img : ι) : Prop where
  width : Raster.width img = c.width
  height : Raster.height img = c.height

/-- What becomes of an image when some of its pixels are painted. -/
structure Painted (c : Canvas) (color : Color) (on : UInt32 → UInt32 → Prop) (img img' : ι) :
    Prop where
  sizes : c.Sizes img'
  painted : ∀ {x y}, on x y → Raster.get? img' x y = some color
  kept : ∀ {x y}, ¬on x y → Raster.get? img' x y = Raster.get? img x y

variable {img img' : ι} {on on' : UInt32 → UInt32 → Prop}

theorem Painted.refl (h : c.Sizes img) : c.Painted color (fun _ _ => False) img img :=
  ⟨h, False.elim, fun _ => rfl⟩

theorem Painted.congr (h : c.Painted color on img img') (hon : ∀ x y, on x y ↔ on' x y) :
    c.Painted color on' img img' :=
  ⟨h.sizes, fun hxy => h.painted ((hon _ _).2 hxy), fun hxy => h.kept fun h => hxy ((hon _ _).1 h)⟩

theorem Painted.trans {img'' : ι} (h : c.Painted color on img img')
    (h' : c.Painted color on' img' img'') :
    c.Painted color (fun x y => on x y ∨ on' x y) img img'' where
  sizes := h'.sizes
  painted {x y} hxy := by
    by_cases hlater : on' x y
    · exact h'.painted hlater
    · exact (h'.kept hlater).trans (h.painted (hxy.resolve_right hlater))
  kept hxy := (h'.kept fun hlater => hxy (.inr hlater)).trans
    (h.kept fun hearlier => hxy (.inl hearlier))

/-- Where each step of a loop paints some pixels, the loop has painted those of all steps. -/
theorem exists_foldlM {α : Type} {steps : List α} {step : ι → α → Option ι}
    {on : α → UInt32 → UInt32 → Prop}
    (hstep : ∀ img, c.Sizes img → ∀ i ∈ steps,
      ∃ img', step img i = some img' ∧ c.Painted color (on i) img img') (h : c.Sizes img) :
    ∃ img', steps.foldlM step img = some img' ∧
      c.Painted color (fun x y => ∃ i ∈ steps, on i x y) img img' := by
  induction steps generalizing img with
  | nil => exact ⟨img, rfl, (Painted.refl h).congr (by simp)⟩
  | cons i rest ih =>
    obtain ⟨first, hfirst, hpainted⟩ := hstep img h i List.mem_cons_self
    obtain ⟨last, hlast, hrest⟩ :=
      ih (fun img himg j hj => hstep img himg j (List.mem_cons_of_mem _ hj)) hpainted.sizes
    refine ⟨last, ?_, (hpainted.trans hrest).congr (by simp)⟩
    rw [List.foldlM_cons, hfirst]
    exact hlast

variable [LawfulRaster ι]

private theorem exists_set? (color : Color) (h : c.Sizes img) (hx : x < c.width)
    (hy : y < c.height) :
    ∃ img', Raster.set? img x y color = some img' ∧
      c.Painted color (fun x' y' => x' = x ∧ y' = y) img img' := by
  have hinside := (LawfulRaster.isSome_set? img x y color).2 ⟨h.width ▸ hx, h.height ▸ hy⟩
  obtain ⟨img', himg'⟩ := Option.isSome_iff_exists.1 hinside
  have hpixel := LawfulRaster.get?_of_set? himg'
  refine ⟨img', himg', ⟨(LawfulRaster.width_of_set? himg').trans h.width,
    (LawfulRaster.height_of_set? himg').trans h.height⟩, fun hxy => ?_, fun hxy => ?_⟩
  · rw [hpixel, if_pos hxy]
  · rw [hpixel, if_neg hxy]

theorem exists_paint (shape : Shape) (color : Color) (h : c.Sizes img) :
    ∃ img', c.paint img shape color = some img' ∧
      c.Painted color (fun x y => c.Covers x y shape) img img' := by
  have hpixel : ∀ y' ∈ (c.rowsOf shape.bounds c.height).toList, ∀ img, c.Sizes img →
      ∀ x' ∈ (c.columns shape.bounds c.width).toList, ∃ img' : ι,
        (if c.coversWithin shape x' y' then Raster.set? img x' y' color else some img) =
          some img' ∧
        c.Painted color (fun x y => (x = x' ∧ y = y') ∧ c.coversWithin shape x' y') img img' := by
    intro y' hy' img himg x' hx'
    have hx := (Span.holds_ofInterval.1 (Span.mem_toList.1 hx')).2.2
    have hy := (Span.holds_ofInterval.1 (Span.mem_toList.1 hy')).2.2
    by_cases hcovers : c.coversWithin shape x' y'
    · obtain ⟨img', himg', hpainted⟩ := exists_set? color himg hx hy
      exact ⟨img', (if_pos hcovers).trans himg', hpainted.congr (by simp [hcovers])⟩
    · exact ⟨img, if_neg hcovers, (Painted.refl himg).congr (by simp [hcovers])⟩
  unfold paint
  rw [h.width, h.height]
  obtain ⟨img', himg', hpainted⟩ := exists_foldlM (fun img himg y' hy' =>
    exists_foldlM (fun img himg x' hx' => hpixel y' hy' img himg x' hx') himg) h
  refine ⟨img', himg', hpainted.congr fun x y => ?_⟩
  rw [covers_iff]
  constructor
  · rintro ⟨y', hy', x', hx', ⟨rfl, rfl⟩, hcovers⟩
    exact ⟨Span.mem_toList.1 hx', Span.mem_toList.1 hy', hcovers⟩
  · rintro ⟨hx', hy', hcovers⟩
    exact ⟨y, Span.mem_toList.2 hy', x, Span.mem_toList.2 hx', ⟨rfl, rfl⟩, hcovers⟩

/-! ### Nodes -/

/-- Whether a node paints a pixel: it is a terminal whose shape covers it. -/
def Shows (c : Canvas) (x y : UInt32) (n : Node) : Prop :=
  n.symbol.isNonterminal = false ∧ c.Covers x y n.shape

instance (c : Canvas) (x y : UInt32) (n : Node) : Decidable (c.Shows x y n) :=
  inferInstanceAs (Decidable (_ ∧ _))

private theorem exists_paintNode (n : Node) (h : c.Sizes img) :
    ∃ img', c.paintNode img n = some img' ∧
      c.Painted (c.color n.symbol) (fun x y => c.Shows x y n) img img' := by
  unfold paintNode Shows
  split
  · next hsymbol => exact ⟨img, rfl, (Painted.refl h).congr (by simp [hsymbol])⟩
  · next hsymbol =>
    obtain ⟨img', himg', hpainted⟩ := exists_paint n.shape (c.color n.symbol) h
    exact ⟨img', himg', hpainted.congr (by simp [hsymbol])⟩

/-- Whether an image shows at each pixel the last node that paints it, and what was there before if
there is none. -/
structure ShowsLast (c : Canvas) (ns : List Node) (img img' : ι) : Prop where
  sizes : c.Sizes img'
  pixel : ∀ x y,
    (∃ n ∈ ns, c.Shows x y n ∧ (∀ m ∈ ns, c.Shows x y m → m = n ∨ Graph.drawnBefore m n = true) ∧
        Raster.get? img' x y = some (c.color n.symbol)) ∨
      (∀ n ∈ ns, ¬c.Shows x y n) ∧ Raster.get? img' x y = Raster.get? img x y

private theorem exists_foldlM_paintNode (h : c.Sizes img)
    (hsorted : ns.Pairwise fun m n => Graph.drawnBefore m n = true) :
    ∃ img', ns.foldlM c.paintNode img = some img' ∧ c.ShowsLast ns img img' := by
  -- the node painted last decides, so the induction takes nodes off the end
  induction ns using List.reverseRecOn with
  | nil => exact ⟨img, rfl, h, fun x y => .inr ⟨by simp, rfl⟩⟩
  | append_singleton ns n ih =>
    obtain ⟨hrest, -, hlast⟩ := List.pairwise_append.1 hsorted
    obtain ⟨below, hbelow, hshows⟩ := ih hrest
    obtain ⟨img', himg', hpainted⟩ := exists_paintNode n hshows.sizes
    refine ⟨img', ?_, hpainted.sizes, fun x y => ?_⟩
    · rw [List.foldlM_append, hbelow]
      exact (bind_pure _).trans himg'
    by_cases hshown : c.Shows x y n
    · refine .inl ⟨n, by simp, hshown, fun m hm _ => ?_, hpainted.painted hshown⟩
      rcases List.mem_append.1 hm with hm | hm
      · exact .inr (hlast m hm n (List.mem_singleton_self n))
      · exact .inl (List.mem_singleton.1 hm)
    have hmem : ∀ m ∈ ns ++ [n], c.Shows x y m → m ∈ ns := by
      intro m hm hm'
      refine (List.mem_append.1 hm).resolve_right fun hmn => hshown ?_
      exact List.mem_singleton.1 hmn ▸ hm'
    rw [hpainted.kept hshown]
    rcases hshows.pixel x y with ⟨top, htop, htop', hgreatest, hcolor⟩ | ⟨hnone, hkept⟩
    · refine .inl ⟨top, List.mem_append_left _ htop, htop', fun m hm hm' => ?_, hcolor⟩
      exact hgreatest m (hmem m hm hm') hm'
    · exact .inr ⟨fun m hm hm' => hnone m (hmem m hm hm') hm', hkept⟩

/-! ### Layouts -/

def depthOf (n : Node) : Nat ×ₗ NodeId := toLex (n.symbol.drawLayer, n.id)

/-- Whether a node is on top at a pixel: of the nodes that paint it, it has the greatest layer and,
in that layer, the greatest id. -/
structure Topmost (c : Canvas) (g : Graph) (x y : UInt32) (n : Node) : Prop where
  mem : n ∈ g.nodes
  shows : c.Shows x y n
  greatest : ∀ m ∈ g.nodes, c.Shows x y m → m ≠ n → depthOf m < depthOf n

private theorem Topmost.unique (hm : c.Topmost g x y m) (hn : c.Topmost g x y n) : m = n := by
  by_contra hne
  exact lt_asymm (hn.greatest m hm.mem hm.shows hne) (hm.greatest n hn.mem hn.shows (Ne.symm hne))

theorem drawnBefore_iff : Graph.drawnBefore m n = true ↔ depthOf m ≤ depthOf n := by
  simp [Graph.drawnBefore, depthOf, Prod.Lex.toLex_le_toLex]

private theorem depthOf_injOn (hm : m ∈ g.nodes) (hn : n ∈ g.nodes) (h : depthOf m = depthOf n) :
    m = n := by
  have hid : m.id = n.id := congrArg (fun d => (ofLex d).2) h
  have helement : m.element = n.element :=
    Option.some.inj ((Graph.mem_nodes_iff.1 hm).symm.trans (hid ▸ Graph.mem_nodes_iff.1 hn))
  cases m
  cases n
  exact (Node.mk.injEq ..).mpr ⟨hid, helement⟩

private theorem layout_sorted (g : Graph) :
    g.layout.Pairwise fun m n => Graph.drawnBefore m n = true := by
  refine List.pairwise_mergeSort (fun l m n hlm hmn => ?_) (fun m n => ?_) g.nodes
  · rw [drawnBefore_iff] at hlm hmn ⊢
    exact hlm.trans hmn
  · rw [Bool.or_eq_true, drawnBefore_iff, drawnBefore_iff]
    exact le_total _ _

end Canvas
end Parterre
