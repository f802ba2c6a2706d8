import Parterre.Drawing.Palette

/-! # Images

What a drawing asks of an image.  Images come from outside the library; the laws that theorems rely
on are stated beside the operations, and `Image` is an image that keeps them. -/
namespace Parterre

/-- A kind of image.  An operation that has no result gives `none`. -/
class Raster (ι : Type) where
  /-- An image of one colour. -/
  filled : (width height : UInt32) → Color → Option ι
  width : ι → UInt32
  height : ι → UInt32
  /-- The colour of a pixel. -/
  get? : ι → (x y : UInt32) → Option Color
  /-- The image with one pixel painted. -/
  set? : ι → (x y : UInt32) → Color → Option ι

/-- What the operations do.  An image is refused if its pixels, at three bytes each, would take
`2 ^ 63` bytes or more, and pixels are painted inside the image only. -/
class LawfulRaster (ι : Type) [Raster ι] : Prop where
  isSome_filled (width height : UInt32) (c : Color) :
    (Raster.filled width height c : Option ι).isSome ↔
      width.toNat * height.toNat * 3 < Nat.pow 2 63
  width_of_filled {width height : UInt32} {c : Color} {img : ι} :
    Raster.filled width height c = some img → Raster.width img = width
  height_of_filled {width height : UInt32} {c : Color} {img : ι} :
    Raster.filled width height c = some img → Raster.height img = height
  get?_of_filled {width height x y : UInt32} {c : Color} {img : ι} :
    Raster.filled width height c = some img → x < width → y < height →
      Raster.get? img x y = some c
  isSome_set? (img : ι) (x y : UInt32) (c : Color) :
    (Raster.set? img x y c).isSome ↔ x < Raster.width img ∧ y < Raster.height img
  width_of_set? {img img' : ι} {x y : UInt32} {c : Color} :
    Raster.set? img x y c = some img' → Raster.width img' = Raster.width img
  height_of_set? {img img' : ι} {x y : UInt32} {c : Color} :
    Raster.set? img x y c = some img' → Raster.height img' = Raster.height img
  get?_of_set? {img img' : ι} {x y : UInt32} {c : Color} :
    Raster.set? img x y c = some img' → ∀ x' y', Raster.get? img' x' y' =
      if x' = x ∧ y' = y then some c else Raster.get? img x' y'

/-- An image, row by row from the top. -/
structure Image where
  width : UInt32
  height : UInt32
  pixels : Array Color
  size_pixels : pixels.size = width.toNat * height.toNat

namespace Image

def index (img : Image) (x y : UInt32) : Nat := y.toNat * img.width.toNat + x.toNat

def filled (width height : UInt32) (c : Color) : Option Image :=
  if width.toNat * height.toNat * 3 < Nat.pow 2 63 then
    some ⟨width, height, Array.replicate (width.toNat * height.toNat) c, Array.size_replicate⟩
  else none

def get? (img : Image) (x y : UInt32) : Option Color :=
  if x < img.width ∧ y < img.height then img.pixels[img.index x y]? else none

def set? (img : Image) (x y : UInt32) (c : Color) : Option Image :=
  if x < img.width ∧ y < img.height then
    some { img with
      pixels := img.pixels.setIfInBounds (img.index x y) c
      size_pixels := by simp [img.size_pixels] }
  else none

instance : Raster Image where
  filled := filled
  width := width
  height := height
  get? := get?
  set? := set?

def row (img : Image) (y : Nat) : List Color :=
  (img.pixels.extract (y * img.width.toNat) ((y + 1) * img.width.toNat)).toList

def rows (img : Image) : List (List Color) := (List.range img.height.toNat).map img.row

end Image
end Parterre
