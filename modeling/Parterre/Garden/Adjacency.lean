import Parterre.Garden.Graph
import Parterre.Shape.Border

/-! # Adjacent sectors and the paths between them

Once the sectors are final, the edges of the graph are found anew from their rectangles, and each
border becomes the segment of a path, once. -/
namespace Parterre

/-- An edge that is to be made: its ends and its border. -/
structure Contact where
  a : NodeId
  b : NodeId
  border : Option Rect

namespace Graph

/-- The sectors with their rectangles, in id order. -/
def sectors (g : Graph) : List (NodeId × Rect) :=
  g.nodes.filterMap fun n =>
    if n.symbol.isSector then n.element.rect?.map fun r => (n.id, r) else none

/-- The contact of two sectors that share a border of the given thickness; a short border is
dropped, but the sectors stay in contact. -/
def contact? (thickness : Float32) (a b : NodeId × Rect) : Option Contact :=
  (a.2.borderBetween b.2 thickness).map fun border => ⟨a.1, b.1, border.longBorder?⟩

/-- The contacts of each sector with the later ones. -/
def contactsAmong (thickness : Float32) : List (NodeId × Rect) → List Contact
  | [] => []
  | a :: rest => rest.filterMap (contact? thickness a) ++ contactsAmong thickness rest

def contacts (g : Graph) (thickness : Float32) : List Contact := contactsAmong thickness g.sectors

/-- Replaces all edges by the given contacts. -/
def joinAll (g : Graph) (cs : List Contact) : Graph :=
  cs.foldl (fun g c => g.connect c.a c.b c.border) g.clearEdges

def rebuildAdjacency (g : Graph) (thickness : Float32) : Graph := g.joinAll (g.contacts thickness)

def edgeBorders (g : Graph) : List Rect := g.edges.filterMap (·.border)

/-- The segments of the given borders: each border is snapped and moved into `bounds`.  A border
that was seen before is passed over, and so is a segment that was laid before. -/
def segmentsOf (bounds : Rect) : List Rect → List Rect → List Rect → List Rect
  | [], _, _ => []
  | border :: rest, seen, laid =>
    let border := border.snapped
    if border ∈ seen then segmentsOf bounds rest seen laid
    else
      let segment := border.clampedInto bounds
      if segment ∈ laid then segmentsOf bounds rest (border :: seen) laid
      else segment :: segmentsOf bounds rest (border :: seen) (segment :: laid)

/-- The segments of the paths along all borders, inside `bounds`. -/
def pathSegments (g : Graph) (bounds : Rect) : List Rect := segmentsOf bounds g.edgeBorders [] []

end Graph
end Parterre
