import Parterre.Garden.Adjacency
import Parterre.Planting.FlowerBed
import Parterre.Planting.Grove
import Parterre.Planting.Pond
import Parterre.Rule.Production

/-! # The garden grammar

The six standard productions:

* a garden becomes an area and a path system;
* an area that may be cut becomes two areas, or stays if the cut drawn leaves a sliver;
* any other area becomes grass, with trees or a pond on it, or a flower area;
* a flower area becomes grass with rose beds, or with a fountain and tulip beds;
* the path system becomes a path along every border between sectors.

Each of them leaves alone nodes that it does not expand. -/
namespace Parterre
open Chance

/-- The shortest side that a cut may leave. -/
def minCutSide : Float32 := 35.0

namespace Production
variable {σ : Type} [WordSource σ]

/-- The work of a production that does not expand the node. -/
def leave (g : Graph) (source : σ) : Work σ Outcome := ⟨.skipped, g, source, []⟩

/-- Replaces the garden by an area that may be cut as often as wanted, and a path system. -/
def gardenSplit : Production σ where
  name := "garden_split"
  symbol := .garden
  apply params id g source :=
    match g.element? id with
    | some (.garden rect) =>
      let g := (g.remove id).addAll
        [.area rect params.divisions, .pathSystem rect params.pathsIntensity]
      ⟨.applied, g, source, []⟩
    | _ => leave g source

/-- Whether an area may be cut: it has divisions left, and some cut of it fits. -/
def mayBeCut (rect : Rect) (depth : Nat) : Bool := 0 < depth && rect.isCuttable minCutSide

/-- The border of two areas that a cut leaves, ready to be kept with the edge between them. -/
def cutBorder (a b : Rect) (thickness : Float32) : Option Rect :=
  (a.sharedBorder b thickness).bind fun border => border.snapped.longBorder?

/-- Draws the thickness of the border between the parts of a cut area: mostly 10, else 15. -/
def drawThickness (source : σ) : Float32 × σ :=
  let (thin, source) := drawBool 0.7 source
  (if thin then 10.0 else 15.0, source)

/-- Replaces an area by the two parts of a cut, joined by an edge. -/
def cutArea (g : Graph) (id : NodeId) (rect : Rect) (depth : Nat) (cut : Cut)
    (thickness : Float32) : Graph :=
  let first := rect.firstPart cut
  let second := rect.secondPart cut
  ((g.remove id).addAll [.area first depth, .area second depth]).connect g.nextId (g.nextId + 1)
    (cutBorder first second thickness)

/-- Cuts an area in two areas that may be cut once less, unless the cut drawn leaves a sliver. -/
def areaSplit : Production σ where
  name := "area_split"
  symbol := .area
  accepts n :=
    match n.element with
    | .area rect depth => mayBeCut rect depth
    | _ => false
  apply _ id g source :=
    match g.element? id with
    | some (.area rect (depth + 1)) =>
      let (cut, source) := rect.drawCut source
      if rect.fits cut minCutSide then
        let (thickness, source) := drawThickness source
        ⟨.applied, cutArea g id rect depth cut thickness, source, []⟩
      else ⟨.rejected, g, source, [.sliver cut id]⟩
    | _ => leave g source

def layTerrain (g : Graph) (id : NodeId) (rect : Rect) (terrain : Terrain) (source : σ) :
    Work σ Unit :=
  match terrain with
  | .grass => ⟨(), g.replace id (.grassRect rect), source, []⟩
  | .flowers => ⟨(), g.replace id (.flowerArea rect), source, []⟩
  | .trees => { Grove.plant (g.replace id (.grassRect rect)) rect source with result := () }
  | .water => { Pond.dig (g.replace id (.grassRect rect)) rect source with result := () }

/-- Turns an area that may not be cut any more into a terrain drawn by its weights. -/
def areaTerminal : Production σ where
  name := "area_terminal"
  symbol := .area
  accepts n :=
    match n.element with
    | .area rect depth => !mayBeCut rect depth
    | _ => false
  apply params id g source :=
    match g.element? id with
    | some (.area rect _) =>
      let (terrain, source) := (TerrainWeights.ofParams params).draw source
      let work := layTerrain g id rect terrain source
      { work with result := .applied, notes := .becomes id terrain :: work.notes }
    | _ => leave g source

/-- Turns a flower area into grass with two rose beds on it, abreast or stacked. -/
def roseBeds : Production σ where
  name := "rose_beds"
  symbol := .flowerArea
  apply _ id g source :=
    match g.element? id with
    | some (.flowerArea rect) =>
      let (abreast, source) := drawBool 0.5 source
      let beds := if abreast then FlowerBed.rosesAbreast rect else FlowerBed.rosesStacked rect
      let g := (g.replace id (.grassRect rect)).addAll ((FlowerBed.planted beds).map .roseBed)
      ⟨.applied, g, source, []⟩
    | _ => leave g source

/-- Turns a flower area into grass with a fountain and four tulip beds on it. -/
def fountainCourt : Production σ where
  name := "fountain_court"
  symbol := .flowerArea
  apply _ id g source :=
    match g.element? id with
    | some (.flowerArea rect) =>
      let beds := (FlowerBed.planted (FlowerBed.tulips rect)).map .tulipBed
      let g := (g.replace id (.grassRect rect)).addAll (.fountain (FlowerBed.fountain rect) :: beds)
      ⟨.applied, g, source, []⟩
    | _ => leave g source

/-- Replaces the path system by paths along the borders of the edges. -/
def pathNetwork : Production σ where
  name := "path_network"
  symbol := .pathSystem
  apply _ id g source :=
    match g.element? id with
    | some (.pathSystem rect intensity) =>
      let segments := g.pathSegments rect
      let laid := g.addAll (segments.map .pathRect)
      ⟨.applied, laid.remove id, source, [.layingPaths segments.length intensity]⟩
    | _ => leave g source

def standard : List (Production σ) :=
  [gardenSplit, areaSplit, areaTerminal, roseBeds, fountainCourt, pathNetwork]

end Production

def RuleSet.standard {σ : Type} [WordSource σ] : RuleSet σ := ⟨Production.standard⟩

end Parterre
