import Parterre.Plan.Params
import Parterre.Chance.Draw

/-! # Terrain

What an area turns into when it is not cut any more, drawn with weights that follow the
parameters. -/
namespace Parterre
open Binary32 Chance

inductive Terrain where
  | grass
  | flowers
  | trees
  | water
  deriving DecidableEq, Inhabited

namespace Terrain

/-- The kinds of terrain, in the order of the roulette. -/
def all : List Terrain := [grass, flowers, trees, water]

def name : Terrain → String
  | grass => "Grass"
  | flowers => "Flowers"
  | trees => "Trees"
  | water => "Water"

end Terrain

/-- How likely each kind of terrain is, up to a common factor. -/
structure TerrainWeights where
  grass : Float32
  flowers : Float32
  trees : Float32
  water : Float32
  deriving DecidableEq

namespace TerrainWeights

/-- The weights for given parameters.  Each has a part that the parameters do not touch, so no
terrain is ever out of reach; water becomes rare where paths are dense. -/
def ofParams (p : Params) : TerrainWeights where
  grass := 0.55
  flowers := 0.08 + 0.55 * p.flowersBias
  trees := 0.10 + 0.55 * p.treesBias
  water := 0.06 + 0.12 * (1.0 - (fromNat p.pathsIntensity - 2.0) / 5.0)

def weight (w : TerrainWeights) : Terrain → Float32
  | .grass => w.grass
  | .flowers => w.flowers
  | .trees => w.trees
  | .water => w.water

def total (w : TerrainWeights) : Float32 := w.grass + w.flowers + w.trees + w.water

def entries (w : TerrainWeights) : List (Terrain × Float32) :=
  Terrain.all.map fun t => (t, w.weight t)

def probability (w : TerrainWeights) (t : Terrain) : Float32 := w.weight t / w.total

/-- Takes the weights off a roll, one after the other, until nothing is left of it.  What rounding
may leave over at the end goes to water. -/
def settle : List (Terrain × Float32) → Float32 → Terrain
  | [], _ => .water
  | (t, w) :: rest, roll => if roll - w ≤ 0.0 then t else settle rest (roll - w)

def terrainOf (w : TerrainWeights) (word : UInt32) : Terrain :=
  settle w.entries (unitOf word * w.total)

def draw {σ : Type} [WordSource σ] (w : TerrainWeights) (source : σ) : Terrain × σ :=
  let (word, source) := WordSource.next source
  (w.terrainOf word, source)

end TerrainWeights
end Parterre
