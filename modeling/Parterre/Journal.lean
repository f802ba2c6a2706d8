import Parterre.Garden.Adjacency
import Parterre.Planting.Terrain
import Parterre.Rule.Outcome
import Parterre.Shape.Cut

/-! # The journal of a derivation

Each piece of work notes what a reader of the log may want to know.  A note is data; its level and
its text are functions of it. -/
namespace Parterre

inductive Level where
  | trace
  | debug
  | info
  | warn
  deriving DecidableEq

def Level.name : Level → String
  | trace => "TRACE"
  | debug => "DEBUG"
  | info => "INFO"
  | warn => "WARN"

inductive Note where
  | noRoom (number count : Nat) (bounds : Rect)
  | adjacencyRebuilt (sectors edges : Nat)
  | sliver (cut : Cut) (area : NodeId)
  | becomes (area : NodeId) (terrain : Terrain)
  | layingPaths (segments intensity : Nat)
  | noProduction (node : Node)
  | expanded (step : Nat) (production : String) (node : Node) (outcome : Outcome)
  | skipped (production : String) (node : Node)
  | started (nodes budget : Nat)
  | stopped (steps pending : Nat)
  | finished (steps nodes : Nat) (complete : Bool)
  deriving DecidableEq

namespace Note

/-- The note that the edges of a graph were replaced by the contacts of its sectors. -/
def rebuilt (g : Graph) (contacts : List Contact) : Note :=
  .adjacencyRebuilt g.sectors.length contacts.length

def level : Note → Level
  | noRoom .. | sliver .. | becomes .. => .trace
  | adjacencyRebuilt .. | layingPaths .. | expanded .. => .debug
  | noProduction .. | skipped .. | stopped .. => .warn
  | started .. | finished .. => .info

/-- A node as notes mention it. -/
def mention (n : Node) : String := "node " ++ toString n.id ++ " (" ++ n.symbol.label ++ ")"

def text : Note → String
  | noRoom number count bounds =>
    "No room for circle " ++ toString number ++ " of " ++ toString count ++ " in " ++
      bounds.text ++ "."
  | adjacencyRebuilt sectors edges =>
    "Rebuilt adjacency over " ++ toString sectors ++ " sectors: " ++ toString edges ++ " edges."
  | sliver cut area =>
    "Split " ++ cut.name ++ " of area " ++ toString area ++ " leaves a sliver; keeping it."
  | becomes area terrain => "Area " ++ toString area ++ " becomes " ++ terrain.name ++ "."
  | layingPaths segments intensity =>
    "Laying " ++ toString segments ++ " path segments (intensity " ++ toString intensity ++ ")."
  | noProduction node => "No production accepts " ++ mention node ++ "."
  | expanded step production node outcome =>
    "Step " ++ toString step ++ ": " ++ production ++ " on " ++ mention node ++ " -> " ++
      outcome.name ++ "."
  | skipped production node => "Production " ++ production ++ " skipped " ++ mention node ++ "."
  | started nodes budget =>
    "Deriving garden: " ++ toString nodes ++ " nodes, budget " ++ toString budget ++ " steps."
  | stopped steps pending =>
    "Derivation stopped after " ++ toString steps ++ " steps with " ++ toString pending ++
      " nonterminals pending."
  | finished steps nodes complete =>
    "Derivation finished: " ++ toString steps ++ " steps, " ++ toString nodes ++
      " nodes, complete: " ++ toString complete ++ "."

end Note
end Parterre
