import Parterre.Garden.Symbol
import Parterre.Garden.Graph
import Parterre.Rule.Outcome

/-! # Events

What a derivation reports while it runs, and the sinks that it reports to.  A sink says which kinds
of events it wants; `report` sends no others. -/
namespace Parterre

structure RunSummary where
  /-- The steps that made progress. -/
  steps : Nat := 0
  /-- Whether no nonterminal is left. -/
  complete : Bool := false
  /-- The nodes in the graph at the end. -/
  nodes : Nat := 0
  deriving DecidableEq, Inhabited

inductive Event where
  | runStarted (maxSteps nodes : Nat)
  | ruleApplied (step : Nat) (node : NodeId) (symbol : Symbol) (production : String)
      (outcome : Outcome)
  | adjacencyRebuilt (edges : Nat)
  | budgetExhausted (steps pending : Nat)
  | runFinished (summary : RunSummary)
  | warning (context message : String)
  deriving DecidableEq

inductive EventKind where
  | runStarted
  | ruleApplied
  | adjacencyRebuilt
  | budgetExhausted
  | runFinished
  | warning
  deriving DecidableEq, Inhabited

namespace EventKind

def all : List EventKind :=
  [runStarted, ruleApplied, adjacencyRebuilt, budgetExhausted, runFinished, warning]

def name : EventKind → String
  | runStarted => "RunStarted"
  | ruleApplied => "RuleApplied"
  | adjacencyRebuilt => "AdjacencyRebuilt"
  | budgetExhausted => "BudgetExhausted"
  | runFinished => "RunFinished"
  | warning => "Warning"

end EventKind

namespace Event

def kind : Event → EventKind
  | runStarted .. => .runStarted
  | ruleApplied .. => .ruleApplied
  | adjacencyRebuilt .. => .adjacencyRebuilt
  | budgetExhausted .. => .budgetExhausted
  | runFinished .. => .runFinished
  | warning .. => .warning

def noProduction (n : Node) : Event :=
  .warning ("node:" ++ toString n.id ++ " symbol:" ++ n.symbol.label)
    "No production accepts this node"

end Event

/-- A receiver of events. -/
class EventSink (τ : Type) where
  /-- Whether events of a kind are worth sending. -/
  wants : τ → EventKind → Bool
  /-- The sink after an event. -/
  send : τ → Event → τ

namespace EventSink
variable {τ : Type} [EventSink τ]

/-- Sends an event if the sink wants its kind. -/
def report (sink : τ) (e : Event) : τ := if wants sink e.kind then send sink e else sink

def sendAll (sink : τ) (es : List Event) : τ := es.foldl send sink

end EventSink

/-- The sink that wants nothing. -/
instance : EventSink Unit where
  wants _ _ := false
  send sink _ := sink

/-- A sink that keeps the events it receives, all of them or only those of some kinds. -/
structure Collector where
  only : Option (List EventKind) := none
  events : List Event := []

namespace Collector

def wants (c : Collector) (k : EventKind) : Bool :=
  match c.only with
  | none => true
  | some kinds => kinds.contains k

def send (c : Collector) (e : Event) : Collector :=
  if c.wants e.kind then { c with events := c.events ++ [e] } else c

def clear (c : Collector) : Collector := { c with events := [] }

instance : EventSink Collector := ⟨wants, send⟩

end Collector

/-- A sink that hands every event to a function, together with what the function returned last. -/
structure Forwarder (α : Type) where
  handle : Event → α → α
  state : α

instance {α : Type} : EventSink (Forwarder α) where
  wants _ _ := true
  send sink e := { sink with state := sink.handle e sink.state }

end Parterre
