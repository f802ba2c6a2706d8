import Parterre.Derivation.Agenda
import Parterre.Derivation.Event
import Parterre.Plan.Plot
import Parterre.Chance.Seeded
import Parterre.Rule.Standard

/-! # Deriving a garden

A derivation starts from a graph with one node, the garden, and expands nonterminals one at a time
until none is left.  A step takes a node off the agenda, finds all contacts of the sectors anew if
the node is a path system, draws a production among those that accept it, and applies it.  A run
makes steps until one makes no progress or its budget is used up.  Notes and events are handed out
beside the engine and never read again. -/
namespace Parterre
open Chance

structure Engine (σ : Type) where
  graph : Graph
  params : Params
  rules : RuleSet σ
  source : σ
  agenda : Agenda
  /-- The steps so far that made progress. -/
  steps : Nat

/-- A derivation with the sink that it reports to, and what was noted on the way. -/
structure Observed (σ τ : Type) where
  engine : Engine σ
  sink : τ
  notes : List Note

structure Stepped (σ τ : Type) extends Observed σ τ where
  progressed : Bool

/-- What several steps leave behind, and how many of them made progress. -/
structure Walked (σ τ : Type) extends Observed σ τ where
  steps : Nat

structure Ran (σ τ : Type) extends Observed σ τ where
  summary : RunSummary

namespace Engine
variable {σ : Type} [WordSource σ]

def pathThickness : Float32 := 10.0

def defaultBudget : Nat := 1500

/-- Takes the recorded changes of the graph over into the agenda. -/
def absorb (e : Engine σ) : Engine σ :=
  { e with agenda := e.agenda.absorb e.graph, graph := e.graph.forgetChanges }

def start (working : Rect) (params : Params) (source : σ) : Engine σ :=
  absorb
    { graph := Graph.empty.trackChanges.add (.garden working)
      params, rules := .standard, source, agenda := {}, steps := 0 }

/-- The engine for a working rectangle, if it and the parameters are acceptable. -/
def create (working : Rect) (params : Params) (source : σ) : Except Rejection (Engine σ) := do
  params.validate
  working.validateWorking
  return start working params source

def forPlot (plot : Plot) (params : Params) (source : σ) : Except Rejection (Engine σ) := do
  plot.validate
  create plot.workingRect params source

def withRules (e : Engine σ) (rules : RuleSet σ) : Engine σ := { e with rules }

def isComplete (e : Engine σ) : Bool := !e.graph.hasNonterminals

def pending (e : Engine σ) : Nat := e.graph.nonterminals.length

/-- Draws one of the productions that accept a node; a single one needs no draw. -/
def pickRule (rules : RuleSet σ) (n : Node) (source : σ) : Option (Production σ) × σ :=
  match rules.applicable n with
  | [] => (none, source)
  | [p] => (some p, source)
  | ps =>
    let (i, source) := drawIndex ps.length source
    (ps[i]?, source)

section Steps
variable {τ : Type} [EventSink τ]

/-- Finds the contacts of the sectors anew before a path system is expanded. -/
def prepare (e : Engine σ) (tier : Tier) (sink : τ) : Observed σ τ :=
  if tier = .pathSystem then
    let contacts := e.graph.contacts pathThickness
    { engine := { e with graph := e.graph.joinAll contacts }
      sink := EventSink.report sink (.adjacencyRebuilt contacts.length)
      notes := [.rebuilt e.graph contacts] }
  else ⟨e, sink, []⟩

/-- A step that finds nothing to expand. -/
def idle (e : Engine σ) (sink : τ) : Stepped σ τ :=
  { engine := e, sink, notes := [], progressed := false }

/-- Queues a node again that no production accepts. -/
def giveUp (e : Engine σ) (n : Node) (sink : τ) : Stepped σ τ where
  progressed := false
  engine := { e with agenda := e.agenda.schedule n.id n.symbol }
  sink := EventSink.report sink (.noProduction n)
  notes := [.noProduction n]

/-- Applies a production to a node, and queues the node again if it is still there. -/
def applyRule (e : Engine σ) (p : Production σ) (n : Node) : Work σ Outcome × Engine σ :=
  let work := p.apply e.params n.id e.graph e.source
  let e := absorb { e with graph := work.graph, source := work.source }
  (work, { e with agenda := e.agenda.scheduleLive e.graph n.id })

/-- Expands a node by a production, counts the step if it made progress, and reports it. -/
def expandBy (e : Engine σ) (p : Production σ) (n : Node) (sink : τ) : Stepped σ τ :=
  let (work, e) := e.applyRule p n
  let progressed := work.result ≠ .skipped
  let e := if progressed then { e with steps := e.steps + 1 } else e
  let note := if progressed then .expanded e.steps p.name n work.result else .skipped p.name n
  { progressed
    engine := e
    sink := EventSink.report sink (.ruleApplied e.steps n.id n.symbol p.name work.result)
    notes := work.notes ++ [note] }

def expand (e : Engine σ) (id : NodeId) (sink : τ) : Stepped σ τ :=
  match e.graph.node? id with
  | none => e.idle sink
  | some n =>
    match pickRule e.rules n e.source with
    | (none, source) => giveUp { e with source } n sink
    | (some p, source) => expandBy { e with source } p n sink

/-- Makes one step: expands the node that is next on the agenda. -/
def step (e : Engine σ) (sink : τ) : Stepped σ τ :=
  let e := e.absorb
  let drawn := e.agenda.next e.graph e.source
  let e := { e with agenda := drawn.agenda, source := drawn.source }
  match drawn.found with
  | none => e.idle sink
  | some (tier, id) =>
    let prepared := e.prepare tier sink
    let done := prepared.engine.expand id prepared.sink
    { done with notes := prepared.notes ++ done.notes }

/-- Makes steps until one makes no progress, up to a budget. -/
def walk : Nat → Engine σ → τ → Walked σ τ
  | 0, e, sink => { engine := e, sink, notes := [], steps := 0 }
  | budget + 1, e, sink =>
    let done := e.step sink
    if done.progressed then
      let rest := walk budget done.engine done.sink
      { rest with steps := rest.steps + 1, notes := done.notes ++ rest.notes }
    else { done with steps := 0 }

def run (e : Engine σ) (budget : Nat) (sink : τ) : Ran σ τ :=
  let opening := EventSink.report sink (.runStarted budget e.graph.nodeCount)
  let walked := walk budget e opening
  let final := walked.engine
  let summary : RunSummary := ⟨walked.steps, final.isComplete, final.graph.nodeCount⟩
  let short := !summary.complete && walked.steps = budget
  let closing :=
    if short then EventSink.report walked.sink (.budgetExhausted walked.steps final.pending)
    else walked.sink
  { summary
    engine := final
    sink := EventSink.report closing (.runFinished summary)
    notes := .started e.graph.nodeCount budget :: walked.notes ++
      (if summary.complete then [] else [.stopped walked.steps final.pending]) ++
      [.finished summary.steps summary.nodes summary.complete] }

end Steps
end Engine

/-- Derives a garden for a plot from a seed, with the default budget: the graph, the summary and
the notes. -/
def deriveGarden (plot : Plot) (params : Params) (seed : UInt64) :
    Except Rejection (Graph × RunSummary × List Note) := do
  let engine ← Engine.forPlot plot params (Keystream.ofSeed seed)
  let ran := engine.run Engine.defaultBudget ()
  return (ran.engine.graph, ran.summary, ran.notes)

end Parterre
