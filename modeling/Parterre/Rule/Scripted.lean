import Parterre.Rule.Production

/-! # Scripted productions

A production given by data: what it does to the node, what it adds, and the outcome it reports. -/
namespace Parterre

structure Script where
  name : String
  symbol : Symbol
  outcome : Outcome
  /-- A fixed answer to whether a node is accepted, instead of a look at its symbol. -/
  accepts : Option Bool := none
  /-- The element that the node gets. -/
  replacement : Option Element := none
  /-- Whether the node is removed. -/
  removes : Bool := false
  /-- The elements added. -/
  spawns : List Element := []

namespace Script

/-- Carries out a script: replaces the node, removes it, adds the new elements, in this order. -/
def perform (s : Script) (id : NodeId) (g : Graph) : Graph :=
  let g := match s.replacement with
    | some e => g.replace id e
    | none => g
  let g := if s.removes then g.remove id else g
  g.addAll s.spawns

def toProduction {σ : Type} (s : Script) : Production σ where
  name := s.name
  symbol := s.symbol
  accepts n := s.accepts.getD (n.symbol = s.symbol)
  apply _ id g source := ⟨s.outcome, s.perform id g, source, []⟩

end Script
end Parterre
