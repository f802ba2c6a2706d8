import Parterre.Plan.Params
import Parterre.Rule.Work
import Parterre.Text.Quoted

/-! # Productions and rule sets

A production expands nodes with one symbol.  A rule set holds productions in the order in which
they were registered; those that may expand a node are the ones for its symbol that accept it. -/
namespace Parterre

/-- A rule that expands a node, drawing from sources of type `σ`. -/
structure Production (σ : Type) where
  /-- The name in notes and events. -/
  name : String
  /-- The symbol that the production is registered for. -/
  symbol : Symbol
  /-- Whether the production may expand a node. -/
  accepts : Node → Bool := fun n => n.symbol = symbol
  /-- Expands a node, whether accepted or not. -/
  apply : Params → NodeId → Graph → σ → Work σ Outcome

/-- Productions in the order of their registration. -/
structure RuleSet (σ : Type) where
  rules : List (Production σ) := []

namespace RuleSet
variable {σ : Type}

def push (r : RuleSet σ) (p : Production σ) : RuleSet σ := ⟨r.rules ++ [p]⟩

def rulesFor (r : RuleSet σ) (s : Symbol) : List (Production σ) :=
  r.rules.filter fun p => p.symbol = s

/-- The productions that may expand a node. -/
def applicable (r : RuleSet σ) (n : Node) : List (Production σ) :=
  (r.rulesFor n.symbol).filter fun p => p.accepts n

def isEmpty (r : RuleSet σ) : Bool := r.rules.isEmpty

/-- The names of the productions for each symbol that has some. -/
def text (r : RuleSet σ) : String :=
  let entry (s : Symbol) : Option String :=
    match r.rulesFor s with
    | [] => none
    | rules =>
      some (s.title ++ ": [" ++ ", ".intercalate (rules.map fun p => Text.quoted p.name) ++ "]")
  "\x7b" ++ ", ".intercalate (Symbol.all.filterMap entry) ++ "\x7d"

end RuleSet
end Parterre
