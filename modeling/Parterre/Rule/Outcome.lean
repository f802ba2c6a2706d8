/-! # Outcomes of an expansion -/
namespace Parterre

/-- What a production did to a node. -/
inductive Outcome where
  /-- The graph changed. -/
  | applied
  /-- What was drawn broke a constraint, so the node stays to be expanded. -/
  | rejected
  /-- The node was missing, or not one that the production expands. -/
  | skipped
  deriving DecidableEq, Inhabited

def Outcome.name : Outcome → String
  | applied => "Applied"
  | rejected => "Rejected"
  | skipped => "Skipped"

end Parterre
