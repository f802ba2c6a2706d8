import Parterre.Journal

/-! # Pieces of work on a graph -/
namespace Parterre

/-- What a piece of work leaves behind: its result, the graph and the source afterwards, and what
it noted. -/
structure Work (σ α : Type) where
  result : α
  graph : Graph
  source : σ
  notes : List Note := []

end Parterre
