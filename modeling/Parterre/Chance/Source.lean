/-! # Sources of random words

Everything random in the library is drawn from a source of 32-bit words, which is passed in and
handed back, so a derivation can be replayed from the source it began with. -/
namespace Parterre.Chance

/-- A source of 32-bit words: the next word, and the source after it. -/
class WordSource (σ : Type) where
  next : σ → UInt32 × σ

/-- Either of two kinds of source. -/
instance {σ τ : Type} [WordSource σ] [WordSource τ] : WordSource (σ ⊕ τ) where
  next
    | .inl s => (WordSource.next s).map id .inl
    | .inr s => (WordSource.next s).map id .inr

/-- The words of a list, over and over. -/
structure WordCycle where
  words : List UInt32
  ahead : List UInt32

namespace WordCycle

def ofList (words : List UInt32) : WordCycle := ⟨words, words⟩

/-- The next word; an empty list stands for zeros. -/
def next (s : WordCycle) : UInt32 × WordCycle :=
  match s.ahead with
  | w :: rest => (w, { s with ahead := rest })
  | [] =>
    match s.words with
    | w :: rest => (w, { s with ahead := rest })
    | [] => (0, s)

instance : WordSource WordCycle := ⟨next⟩

end WordCycle

/-- A given number of words, in the order in which they are drawn, and the source after them. -/
def takeWords {σ : Type} [WordSource σ] : Nat → σ → List UInt32 × σ
  | 0, s => ([], s)
  | n + 1, s =>
    let (w, s) := WordSource.next s
    let (ws, s) := takeWords n s
    (w :: ws, s)

end Parterre.Chance
