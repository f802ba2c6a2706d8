import Parterre.Chance.Source

/-! # Draws

What the grammar draws at random: a fraction, an index, an integer of a range, a chance.  Each draw
but a decided one takes one word; a function of that word says what was drawn. -/
namespace Parterre.Chance

/-- The fraction of the unit interval that a word stands for. -/
def unitOf (w : UInt32) : Float32 := w.toFloat32 / 4294967296.0

/-- The index below `n` that a word stands for: words are cut into `n` runs of equal length. -/
def indexOf (n : Nat) (w : UInt32) : Nat := w.toNat * n / UInt32.size

theorem indexOf_lt {n : Nat} (h : 0 < n) (w : UInt32) : indexOf n w < n := by
  unfold indexOf
  rw [Nat.div_lt_iff_lt_mul (by decide), Nat.mul_comm n]
  exact Nat.mul_lt_mul_of_pos_right w.toNat_lt h

/-- The number of integers from `lo` to `hi`. -/
def spanOf (lo hi : Int32) : Nat := (hi.toInt - lo.toInt + 1).toNat

/-- The integer from `lo` to `hi` that a word stands for, for `lo < hi`.  The offset may need all 32
bits, so the sum wraps around. -/
def intOf (lo hi : Int32) (w : UInt32) : Int32 := lo + Int32.ofNat (indexOf (spanOf lo hi) w)

variable {σ : Type} [WordSource σ]

def drawUnit (source : σ) : Float32 × σ :=
  let (w, source) := WordSource.next source
  (unitOf w, source)

def drawIndex (n : Nat) (source : σ) : Nat × σ :=
  let (w, source) := WordSource.next source
  (indexOf n w, source)

/-- Draws an integer from `lo` to `hi`; an empty range gives `lo` without a draw. -/
def drawInt (lo hi : Int32) (source : σ) : Int32 × σ :=
  if hi ≤ lo then (lo, source)
  else
    let (w, source) := WordSource.next source
    (intOf lo hi w, source)

def drawBool (p : Float32) (source : σ) : Bool × σ :=
  let (u, source) := drawUnit source
  (decide (u < p), source)

/-- Draws an item of a list, which has a fallback in case it is empty. -/
def drawFrom {α : Type} (items : List α) (fallback : α) (source : σ) : α × σ :=
  let (i, source) := drawIndex items.length source
  (items.getD i fallback, source)

end Parterre.Chance
