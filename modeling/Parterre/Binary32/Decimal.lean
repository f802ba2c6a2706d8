import Parterre.Binary32.Rounding

/-! # Decimal text of binary32 numbers

The shortest decimal that reads back as a given number, and two ways to write it out.  A decimal
reads back if it lies in the interval of reals that round to the number.  The decimals with a fixed
last place form a grid; a coarser grid means fewer digits, so the first grid with a point in the
interval gives the shortest decimal, and if one of its points reads back, then so does one of the
two neighbours of the number. -/
namespace Parterre.Binary32

/-- The value `coefficient * 10 ^ exponent`. -/
structure Decimal where
  coefficient : Nat
  exponent : Int
  deriving DecidableEq

/-- A number as a multiple of a quarter of its last place, with the ends of the interval that
rounds to it in the same unit, which is `2 ^ exponent`. -/
structure Interval where
  lower : Nat
  middle : Nat
  upper : Nat
  closed : Bool
  exponent : Int

/-- The reals that round to a finite number.  Half of the last place lies on either side, but only
a quarter below a power of two; ties go to the even mantissa, so an even one includes its ends. -/
def Parts.interval (p : Parts) : Interval where
  lower := 4 * p.mantissa - if p.mantissa = Nat.pow 2 23 ∧ -149 < p.exponent then 1 else 2
  middle := 4 * p.mantissa
  upper := 4 * p.mantissa + 2
  closed := p.mantissa % 2 == 0
  exponent := p.exponent - 2

namespace Interval

/-- The factors that turn a multiple of the interval's unit and one of `10 ^ place` into multiples
of one common unit. -/
def scales (i : Interval) (place : Int) : Nat × Nat :=
  (Nat.pow 2 i.exponent.toNat * Nat.pow 10 (-place).toNat,
    Nat.pow 2 (-i.exponent).toNat * Nat.pow 10 place.toNat)

/-- Whether `c * 10 ^ place` lies in the interval. -/
def holds (i : Interval) (place : Int) (c : Nat) : Bool :=
  let (unit, step) := i.scales place
  if i.closed then i.lower * unit ≤ c * step && c * step ≤ i.upper * unit
  else i.lower * unit < c * step && c * step < i.upper * unit

/-- The neighbour of the middle on the grid of `10 ^ place` that lies in the interval; of two the
nearer, and the upper one if both are as near. -/
def onGrid (i : Interval) (place : Int) : Option Decimal :=
  let (unit, step) := i.scales place
  let below := i.middle * unit / step
  let remainder := i.middle * unit % step
  match i.holds place below, i.holds place (below + 1) with
  | true, true => some ⟨if 2 * remainder < step then below else below + 1, place⟩
  | true, false => some ⟨below, place⟩
  | false, true => some ⟨below + 1, place⟩
  | false, false => none

/-- The point on the coarsest grid that has one.  No binary32 number reaches `10 ^ 39`, and the
grid of `10 ^ (-46)` is finer than every interval. -/
def shortest (i : Interval) : Decimal :=
  ((List.range 86).findSome? fun k => i.onGrid (39 - (k : Nat))).getD ⟨0, 0⟩

end Interval

/-- The shortest decimal that reads back as the magnitude of a finite number. -/
def shortest (x : Float32) : Decimal :=
  let p := parts x
  if p.mantissa = 0 then ⟨0, 0⟩ else p.interval.shortest

/-- How a number is written: which magnitudes have an exponent, and how many digits follow the
point at least. -/
structure NumberStyle where
  scientific : Float32 → Bool
  fraction : Nat

/-- Never an exponent, and no point after an integer. -/
def plain : NumberStyle where
  scientific _ := false
  fraction := 0

/-- An exponent for magnitudes below `10 ^ (-4)` or from `10 ^ 16` on, and at least one digit after
the point without one. -/
def detailed : NumberStyle where
  scientific x := decide (0 < x.abs ∧ x.abs < 1e-4 ∨ 1e16 ≤ x.abs)
  fraction := 1

namespace Decimal

/-- Digits, then a point at its place among them. -/
def positional (d : Decimal) (fraction : Nat) : String :=
  let zeros (n : Nat) : List Char := List.replicate n '0'
  let digits := (toString d.coefficient).toList
  let shown := digits ++ zeros d.exponent.toNat
  let behind := (-d.exponent).toNat
  let padded := zeros (behind + 1 - shown.length) ++ shown
  let whole := padded.take (padded.length - behind)
  let rest := padded.drop (padded.length - behind)
  let rest := rest ++ zeros (fraction - rest.length)
  String.ofList (if rest.isEmpty then whole else whole ++ '.' :: rest)

/-- One digit before the point, and the exponent of ten. -/
def scientific (d : Decimal) : String :=
  let digits := (toString d.coefficient).toList
  let power := toString (d.exponent + (digits.length : Int) - 1)
  let rest := digits.drop 1
  String.ofList (digits.take 1 ++ if rest.isEmpty then [] else '.' :: rest) ++ "e" ++ power

end Decimal

def NumberStyle.text (style : NumberStyle) (x : Float32) : String :=
  if x.isNaN then "NaN"
  else
    let sign := if (parts x).negative then "-" else ""
    if !x.isFinite then sign ++ "inf"
    else
      let d := shortest x
      sign ++ if style.scientific x then d.scientific else d.positional style.fraction

end Parterre.Binary32
