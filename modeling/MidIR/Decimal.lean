/-!
# Decimal text of floating-point numbers

The fewest decimal digits that read back as the same double. A double with significand `m` and
binary exponent `q` stands for the interval of numbers that round to it, which holds its ends exactly
when `m` is even. Of the grids of multiples of a power of ten the coarsest with a point in the
interval is taken, and on it the point nearest to `m * 2 ^ q`. The text is positional, never with an
exponent.
-/

namespace MidIR

structure Decimal where
  digits : Nat
  exponent : Int
  deriving DecidableEq, Repr

/-- Positional text: no exponent, no point in a whole number, a zero before a leading point. -/
def Decimal.text (d : Decimal) : String :=
  let digits := Nat.toDigits 10 d.digits
  let places := (-d.exponent).toNat
  if places = 0 then String.ofList (digits ++ List.replicate d.exponent.toNat '0')
  else
    let padded := List.replicate (places + 1 - digits.length) '0' ++ digits
    let whole := padded.length - places
    String.ofList (padded.take whole ++ '.' :: padded.drop whole)

namespace Double

/-- A finite double without its sign: the number `significand * 2 ^ exponent`. At a power of two the
next smaller double is only half as far away as the next larger one. -/
structure Finite where
  significand : Nat
  exponent : Int
  atPowerOfTwo : Bool
  deriving DecidableEq, Repr

/-- The points of the grid of multiples of `10 ^ k` next to a number, as far as they round to it: in
the order of preference, the nearer first and of two at the same distance the greater. -/
def Finite.onGrid (x : Finite) (k : Int) : List Decimal :=
  let quarter := x.exponent - 2
  let unit := Nat.pow 10 (-k).toNat <<< quarter.toNat
  let step := Nat.pow 10 k.toNat <<< (-quarter).toNat
  let value := 4 * x.significand * unit
  let low := (4 * x.significand - if x.atPowerOfTwo then 1 else 2) * unit
  let high := (4 * x.significand + 2) * unit
  let within (point : Nat) : Bool :=
    if x.significand % 2 = 0 then low ≤ point && point ≤ high else low < point && point < high
  let below := value / step
  let candidates :=
    if (below + 1) * step - value ≤ value - below * step then [below + 1, below]
    else [below, below + 1]
  (candidates.filter fun c => within (c * step)).map fun c => ⟨c, k⟩

/-- Searches the grids of `10 ^ k`, `10 ^ (k - 1)`, … for a point that rounds to the number. -/
def Finite.search (x : Finite) : Nat → Int → Option Decimal
  | 0, _ => none
  | grids + 1, k => (x.onGrid k).head? <|> x.search grids (k - 1)

/-- The shortest decimal of a double other than zero. No double reaches `10 ^ 309`, and each is a
multiple of `10 ^ (-1074)`. -/
def Finite.shortest (x : Finite) : Decimal :=
  (x.search 1384 309).getD ⟨x.significand, x.exponent⟩

def ofBits (bits : UInt64) : Bool × Nat × Nat :=
  let n := bits.toNat
  (n >>> 63 = 1, (n >>> 52) % 0x800, n % 0x10000000000000)

def text (bits : UInt64) : String :=
  let (negative, exponent, fraction) := ofBits bits
  let sign := if negative then "-" else ""
  if exponent = 2047 then
    if fraction = 0 then sign ++ "inf" else "NaN"
  else if exponent = 0 then
    if fraction = 0 then sign ++ "0" else sign ++ (Finite.shortest ⟨fraction, -1074, false⟩).text
  else
    let x : Finite := ⟨0x10000000000000 + fraction, exponent - 1075, fraction = 0 && 1 < exponent⟩
    sign ++ x.shortest.text

end Double

end MidIR
