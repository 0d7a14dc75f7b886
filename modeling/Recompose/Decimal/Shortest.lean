/-!
# Shortest decimals

Numbers are binary floating point with 53 significant bits. A number is
written with the fewest decimal digits that read back as the same number;
among those, the nearest. All arithmetic here is exact.
-/

namespace Recompose.Decimal

/-! ## Binary numbers -/

/-- The positive number `mantissa * 2 ^ exponent`. -/
structure Binary where
  mantissa : Nat
  exponent : Int
deriving DecidableEq, Repr

structure Ratio where
  num : Nat
  den : Nat
deriving Repr

namespace Ratio

/-- `num * base ^ e`, for an exponent of either sign. -/
def scaled (num base : Nat) (e : Int) : Ratio :=
  if e < 0 then ⟨num, Nat.pow base (-e).toNat⟩ else ⟨num * Nat.pow base e.toNat, 1⟩

/-- The nearest natural number; a tie goes to the even one. -/
def round (r : Ratio) : Nat :=
  let q := r.num / r.den
  let twice := 2 * (r.num % r.den)
  if twice < r.den then q
  else if twice > r.den then q + 1
  else if q % 2 = 0 then q else q + 1

def compare (r s : Ratio) : Ordering := Ord.compare (r.num * s.den) (s.num * r.den)

end Ratio

/-- The least exponent of a binary number. -/
def minExponent : Int := -1074

/-- The nearest binary number, or nothing for zero and for numbers that round
to zero; `none` in the inner option stands for infinity. -/
def Binary.nearest? (r : Ratio) : Option (Option Binary) :=
  if r.num = 0 then none
  else
    -- The number lies between 2 ^ (guess - 1) and 2 ^ (guess + 1).
    let guess : Int := (Nat.log2 r.num : Int) - (Nat.log2 r.den : Int)
    let scaleTo := fun (e : Int) =>
      if e < 0 then Ratio.round ⟨r.num * Nat.pow 2 (-e).toNat, r.den⟩
      else Ratio.round ⟨r.num, r.den * Nat.pow 2 e.toNat⟩
    let first := max (guess - 53) minExponent
    let m := scaleTo first
    -- One step up when the first choice of exponent left too many bits.
    let (m, e) :=
      if m ≥ Nat.pow 2 53 then
        let next := scaleTo (first + 1)
        if next ≥ Nat.pow 2 53 then (next / 2, first + 2) else (next, first + 1)
      else (m, first)
    if m = 0 then none
    else if e + (Nat.log2 m : Int) > 1023 then some none
    else some (some ⟨m, e⟩)

/-! ## Digits -/

/-- A positive decimal `digits * 10 ^ exponent`. -/
structure Digits where
  digits : Nat
  exponent : Int
deriving DecidableEq, Repr

/-- The bounds between which numbers round to `b`, doubled twice so that they
are whole: `(low, value, high)` in units of `2 ^ (exponent - 2)`. -/
def Binary.interval (b : Binary) : Nat × Nat × Nat :=
  let value := 4 * b.mantissa
  let narrow := b.mantissa = Nat.pow 2 52 ∧ b.exponent > minExponent
  (if narrow then value - 1 else value - 2, value, value + 2)

/-- The candidates with the given exponent: the two neighbours of the value
on that grid, nearest first, that read back as `b`. -/
def Binary.candidates (b : Binary) (e : Int) : List Digits :=
  let (low, value, high) := b.interval
  let exact := fun (n : Nat) => Ratio.scaled n 2 (b.exponent - 2)
  let v := exact value
  -- value / 10 ^ e
  let onGrid : Ratio :=
    if e < 0 then ⟨v.num * Nat.pow 10 (-e).toNat, v.den⟩ else ⟨v.num, v.den * Nat.pow 10 e.toNat⟩
  let below := onGrid.num / onGrid.den
  let inside := fun (d : Nat) =>
    let r := Ratio.scaled d 10 e
    let closed := b.mantissa % 2 = 0
    match (exact low).compare r, r.compare (exact high) with
    | .lt, .lt => true
    | .eq, .lt | .lt, .eq => closed
    | _, _ => false
  let twice := 2 * (onGrid.num % onGrid.den)
  let ordered :=
    if twice < onGrid.den || (twice = onGrid.den && below % 2 = 0) then [below, below + 1]
    else [below + 1, below]
  (ordered.filter fun d => d > 0 && inside d).map fun d => ⟨d, e⟩

/-- Searches grids from coarse to fine. -/
def Binary.search (b : Binary) (e : Int) : Nat → Option Digits
  | 0 => none
  | steps + 1 =>
    match b.candidates e with
    | d :: _ => some d
    | [] => b.search (e - 1) steps

/-- The fewest digits that read back as `b`. Eighteen grids are always
enough. -/
def Binary.shortest (b : Binary) : Digits :=
  let bits : Int := (Nat.log2 b.mantissa : Int) + b.exponent
  -- At least the decimal exponent of the leading digit.
  let top : Int := bits * 30103 / 100000 + 1
  (b.search top 20).getD ⟨0, 0⟩

/-! ## Text -/

/-- Digits without an exponent: zeros are filled in on either side of the
point. -/
def Digits.positional (d : Digits) : String :=
  let text := (Nat.toDigits 10 d.digits)
  if d.exponent ≥ 0 then
    String.ofList (text ++ List.replicate d.exponent.toNat '0')
  else
    let places := (-d.exponent).toNat
    if text.length > places then
      String.ofList (text.take (text.length - places) ++ '.' :: text.drop (text.length - places))
    else
      String.ofList ('0' :: '.' :: (List.replicate (places - text.length) '0' ++ text))

/-- The text of the binary number nearest to a non-negative rational, with
the fewest digits and no exponent. -/
def textOf (r : Ratio) : String :=
  match Binary.nearest? r with
  | none => "0"
  | some none => "inf"
  | some (some b) => b.shortest.positional

/-- The text of `digits * 10 ^ exponent`. Exponents that leave the range of
binary numbers are answered without computing powers. -/
def textOfDecimal (digits : Nat) (exponent : Int) : String :=
  if digits = 0 then "0"
  else
    let magnitude := exponent + ((Nat.toDigits 10 digits).length : Int)
    if magnitude > 400 then "inf"
    else if magnitude < -400 then "0"
    else textOf (Ratio.scaled digits 10 exponent)

end Recompose.Decimal
