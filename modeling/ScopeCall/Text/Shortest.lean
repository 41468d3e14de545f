/-!
# `ScopeCall.Text.Shortest` — decimal text of floats

A float is written with the fewest decimal digits that read back as the same float; of several such
numbers, the one nearest to the float, and the larger one of two equally near.

## Contents
- **Decoding.** `Binary64.ofBits` takes the bits apart.
- **Digits.** `shortest`: for each number of digits in turn, the two neighbours of the float on that
  decimal grid are tested against the interval of numbers that read back as the float. All arithmetic
  is exact.
- **Notation.** `Notation` says when the digits are written with an exponent.
-/

namespace ScopeCall.Text

/-! ## Decoding -/

/-- A float taken apart: a finite one is `mantissa * 2 ^ exponent`. -/
inductive Binary64 where
  | nan
  | infinite (negative : Bool)
  | finite (negative : Bool) (mantissa : Nat) (exponent : Int)
deriving DecidableEq, Repr

namespace Binary64

/-- Sign, eleven bits of exponent, fifty-two bits of fraction. -/
def ofBits (bits : UInt64) : Binary64 :=
  let n := bits.toNat
  let negative := n >>> 63 = 1
  let field := (n >>> 52) % (1 <<< 11)
  let fraction := n % (1 <<< 52)
  if field = (1 <<< 11) - 1 then (if fraction = 0 then .infinite negative else .nan)
  else if field = 0 then .finite negative fraction (-1074)
  else .finite negative ((1 <<< 52) + fraction) (Int.ofNat field - 1075)

end Binary64

/-! ## Digits -/

/-- Ten to the power `k`, for `k` not negative. -/
def tens (k : Int) : Nat := Nat.pow 10 k.toNat

/-- A positive decimal number: `0.digits * 10 ^ point`. -/
structure Decimal where
  digits : List Char
  point : Int
deriving DecidableEq, Repr

/-- The numbers that read back as a float, over a common denominator; all parts but the denominator
    are numerators. The ends belong to the interval iff `closed`. -/
structure Interval where
  value : Nat
  low : Nat
  high : Nat
  denominator : Nat
  closed : Bool

namespace Interval

/-- The interval of a positive float. Below a power of two the next float is half as far away. -/
def ofFloat (mantissa : Nat) (exponent : Int) : Interval :=
  let below := if mantissa = 1 <<< 52 && exponent > -1074 then 1 else 2
  let scale := 1 <<< exponent.toNat
  { value := 4 * mantissa * scale
    low := (4 * mantissa - below) * scale
    high := (4 * mantissa + 2) * scale
    denominator := 4 <<< (-exponent).toNat
    closed := mantissa % 2 = 0 }

/-- Whether `n * 10 ^ k` reads back as the float. -/
def admits (i : Interval) (n : Nat) (k : Int) : Bool :=
  let up := tens k
  let down := tens (-k)
  let x := n * up * i.denominator
  if i.closed then i.low * down ≤ x && x ≤ i.high * down
  else i.low * down < x && x < i.high * down

/-- The value divided by `10 ^ k`, rounded down. -/
def floorAt (i : Interval) (k : Int) : Nat :=
  i.value * tens (-k) / (i.denominator * tens k)

/-- Whether the value is at least halfway from `n * 10 ^ k` to the next number on the grid. -/
def nearerAbove (i : Interval) (n : Nat) (k : Int) : Bool :=
  (2 * n + 1) * tens k * i.denominator ≤ 2 * i.value * tens (-k)

/-- The position of the decimal point: the value is below `10 ^ point`, and not below a tenth of
    it. -/
def point (i : Interval) : Int :=
  let guess := Int.ofNat (Nat.toDigits 10 i.value).length
    - Int.ofNat (Nat.toDigits 10 i.denominator).length
  if i.floorAt guess = 0 then guess else guess + 1

/-- The number of `n` digits that reads back as the float and is nearest to it, if there is one. -/
def atLength (i : Interval) (n : Nat) : Option (Nat × Int) :=
  let k := i.point - Int.ofNat n
  let d := i.floorAt k
  match i.admits d k, i.admits (d + 1) k with
  | true,  true  => some (if i.nearerAbove d k then d + 1 else d, k)
  | true,  false => some (d, k)
  | false, true  => some (d + 1, k)
  | false, false => none

end Interval

/-- No float needs more digits than this. -/
def maxDigits : Nat := 17

/-- The shortest decimal number that reads back as a positive float. -/
def shortest (mantissa : Nat) (exponent : Int) : Decimal :=
  let i := Interval.ofFloat mantissa exponent
  let (n, k) := ((List.range maxDigits).findSome? fun n => i.atLength (n + 1)).getD
    (i.floorAt (i.point - Int.ofNat maxDigits), i.point - Int.ofNat maxDigits)
  let digits := Nat.toDigits 10 n
  { digits := (digits.reverse.dropWhile (· = '0')).reverse
    point := k + Int.ofNat digits.length }

/-! ## Notation -/

/-- When digits are written with an exponent: below `10 ^ fromPoint` and from `10 ^ toPoint` on. -/
structure Notation where
  fromPoint : Int
  toPoint : Int

/-- Positional from 0.0001 up to 10000000000000000. -/
def plain : Notation := ⟨-4, 16⟩

/-- Writes a positive number; a whole number in positional notation ends in `.0`. -/
def Decimal.render (style : Notation) (d : Decimal) : String :=
  if d.point ≤ style.fromPoint || style.toPoint < d.point then
    let fraction := d.digits.drop 1
    String.ofList (d.digits.take 1 ++ (if fraction.isEmpty then [] else '.' :: fraction))
      ++ "e" ++ toString (d.point - 1)
  else
    let whole := d.point.toNat
    let padded := List.replicate (-d.point).toNat '0' ++ d.digits
    let left := d.digits.take whole ++ List.replicate (whole - d.digits.length) '0'
    let right := if d.point ≤ 0 then padded else d.digits.drop whole
    String.ofList ((if left.isEmpty then ['0'] else left) ++ '.'
      :: (if right.isEmpty then ['0'] else right))

/-- The text of a float, given by its bits. -/
def float (bits : UInt64) : String :=
  match Binary64.ofBits bits with
  | .nan               => "NaN"
  | .infinite negative => if negative then "-inf" else "inf"
  | .finite negative mantissa exponent =>
    let magnitude := if mantissa = 0 then "0.0" else (shortest mantissa exponent).render plain
    if negative then "-" ++ magnitude else magnitude

end ScopeCall.Text
