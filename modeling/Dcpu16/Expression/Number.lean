/-
Numbers of the expression language: integers of any size with two's complement bit operations,
and binary floating point with exact conversions. A finite float is `m · 2^q` with integers `m`
and `q`, and every conversion and comparison with integers goes through that form.
-/
namespace Dcpu16.Expression

/-! ## Bits of integers -/

/-- The integer with every bit flipped. -/
def bitNot (n : Int) : Int := -n - 1

/-- Bitwise and, a negative integer having infinitely many leading ones. -/
def bitAnd : Int → Int → Int
  | .ofNat m, .ofNat n => ((m &&& n : Nat) : Int)
  | .ofNat m, .negSucc n => ((m - (m &&& n) : Nat) : Int)
  | .negSucc m, .ofNat n => ((n - (n &&& m) : Nat) : Int)
  | .negSucc m, .negSucc n => .negSucc (m ||| n)

/-- Bitwise or. -/
def bitOr (m n : Int) : Int := bitNot (bitAnd (bitNot m) (bitNot n))

/-- Bitwise exclusive or. -/
def bitXor : Int → Int → Int
  | .ofNat m, .ofNat n => ((m ^^^ n : Nat) : Int)
  | .ofNat m, .negSucc n => .negSucc (m ^^^ n)
  | .negSucc m, .ofNat n => .negSucc (m ^^^ n)
  | .negSucc m, .negSucc n => ((m ^^^ n : Nat) : Int)

/-- A power of two. -/
def twoPow (k : Nat) : Nat := Nat.pow 2 k

/-- A power of ten. -/
def tenPow (k : Nat) : Nat := Nat.pow 10 k

/-- The integer with `k` zero bits added at the end. -/
def shiftLeft (n : Int) (k : Nat) : Int := n * twoPow k

/-- The integer without its last `k` bits. -/
def shiftRight (n : Int) (k : Nat) : Int := n >>> k

/-! ## Floats -/

/-- The integers `m` and `q` of a finite float `m · 2^q`. -/
def scaled? (x : Float) : Option (Int × Int) :=
  let bits := x.toBits.toNat
  let e := bits / twoPow 52 % 2048
  let f := bits % twoPow 52
  let m : Nat := if e = 0 then f else f + twoPow 52
  if e = 2047 then none
  else some (if bits / twoPow 63 = 1 then -m else m, (if e = 0 then 1 else e : Nat) - 1075)

/-- The quotient rounded to an integer, a tie to the even one. -/
def roundDiv (num den : Nat) : Nat :=
  let q := num / den
  let r := num % den
  if 2 * r < den then q else if den < 2 * r then q + 1 else q + q % 2

/-- The float nearest to a ratio, a tie to the even one; infinite beyond the largest. The exponent
is that of the binade of the ratio, at least that of the smallest float. -/
def ofRatio (num den : Nat) : Float :=
  if num = 0 then 0.0
  else
    let guess : Int := (num.log2 : Int) - den.log2
    let below := if 0 ≤ guess then num < den * twoPow guess.toNat else num * twoPow (-guess).toNat < den
    let e := max ((if below then guess - 1 else guess) - 52) (-1074)
    let m := if 0 ≤ e then roundDiv num (den * twoPow e.toNat) else roundDiv (num * twoPow (-e).toNat) den
    (Float.ofNat m).scaleB e

/-- The float nearest to an integer. -/
def floatOfInt : Int → Float
  | .ofNat n => ofRatio n 1
  | .negSucc n => -(ofRatio (n + 1) 1)

/-- The float nearest to an integer, unless that is infinite. -/
def finiteOfInt? (n : Int) : Option Float :=
  let x := floatOfInt n
  if x.isInf then none else some x

/-- The float nearest to `m · 10^e` where `m` has `digits` digits, unless that is infinite. -/
def floatOfDecimal? (m digits : Nat) (e : Int) : Option Float :=
  if m = 0 then some 0.0
  else if 310 < digits + e then none
  else if digits + e < -330 then some 0.0
  else
    let x := if 0 ≤ e then ofRatio (m * tenPow e.toNat) 1 else ofRatio m (tenPow (-e).toNat)
    if x.isInf then none else some x

/-- The integer part of a finite float. -/
def truncate? (x : Float) : Option Int :=
  (scaled? x).map fun (m, q) => if 0 ≤ q then m * twoPow q.toNat else Int.tdiv m (twoPow (-q).toNat)

/-- Compares two floats. They are totally ordered, with what is not a number above infinity. -/
def compareFloats (x y : Float) : Ordering :=
  if x < y then .lt
  else if y < x then .gt
  else if x == y then .eq
  else if x == x then .lt
  else if y == y then .gt
  else .eq

/-- Compares an integer with a float, exactly. -/
def compareIntFloat (n : Int) (x : Float) : Ordering :=
  match scaled? x with
  | some (m, q) =>
    if 0 ≤ q then compare n (m * twoPow q.toNat) else compare (n * twoPow (-q).toNat) m
  | none => if x < 0.0 then .gt else .lt

/-- The remainder of a division that goes toward zero; it is exact. -/
def truncatedMod (x y : Float) : Float :=
  match scaled? x, scaled? y with
  | some (m, p), some (n, q) =>
    let e := min p q
    let r := Int.tmod (m * twoPow (p - e).toNat) (n * twoPow (q - e).toNat)
    (floatOfInt r).scaleB e
  | some _, none => if y == y then x else y
  | none, _ => 0.0 / 0.0

/-- The remainder that has the sign of the divisor. -/
def flooredMod (x y : Float) : Float :=
  let z := truncatedMod x y
  if (x < 0.0) != (y < 0.0) && z != 0.0 then z + y else z

end Dcpu16.Expression
