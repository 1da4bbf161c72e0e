/-!
# Binary floating point

The 64-bit binary numbers by value: a sign, a whole significand and a power of two. Every result is
the exact one rounded to the nearest such number, a tie going to the even significand. Nothing here
depends on the machine's own floating point, so each operation can be computed in a proof. Powers go
by name, because what `^` stands for depends on the algebra in scope.
-/

namespace LayeredConfig

/-- A finite number is `significand * 2 ^ exponent`; its significand fits in 53 bits, and all 53 are
used unless the exponent is the least one. Two numbers that are not numbers are the same only with
the same mark. -/
inductive Binary64 where
  | finite (negative : Bool) (significand : Nat) (exponent : Int)
  | infinite (negative : Bool)
  | nan (mark : Nat)
  deriving DecidableEq, Repr, Inhabited

namespace Binary64

def leastExponent : Int := -1074

def greatestExponent : Int := 971

def hiddenBit : Nat := Nat.pow 2 52

def zero (negative : Bool) : Binary64 := .finite negative 0 leastExponent

/-- The whole number nearest to `n / d`, the even one of two that are equally near. -/
def roundDiv (n d : Nat) : Nat :=
  let q := n / d
  let r := n % d
  if 2 * r < d || (2 * r == d && q % 2 == 0) then q else q + 1

/-- The fraction that `n / d` becomes in units of `2 ^ e`. -/
def inUnits (n d : Nat) (e : Int) : Nat × Nat :=
  if 0 ≤ e then (n, d * Nat.pow 2 e.toNat) else (n * Nat.pow 2 (-e).toNat, d)

/-- The number with this significand, which may have become one bit too long by rounding. -/
def ofSignificand (negative : Bool) (m : Nat) (e : Int) : Binary64 :=
  let (m, e) := if m = 2 * hiddenBit then (hiddenBit, e + 1) else (m, e)
  if greatestExponent < e then .infinite negative else .finite negative m e

def ofRatio (negative : Bool) (n d : Nat) : Binary64 :=
  if n = 0 then zero negative
  else
    let e := max ((n.log2 : Int) - d.log2 - 53) leastExponent
    let (n₁, d₁) := inUnits n d e
    let e := if 2 * hiddenBit ≤ n₁ / d₁ then e + 1 else e
    let (n₂, d₂) := inUnits n d e
    ofSignificand negative (roundDiv n₂ d₂) e

/-- The number nearest to `digits * 10 ^ power`. A power far outside the range is not computed. -/
def ofDecimal (negative : Bool) (digits : Nat) (power : Int) : Binary64 :=
  if digits = 0 then zero negative
  else
    let size : Int := (digits.log2 : Int) * 30103 / 100000
    if 400 < size + power then .infinite negative
    else if size + power < -400 then zero negative
    else if 0 ≤ power then ofRatio negative (digits * Nat.pow 10 power.toNat) 1
    else ofRatio negative digits (Nat.pow 10 (-power).toNat)

def ofInt (n : Int) : Binary64 :=
  ofRatio (n < 0) n.natAbs 1

def neg : Binary64 → Binary64
  | .finite s m e => .finite (!s) m e
  | .infinite s => .infinite (!s)
  | .nan mark => .nan mark

def signed (negative : Bool) (m : Nat) : Int :=
  if negative then -(m : Int) else m

/-- The whole number of units `2 ^ e`, for an `e` that is at most the number's own exponent. -/
def scaled (negative : Bool) (m : Nat) (from_ e : Int) : Int :=
  signed negative m * Int.pow 2 (from_ - e).toNat

def add : Binary64 → Binary64 → Binary64
  | .nan mark, _ => .nan mark
  | _, .nan mark => .nan mark
  | .infinite s, .infinite t => if s = t then .infinite s else .nan 0
  | .infinite s, _ => .infinite s
  | _, .infinite t => .infinite t
  | .finite s m e, .finite t n f =>
    let unit := min e f
    let sum := scaled s m e unit + scaled t n f unit
    if sum = 0 then zero (s && t)
    else if 0 ≤ unit then ofRatio (sum < 0) (sum.natAbs * Nat.pow 2 unit.toNat) 1
    else ofRatio (sum < 0) sum.natAbs (Nat.pow 2 (-unit).toNat)

def mul : Binary64 → Binary64 → Binary64
  | .nan mark, _ => .nan mark
  | _, .nan mark => .nan mark
  | .infinite s, .infinite t => .infinite (s != t)
  | .infinite s, .finite t n _ => if n = 0 then .nan 0 else .infinite (s != t)
  | .finite s m _, .infinite t => if m = 0 then .nan 0 else .infinite (s != t)
  | .finite s m e, .finite t n f =>
    let unit := e + f
    if 0 ≤ unit then ofRatio (s != t) (m * n * Nat.pow 2 unit.toNat) 1
    else ofRatio (s != t) (m * n) (Nat.pow 2 (-unit).toNat)

def toInt? : Binary64 → Option Int
  | .finite s m e =>
    if 0 ≤ e then some (signed s m * Int.pow 2 e.toNat)
    else
      let d := Nat.pow 2 (-e).toNat
      if m % d = 0 then some (signed s (m / d)) else none
  | _ => none

/-- Equality of values: the two zeros agree, and nothing equals what is not a number. -/
def equals : Binary64 → Binary64 → Bool
  | .nan _, _ => false
  | _, .nan _ => false
  | .finite s m e, .finite t n f => (m == 0 && n == 0) || (s == t && m == n && e == f)
  | a, b => a = b

end Binary64

end LayeredConfig
