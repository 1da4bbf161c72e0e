import LayeredConfig.Number.Binary64

/-!
# Shortest decimal text

A number is written with the fewest digits that read back as the same number; of several such
decimals the nearest to the number is taken. The choices that a format makes beyond the digits are
the fields of `FloatStyle`.
-/

namespace LayeredConfig.Binary64

def decimalLength (n : Nat) : Nat :=
  (Nat.toDigits 10 n).length

/-- `a * 2 ^ p` against `b * 10 ^ q`. -/
def comparePowers (a : Nat) (p : Int) (b : Nat) (q : Int) : Ordering :=
  compare (a * Nat.pow 2 p.toNat * Nat.pow 10 (-q).toNat)
    (b * Nat.pow 10 q.toNat * Nat.pow 2 (-p).toNat)

/-- The reals that round to a positive number, in units of `2 ^ unit`, with the number itself. -/
structure RoundingInterval where
  low : Nat
  mid : Nat
  high : Nat
  unit : Int
  closed : Bool

/-- A neighbour below a power of two is half as far away as the one above. -/
def roundingInterval (m : Nat) (e : Int) : RoundingInterval where
  low := if m = hiddenBit && leastExponent < e then 4 * m - 1 else 4 * m - 2
  mid := 4 * m
  high := 4 * m + 2
  unit := e - 2
  closed := m % 2 == 0

/-- `c * 10 ^ q` reads back as the number. -/
def RoundingInterval.holds (r : RoundingInterval) (c : Nat) (q : Int) : Bool :=
  let below := comparePowers r.low r.unit c q
  let above := comparePowers r.high r.unit c q
  (below == .lt || (r.closed && below == .eq)) && (above == .gt || (r.closed && above == .eq))

/-- The decimal exponent of the number: it is at least `10 ^ p` and less than `10 ^ (p + 1)`. -/
def RoundingInterval.magnitude (r : RoundingInterval) : Int :=
  let n := r.mid * Nat.pow 2 r.unit.toNat
  let d := Nat.pow 2 (-r.unit).toNat
  let k : Int := (decimalLength n : Int) - decimalLength d
  if comparePowers r.mid r.unit 1 k == .lt then k - 1 else k

/-- The nearest multiple of `10 ^ q` that reads back as the number, if one does. Of two that are
equally near the even one is taken. -/
def RoundingInterval.onGrid? (r : RoundingInterval) (q : Int) : Option Nat :=
  let n := r.mid * Nat.pow 2 r.unit.toNat * Nat.pow 10 (-q).toNat
  let d := Nat.pow 2 (-r.unit).toNat * Nat.pow 10 q.toNat
  let c := n / d
  let rest := n % d
  match r.holds c q, r.holds (c + 1) q with
  | true, true => some (if 2 * rest < d || (2 * rest == d && c % 2 == 0) then c else c + 1)
  | true, false => some c
  | false, true => some (c + 1)
  | false, false => none

/-- Tries one more digit each time. Seventeen digits always suffice. -/
def RoundingInterval.search (r : RoundingInterval) (magnitude : Int) : Nat → Nat × Int
  | 0 => (r.mid, r.unit)
  | left + 1 =>
    let q := magnitude - (16 - left)
    match r.onGrid? q with
    | some c => (c, q)
    | none => r.search magnitude left

/-- Moves factors of ten from the digits into the power. -/
def dropZeros : Nat → Nat → Int → Nat × Int
  | 0, c, q => (c, q)
  | fuel + 1, c, q => if c ≠ 0 && c % 10 = 0 then dropZeros fuel (c / 10) (q + 1) else (c, q)

def shortest (m : Nat) (e : Int) : Nat × Int :=
  if m = 0 then (0, 0)
  else
    let r := roundingInterval m e
    let (c, q) := r.search r.magnitude 17
    dropZeros 20 c q

end LayeredConfig.Binary64

namespace LayeredConfig

/-- What a format decides beyond the digits: the exponents written without one, the least number of
exponent digits, and the names of the values that have no digits. -/
structure FloatStyle where
  leastPlain : Int
  greatestPlain : Int
  exponentWidth : Nat
  infinity : String
  notANumber : String

/-- Plain from `1e-4` to below `1e16`, always with a point or an exponent, which has two digits at
least. -/
def FloatStyle.standard : FloatStyle where
  leastPlain := -4
  greatestPlain := 15
  exponentWidth := 2
  infinity := "inf"
  notANumber := "nan"

/-- Digits with a point among them, before them or, followed by a zero, behind them. -/
def FloatStyle.plain (digits : List Char) (power : Int) : List Char :=
  if 0 ≤ power then digits ++ List.replicate power.toNat '0' ++ ['.', '0']
  else
    let places := (-power).toNat
    if digits.length ≤ places then
      '0' :: '.' :: (List.replicate (places - digits.length) '0' ++ digits)
    else
      digits.take (digits.length - places) ++ '.' :: digits.drop (digits.length - places)

/-- One digit before the point, and the exponent with its sign. -/
def FloatStyle.scientific (style : FloatStyle) (digits : List Char) (exponent : Int) : List Char :=
  let shown := Nat.toDigits 10 exponent.natAbs
  let fraction := match digits.drop 1 with
    | [] => []
    | rest => '.' :: rest
  digits.take 1 ++ fraction ++ 'e' :: (if exponent < 0 then '-' else '+') ::
    (List.replicate (style.exponentWidth - shown.length) '0' ++ shown)

def FloatStyle.write (style : FloatStyle) : Binary64 → String
  | .nan _ => style.notANumber
  | .infinite negative => (if negative then "-" else "") ++ style.infinity
  | .finite negative m e =>
    let (c, q) := Binary64.shortest m e
    let digits := Nat.toDigits 10 c
    let exponent : Int := q + digits.length - 1
    let body :=
      if style.leastPlain ≤ exponent && exponent ≤ style.greatestPlain then
        FloatStyle.plain digits q
      else style.scientific digits exponent
    (if negative then "-" else "") ++ String.ofList body

def Binary64.text (x : Binary64) : String :=
  FloatStyle.standard.write x

end LayeredConfig
