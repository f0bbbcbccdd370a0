/-!
# Binary fractions of 64 bits

A number with a fraction or an exponent is a word of sign, exponent and significand. All of it is
exact arithmetic on naturals: a quotient is rounded to the nearest word (`ofRatio`, a tie going to
the even one), and a word is written with the fewest digits that round back to it (`shortest`).
-/

namespace TableEscrow

/-- A 64-bit binary floating-point word. -/
structure Binary64 where
  bits : UInt64
  deriving DecidableEq, Repr, Inhabited

namespace Binary64

def zero : Binary64 := ⟨0⟩

def tenTo (k : Nat) : Nat := Nat.pow 10 k

def negative (x : Binary64) : Bool := x.bits.toNat ≥ 1 <<< 63

def exponentField (x : Binary64) : Nat := x.bits.toNat / 1 <<< 52 % 2048

def fractionField (x : Binary64) : Nat := x.bits.toNat % 1 <<< 52

def isFinite (x : Binary64) : Bool := x.exponentField != 2047

/-- The significand `m` of the magnitude `m * 2 ^ (e - 1074)`. -/
def significand (x : Binary64) : Nat :=
  if x.exponentField = 0 then x.fractionField else 1 <<< 52 + x.fractionField

/-- The scale `e` of the magnitude `m * 2 ^ (e - 1074)`. -/
def scale (x : Binary64) : Nat := x.exponentField - 1

/-- The magnitude as a quotient. -/
def ratio (x : Binary64) : Nat × Nat :=
  if 1074 ≤ x.scale then (x.significand <<< (x.scale - 1074), 1)
  else (x.significand, 1 <<< (1074 - x.scale))

/-- The quotient to the nearest natural, a tie to the even one. -/
def roundQuotient (num den : Nat) : Nat :=
  let q := num / den
  let twice := 2 * (num % den)
  if twice < den then q else if den < twice then q + 1 else q + q % 2

/-- The word of magnitude `m * 2 ^ (e - 1074)` for `m ≤ 2 ^ 53`, infinite when it is too large. -/
def pack (isNegative : Bool) (m e : Nat) : Binary64 :=
  let magnitude :=
    if m < 1 <<< 52 then m
    else if e < 2046 then e <<< 52 + m
    else 2047 <<< 52
  ⟨UInt64.ofNat ((if isNegative then 1 <<< 63 else 0) + min magnitude (2047 <<< 52))⟩

/-- The word nearest to `num / den`. -/
def ofRatio (isNegative : Bool) (num den : Nat) : Binary64 :=
  let place : Int := (num.log2 : Int) - den.log2
  let scaled (e : Nat) : Nat × Nat :=
    if 1074 ≤ e then (num, den <<< (e - 1074)) else (num <<< (1074 - e), den)
  let e := (place - 53 + 1074).toNat
  let e := if (scaled e).1 / (scaled e).2 < 1 <<< 53 then e else e + 1
  pack isNegative (roundQuotient (scaled e).1 (scaled e).2) e

def ofNat (n : Nat) : Binary64 := ofRatio false n 1

def neg (x : Binary64) : Binary64 :=
  if x.negative then ⟨UInt64.ofNat (x.bits.toNat - 1 <<< 63)⟩
  else ⟨UInt64.ofNat (x.bits.toNat + 1 <<< 63)⟩

/-- The rounded product of two magnitudes. -/
def times (x y : Binary64) : Binary64 :=
  let (a, b) := x.ratio
  let (c, d) := y.ratio
  ofRatio false (a * c) (b * d)

/-- The rounded quotient of two magnitudes, the second not zero. -/
def dividedBy (x y : Binary64) : Binary64 :=
  let (a, b) := x.ratio
  let (c, d) := y.ratio
  ofRatio false (a * d) (b * c)

/-- The word nearest to `10 ^ k`. -/
def powerOfTen (k : Nat) : Binary64 := ofNat (tenTo k)

/-! ## From decimals -/

/-- The word nearest to `digits * 10 ^ exponent`. Exponents far outside the range of words are cut
short: the value is then zero or infinite already. -/
def ofDecimal (isNegative : Bool) (digits : Nat) (exponent : Int) : Binary64 :=
  if digits = 0 then ofRatio isNegative 0 1
  else
    let leading : Int := exponent + (toString digits).length
    if 400 < leading then pack isNegative (1 <<< 52) 2047
    else if leading < -400 then ofRatio isNegative 0 1
    else if 0 ≤ exponent then ofRatio isNegative (digits * tenTo exponent.toNat) 1
    else ofRatio isNegative digits (tenTo (-exponent).toNat)

/-- `f * 10 ^ exponent` by powers of ten up to `10 ^ 308`, each step rounded; none when it leaves the
range of finite words. At most three steps reach zero from the largest magnitude. -/
def scaleByTen? (f : Binary64) (exponent : Int) : Option Binary64 :=
  go 4 f exponent
where
  go : Nat → Binary64 → Int → Option Binary64
    | 0, f, _ => some f
    | steps + 1, f, exponent =>
      if exponent.natAbs ≤ 308 then
        if 0 ≤ exponent then
          let g := f.times (powerOfTen exponent.natAbs)
          if g.isFinite then some g else none
        else some (f.dividedBy (powerOfTen exponent.natAbs))
      else if f.significand = 0 then some f
      else if 0 ≤ exponent then none
      else go steps (f.dividedBy (powerOfTen 308)) (exponent + 308)

/-! ## To decimals -/

/-- Whether `d * 10 ^ k` rounds to `m * 2 ^ (e - 1074)`: it lies between the halfway points to the
neighbouring words, and on one of them only if `m` is even. -/
def roundsTo (m e : Nat) (d : Nat) (k : Int) : Bool :=
  -- all three magnitudes over a common denominator, four times over
  let two := fun (n : Nat) => if 1074 ≤ e then n <<< (e - 1074) else n
  let twoDen := if 1074 ≤ e then 1 else 1 <<< (1074 - e)
  let ten := if 0 ≤ k then d * tenTo k.toNat else d
  let tenDen := if 0 ≤ k then 1 else tenTo (-k).toNat
  let x := 4 * ten * twoDen
  let low := two (4 * m - (if m = 1 <<< 52 ∧ 0 < e then 1 else 2)) * tenDen
  let high := two (4 * m + 2) * tenDen
  if m % 2 = 0 then low ≤ x && x ≤ high else low < x && x < high

/-- The distance of `d * 10 ^ k` from the magnitude, over a denominator that depends on `k` only. -/
def gap (m e : Nat) (d : Nat) (k : Int) : Nat :=
  let two := if 1074 ≤ e then m <<< (e - 1074) else m
  let twoDen := if 1074 ≤ e then 1 else 1 <<< (1074 - e)
  let ten := if 0 ≤ k then d * tenTo k.toNat else d
  let tenDen := if 0 ≤ k then 1 else tenTo (-k).toNat
  let a := two * tenDen
  let b := ten * twoDen
  (a - b) + (b - a)

/-- The number of decimal digits before the point of a positive magnitude, not counting down from
zero: `10 ^ (n - 1) ≤ magnitude < 10 ^ n`. -/
def decimalPlace (num den : Nat) : Int :=
  let guess : Int := (((num.log2 : Int) - den.log2) * 30103) / 100000 - 1
  let below (n : Int) : Bool :=
    if 0 ≤ n then num < den * tenTo n.toNat else num * tenTo (-n).toNat < den
  (((List.range 4).map fun (i : Nat) => guess + i).find? below).getD (guess + 4)

/-- The fewest digits `d` and the exponent `k` with `d * 10 ^ k` rounding to the magnitude; of two
such decimals the nearer one. -/
def shortest (x : Binary64) : Nat × Int :=
  let m := x.significand
  let e := x.scale
  if m = 0 then (0, 0)
  else
    let (num, den) := x.ratio
    let place := decimalPlace num den
    let attempt (count : Nat) : Option (Nat × Int) :=
      let k := place - count
      let floor := if 0 ≤ k then num / (den * tenTo k.toNat) else num * tenTo (-k).toNat / den
      match roundsTo m e floor k, roundsTo m e (floor + 1) k with
      | true, true =>
        let a := gap m e floor k
        let b := gap m e (floor + 1) k
        if a < b || (a == b && floor % 2 == 0) then some (floor, k) else some (floor + 1, k)
      | true, false => some (floor, k)
      | false, true => some (floor + 1, k)
      | false, false => none
    match (List.range 17).findSome? (fun i => attempt (i + 1)) with
    | some (d, k) => stripZeros 17 d k
    | none => (m, 0)
where
  stripZeros : Nat → Nat → Int → Nat × Int
    | 0, d, k => (d, k)
    | fuel + 1, d, k => if d % 10 = 0 && d != 0 then stripZeros fuel (d / 10) (k + 1) else (d, k)

/-- The text of a finite word: its shortest digits, positional from `10 ^ -5` up to `10 ^ 16` and
with an exponent outside, always with a point or an exponent. -/
def render (x : Binary64) : String :=
  let (d, k) := x.shortest
  let sign := if x.negative then "-" else ""
  let digits := toString d
  let count := digits.length
  let point : Int := count + k
  let zeros (n : Nat) := String.ofList (List.replicate n '0')
  let cut (n : Nat) := (String.ofList (digits.toList.take n), String.ofList (digits.toList.drop n))
  sign ++
    if d = 0 then "0.0"
    else if 0 ≤ k && point ≤ 16 then digits ++ zeros k.toNat ++ ".0"
    else if 0 < point && point ≤ 16 then
      let (whole, fraction) := cut point.toNat
      whole ++ "." ++ fraction
    else if -5 < point && point ≤ 0 then "0." ++ zeros (-point).toNat ++ digits
    else
      let (whole, fraction) := cut 1
      let exponent := point - 1
      whole ++ (if count = 1 then "" else "." ++ fraction) ++ "e" ++
        (if exponent < 0 then toString exponent else "+" ++ toString exponent)

end Binary64

end TableEscrow
