import TableEscrow.Json.Basic
import TableEscrow.Text
/-!
# JSON numerals

A numeral as it is written, and its value: whole numerals that fit a word are exact. Every other
numeral is the leading digits that fit 64 bits, scaled by a power of ten.
-/

namespace TableEscrow

structure Numeral where
  negative : Bool
  whole : List Char
  fraction : Option (List Char)
  /-- Whether the exponent is negative, and its digits. -/
  exponent : Option (Bool × List Char)

namespace Numeral

/-- Splits the digits off a text. -/
def digits (cs : List Char) : List Char × List Char :=
  (cs.takeWhile Text.isDigit, cs.dropWhile Text.isDigit)

def fractionOf : List Char → Option (Option (List Char) × List Char)
  | '.' :: cs =>
    match digits cs with
    | ([], _) => none
    | (ds, rest) => some (some ds, rest)
  | cs => some (none, cs)

def exponentOf (cs : List Char) : Option (Option (Bool × List Char) × List Char) :=
  match cs with
  | c :: rest =>
    if c = 'e' || c = 'E' then
      let (isNegative, rest) :=
        match rest with
        | '+' :: rest => (false, rest)
        | '-' :: rest => (true, rest)
        | rest => (false, rest)
      match digits rest with
      | ([], _) => none
      | (ds, rest) => some (some (isNegative, ds), rest)
    else some (none, cs)
  | [] => some (none, [])

/-- The numeral a text starts with and the rest; none if its form is wrong. -/
def ofChars? (cs : List Char) : Option (Numeral × List Char) :=
  let (isNegative, cs) :=
    match cs with
    | '-' :: cs => (true, cs)
    | cs => (false, cs)
  match digits cs with
  | ([], _) => none
  | (whole, rest) =>
    if whole.head? = some '0' && whole.length != 1 then none
    else
      match fractionOf rest with
      | none => none
      | some (fraction, rest) =>
        match exponentOf rest with
        | none => none
        | some (exponent, rest) => some (⟨isNegative, whole, fraction, exponent⟩, rest)

/-- Takes digits into a 64-bit significand until one does not fit; gives the significand and the
digits left. -/
def gather (significand : Nat) : List Char → Nat × List Char
  | [] => (significand, [])
  | d :: ds =>
    let next := significand * 10 + (d.toNat - 48)
    if next < UInt64.size then gather next ds else (significand, d :: ds)

/-- The written exponent, or none beyond 31 bits. -/
def exponentValue? : Option (Bool × List Char) → Option Int
  | none => some 0
  | some (isNegative, ds) =>
    let n := Text.natOfDecimal ds
    if 2 * n < UInt32.size then some (if isNegative then -n else n) else none

/-- The value, or none when it is too large for a finite word. -/
def value? (n : Numeral) : Option Number :=
  let signed (x : Binary64) : Number := .real (if n.negative then x.neg else x)
  let (significand, left) := gather 0 n.whole
  match n.fraction, n.exponent, left with
  | none, none, [] =>
    if n.negative then
      if 0 < significand ∧ 2 * significand ≤ UInt64.size then
        some (.ofInt64 (Int64.ofInt (-significand)))
      else some (signed (Binary64.ofNat significand))
    else some (.natural (UInt64.ofNat significand))
  | _, _, _ =>
    let fraction := n.fraction.getD []
    let (significand, unused) := gather significand fraction
    let exponent : Int := left.length - (fraction.length - unused.length : Nat)
    match exponentValue? n.exponent with
    | some e => ((Binary64.ofNat significand).scaleByTen? (exponent + e)).map signed
    | none =>
      match n.exponent with
      | some (false, _) => if significand = 0 then some (signed .zero) else none
      | _ => some (signed .zero)

end Numeral

end TableEscrow
