import TableEscrow.Json.Basic
import TableEscrow.Text
/-!
# Plain scalars

What an unquoted text means: nothing, a truth value, a whole number in one of four bases, a
fraction, or itself.
-/

namespace TableEscrow.Yaml.Scalar

/-- The value of a scalar; a whole number that fits no word is none. -/
inductive Meaning where
  | null
  | bool (b : Bool)
  | natural (n : UInt64)
  | negative (n : Int64)
  /-- A whole number that fits 128 bits but not 64. -/
  | wide
  | real (x : Binary64)
  | infinite
  | text

def isNull (s : String) : Bool := s = "null" || s = "Null" || s = "NULL" || s = "~"

def bool? (s : String) : Option Bool :=
  if s = "true" || s = "True" || s = "TRUE" then some true
  else if s = "false" || s = "False" || s = "FALSE" then some false
  else none

/-- Digits with a zero in front: a text and no number. -/
def isZeroPadded (cs : List Char) : Bool :=
  let body := match cs with
    | '-' :: rest | '+' :: rest => rest
    | cs => cs
  match body with
  | '0' :: d :: rest => (d :: rest).all Text.isDigit
  | _ => false

def startsSigned : List Char → Bool
  | '+' :: _ | '-' :: _ => true
  | _ => false

/-- The number after a base's sign, and whether a second sign follows it. -/
def based? (cs : List Char) : Option (Nat × List Char) :=
  match cs with
  | '0' :: 'x' :: rest => some (16, rest)
  | '0' :: 'o' :: rest => some (8, rest)
  | '0' :: 'b' :: rest => some (2, rest)
  | _ => none

/-- A whole number without a minus. -/
def natural? (cs : List Char) : Option Nat :=
  let body := match cs with
    | '+' :: rest => rest
    | cs => cs
  let decimal : Option Nat :=
    if startsSigned body || isZeroPadded cs then none else Text.natOfDigits? 10 body
  match based? body with
  | some (base, rest) => if startsSigned rest then none else Text.natOfDigits? base rest
  | none => decimal

/-- The magnitude of a whole number with a minus. -/
def negative? (cs : List Char) : Option Nat :=
  match cs with
  | '-' :: body =>
    match based? body with
    | some (base, rest) => Text.natOfDigits? base rest
    | none => if isZeroPadded cs then none else Text.natOfDigits? 10 body
  | _ => none

/-- A whole number, as the smallest word that holds it. -/
def integer? (cs : List Char) : Option Meaning :=
  match natural? cs with
  | some n =>
    if n < UInt64.size then some (.natural (.ofNat n))
    else if n < UInt64.size * UInt64.size then some .wide
    else none
  | none =>
    match negative? cs with
    | some n =>
      if 2 * n ≤ UInt64.size then some (.negative (.ofInt (-n)))
      else if 2 * n ≤ UInt64.size * UInt64.size then some .wide
      else none
    | none => none

/-- A decimal fraction: digits with a point somewhere or none, and an exponent or none. -/
def decimal? (cs : List Char) : Option Binary64 :=
  let (isNegative, cs) := match cs with
    | '-' :: rest => (true, rest)
    | '+' :: rest => (false, rest)
    | cs => (false, cs)
  let whole := cs.takeWhile Text.isDigit
  let rest := cs.drop whole.length
  let (fraction, rest) := match rest with
    | '.' :: rest => (rest.takeWhile Text.isDigit, rest.dropWhile Text.isDigit)
    | rest => ([], rest)
  if whole.isEmpty && fraction.isEmpty then none
  else
    let value (exponent : Int) : Option Binary64 :=
      some (.ofDecimal isNegative (Text.natOfDecimal (whole ++ fraction)) (exponent - fraction.length))
    match rest with
    | [] => value 0
    | c :: rest =>
      if c = 'e' || c = 'E' then
        let (below, ds) := match rest with
          | '-' :: ds => (true, ds)
          | '+' :: ds => (false, ds)
          | ds => (false, ds)
        match Text.natOfDigits? 10 ds with
        | some n => value (if below then -n else n)
        | none => none
      else none

def real? (s : String) : Option Meaning :=
  let cs := s.toList
  let body := match cs with
    | '+' :: rest => rest
    | cs => cs
  if cs.head? = some '+' && startsSigned body then none
  else
    let word := String.ofList body
    if word = ".inf" || word = ".Inf" || word = ".INF" || s = "-.inf" || s = "-.Inf" || s = "-.INF" ||
        s = ".nan" || s = ".NaN" || s = ".NAN" then some .infinite
    else
      match decimal? body with
      | some x => if x.isFinite then some (.real x) else none
      | none => none

/-- What a plain scalar without a tag means. -/
def plain (s : String) : Meaning :=
  if s.isEmpty || isNull s then .null
  else
    match bool? s with
    | some b => .bool b
    | none =>
      match integer? s.toList with
      | some m => m
      | none => if isZeroPadded s.toList then .text else (real? s).getD .text

/-- What a scalar with a tag means; none where the tag does not fit or is not known. -/
def tagged? (tag s : String) : Option Meaning :=
  if Text.startsWith "!" tag then none
  else if tag = "tag:yaml.org,2002:bool" then (bool? s).map .bool
  else if tag = "tag:yaml.org,2002:int" then integer? s.toList
  else if tag = "tag:yaml.org,2002:float" then real? s
  else if tag = "tag:yaml.org,2002:null" then if isNull s then some .null else none
  else some .text

/-- The value of a scalar; none for a number too wide. Infinite numbers have no value. -/
def value? (tag : Option String) (isPlain : Bool) (s : String) : Option Json := do
  let meaning ← match tag with
    | some tag => tagged? tag s
    | none => some (if isPlain then plain s else .text)
  match meaning with
  | .null => some .null
  | .bool b => some (.bool b)
  | .natural n => some (.natural n)
  | .negative n => some (.integer n)
  | .wide => none
  | .real x => some (.number (.real x))
  | .infinite => some .null
  | .text => some (.string s)

end TableEscrow.Yaml.Scalar
