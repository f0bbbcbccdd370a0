import TableEscrow.Text
/-!
# Event ids

An id is 128 bits. It is written as 32 lower-case hexadecimal digits with four hyphens, and read
in that form, without hyphens, in braces, or as a `urn:uuid:` name, in either case.
-/

namespace TableEscrow

structure Uuid where
  number : Nat
  bound : number < UInt64.size * UInt64.size
  deriving DecidableEq

namespace Uuid

def ofNat (n : Nat) : Uuid := ⟨n % (UInt64.size * UInt64.size), Nat.mod_lt _ (by decide)⟩

/-- The 32 digits, without hyphens. -/
def digits (u : Uuid) : List Char := Text.hexDigits 32 u.number

/-- Puts hyphens after digits 8, 12, 16 and 20. -/
def hyphenated (ds : List Char) : List Char :=
  ds.take 8 ++ '-' :: (ds.drop 8).take 4 ++ '-' :: (ds.drop 12).take 4 ++
    '-' :: (ds.drop 16).take 4 ++ '-' :: ds.drop 20

def render (u : Uuid) : String := String.ofList (hyphenated u.digits)

/-- The number 32 hexadecimal digits write. -/
def ofDigits? (ds : List Char) : Option Uuid :=
  if ds.length = 32 then
    match Text.natOfDigits? 16 ds with
    | some n => if h : n < UInt64.size * UInt64.size then some ⟨n, h⟩ else none
    | none => none
  else none

/-- The digits of a text with hyphens in the right places. -/
def unhyphenated? (cs : List Char) : Option (List Char) :=
  let ds := cs.filter (· ≠ '-')
  if hyphenated ds = cs then some ds else none

def ofHyphenated? (cs : List Char) : Option Uuid := (unhyphenated? cs).bind ofDigits?

def ofText? (s : String) : Option Uuid :=
  let cs := s.toList
  match cs.length with
  | 32 => ofDigits? cs
  | 36 => ofHyphenated? cs
  | 38 =>
    if cs.head? = some '\x7b' ∧ cs.getLast? = some '\x7d' then ofHyphenated? (cs.drop 1).dropLast
    else none
  | 45 => (Text.dropStart? "urn:uuid:".toList cs).bind ofHyphenated?
  | _ => none

end Uuid

end TableEscrow
