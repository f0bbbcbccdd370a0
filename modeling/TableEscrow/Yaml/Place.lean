import TableEscrow.Text
/-!
# Places in a YAML text

The classes of characters the format tells apart, and where in its lines a reader stands.
-/

namespace TableEscrow.Yaml

structure Place where
  index : Nat
  line : Nat
  column : Nat

namespace Place

def start : Place := ⟨0, 0, 0⟩

/-- After a character that does not end its line. -/
def next (p : Place) : Place := { p with index := p.index + 1, column := p.column + 1 }

/-- After some characters that do not end their line. -/
def advance (p : Place) (n : Nat) : Place := { p with index := p.index + n, column := p.column + n }

/-- After a line break of `n` characters. -/
def newline (p : Place) (n : Nat) : Place := ⟨p.index + n, p.line + 1, 0⟩

end Place

def isBreak (c : Char) : Bool :=
  c = '\n' || c = '\r' || c = '\u0085' || c = '\u2028' || c = '\u2029'

def isBlank (c : Char) : Bool := c = ' ' || c = '\t'

/-- What follows is a blank, a line break or the end. -/
def atBlank : List Char → Bool
  | [] => true
  | c :: _ => isBlank c || isBreak c

/-- What follows is a line break or the end. -/
def atBreak : List Char → Bool
  | [] => true
  | c :: _ => isBreak c

/-- What a line break is read as. -/
def breakText (c : Char) : Char := if c = '\u2028' || c = '\u2029' then c else '\n'

/-- Letters, digits, `_` and `-`, which make names. -/
def isName (c : Char) : Bool :=
  Text.isDigit c || ('a' ≤ c && c ≤ 'z') || ('A' ≤ c && c ≤ 'Z') || c = '_' || c = '-'

/-- Characters a text may hold at all. -/
def isAllowed (c : Char) : Bool :=
  let n := c.toNat
  n = 9 || n = 10 || n = 13 || (0x20 ≤ n && n ≤ 0x7E) || n = 0x85 || (0xA0 ≤ n && n ≤ 0xD7FF) ||
    (0xE000 ≤ n && n ≤ 0xFFFD) || 0x10000 ≤ n

/-- Three dashes or dots and nothing else at the start of a line. -/
def atDocumentMark (p : Place) (cs : List Char) : Bool :=
  p.column = 0 &&
    match cs with
    | '-' :: '-' :: '-' :: rest => atBlank rest
    | '.' :: '.' :: '.' :: rest => atBlank rest
    | _ => false

def skipBlanks (p : Place) : List Char → Place × List Char
  | [] => (p, [])
  | c :: cs => if isBlank c then skipBlanks p.next cs else (p, c :: cs)

/-- Up to the end of the line. -/
def skipLine (p : Place) : List Char → Place × List Char
  | [] => (p, [])
  | c :: cs => if isBreak c then (p, c :: cs) else skipLine p.next cs

/-- Over a line break, if there is one. -/
def skipBreak (p : Place) : List Char → Place × List Char
  | '\r' :: '\n' :: cs => (p.newline 2, cs)
  | c :: cs => if isBreak c then (p.newline 1, cs) else (p, c :: cs)
  | [] => (p, [])

/-- Over blanks, a comment and the line break; none if anything else is on the line. -/
def endOfLine? (p : Place) (cs : List Char) : Option (Place × List Char) :=
  let (p, cs) := skipBlanks p cs
  let (p, cs) := if cs.head? = some '#' then skipLine p cs else (p, cs)
  if atBreak cs then some (skipBreak p cs) else none

end TableEscrow.Yaml
