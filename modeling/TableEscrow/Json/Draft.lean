import TableEscrow.Json.Numeral
/-!
# Documents as they are read

A draft keeps what the text says and in which order: repeated members stay, and a place the text
cannot supply is marked. Whoever decodes a draft meets its faults in the order of the text, so a
wrong member found before the text breaks is told apart from broken text.

A value that is skipped need not be usable: only its form matters (`isCut`).
-/

namespace TableEscrow

inductive Draft where
  | null
  | bool (b : Bool)
  | number (n : Number)
  | string (s : String)
  | array (items : List Draft)
  /-- An object that is not `closed` ends where the text stops making sense. -/
  | object (members : List (String × Draft)) (closed : Bool)
  /-- Well formed, but no value: a number too large, half a surrogate pair, nested too deep. -/
  | unusable
  /-- The text stops making sense here. -/
  | broken
  deriving Inhabited

namespace Draft

mutual

/-- Whether the text breaks inside. -/
def isCut : Draft → Bool
  | .broken => true
  | .array items => isCutItems items
  | .object members closed => !closed || isCutMembers members
  | _ => false

def isCutItems : List Draft → Bool
  | [] => false
  | d :: rest => d.isCut || isCutItems rest

def isCutMembers : List (String × Draft) → Bool
  | [] => false
  | (_, d) :: rest => d.isCut || isCutMembers rest

end

mutual

/-- A value as a document. -/
def ofJson : Json → Draft
  | .null => .null
  | .bool b => .bool b
  | .number n => .number n
  | .string s => .string s
  | .array items => .array (ofItems items)
  | .object members => .object (ofMembers members) true

def ofItems : List Json → List Draft
  | [] => []
  | v :: rest => ofJson v :: ofItems rest

def ofMembers : List (String × Json) → List (String × Draft)
  | [] => []
  | (k, v) :: rest => (k, ofJson v) :: ofMembers rest

end

/-! ## Strings -/

def isSpace (c : Char) : Bool := c = ' ' || c = '\n' || c = '\t' || c = '\r'

def skip (cs : List Char) : List Char := cs.dropWhile isSpace

def hex4? (a b c d : Char) : Option Nat := Text.natOfDigits? 16 [a, b, c, d]

/-- The character a one-letter escape stands for. -/
def escaped? (c : Char) : Option Char :=
  if c = '"' || c = '\\' || c = '/' then some c
  else if c = 'b' then some (Char.ofNat 8)
  else if c = 'f' then some (Char.ofNat 12)
  else if c = 'n' then some '\n'
  else if c = 'r' then some '\r'
  else if c = 't' then some '\t'
  else none

/-- The rest of a string after its opening quote: its characters if they are all characters, and
what follows; none if the form is wrong. -/
def stringBody (acc : List Char) (usable : Bool) : List Char → Option (Draft × List Char)
  | [] => none
  | '"' :: rest => some (if usable then .string (String.ofList acc.reverse) else .unusable, rest)
  | '\\' :: 'u' :: a :: b :: c :: d :: '\\' :: 'u' :: e :: f :: g :: h :: rest =>
    match hex4? a b c d, hex4? e f g h with
    | some hi, some lo =>
      if 0xD800 ≤ hi && hi < 0xDC00 && 0xDC00 ≤ lo && lo < 0xE000 then
        stringBody (Char.ofNat (0x10000 + (hi - 0xD800) * 0x400 + (lo - 0xDC00)) :: acc) usable rest
      else if 0xD800 ≤ hi && hi < 0xE000 then
        stringBody acc false ('\\' :: 'u' :: e :: f :: g :: h :: rest)
      else stringBody (Char.ofNat hi :: acc) usable ('\\' :: 'u' :: e :: f :: g :: h :: rest)
    | _, _ => none
  | '\\' :: 'u' :: a :: b :: c :: d :: rest =>
    match hex4? a b c d with
    | some n =>
      if 0xD800 ≤ n && n < 0xE000 then stringBody acc false rest
      else stringBody (Char.ofNat n :: acc) usable rest
    | none => none
  | '\\' :: c :: rest =>
    match escaped? c with
    | some c => stringBody (c :: acc) usable rest
    | none => none
  | c :: rest => if c.toNat < 32 then none else stringBody (c :: acc) usable rest

/-! ## Values -/

def word? (w : List Char) (d : Draft) (cs : List Char) : Draft × Option (List Char) :=
  match Text.dropStart? w cs with
  | some rest => (d, some rest)
  | none => (.broken, none)

/-- What a container is worth when `room` more levels are allowed: too deep is unusable. -/
def bounded (room : Nat) (d : Draft) : Draft :=
  if room = 0 then (if d.isCut then .broken else .unusable) else d

mutual

/-- The value a text starts with and the rest of the text, none where the text breaks. -/
def value (fuel room : Nat) (cs : List Char) : Draft × Option (List Char) :=
  match fuel with
  | 0 => (.broken, none)
  | fuel + 1 =>
    match skip cs with
    | [] => (.broken, none)
    | 'n' :: rest => word? ['u', 'l', 'l'] .null rest
    | 't' :: rest => word? ['r', 'u', 'e'] (.bool true) rest
    | 'f' :: rest => word? ['a', 'l', 's', 'e'] (.bool false) rest
    | '"' :: rest =>
      match stringBody [] true rest with
      | some (d, rest) => (d, some rest)
      | none => (.broken, none)
    | '[' :: rest =>
      match skip rest with
      | ']' :: rest => (bounded room (.array []), some rest)
      | rest =>
        let (items, rest) := elements fuel (room - 1) rest
        (bounded room (.array items), rest)
    | '\x7b' :: rest =>
      match skip rest with
      | '\x7d' :: rest => (bounded room (.object [] true), some rest)
      | rest =>
        let (members, closed, rest) := entries fuel (room - 1) rest
        (bounded room (.object members closed), rest)
    | cs =>
      match Numeral.ofChars? cs with
      | some (n, rest) =>
        match n.value? with
        | some v => (.number v, some rest)
        | none => (.unusable, some rest)
      | none => (.broken, none)

/-- The items of an array up to its end. -/
def elements (fuel room : Nat) (cs : List Char) : List Draft × Option (List Char) :=
  match fuel with
  | 0 => ([.broken], none)
  | fuel + 1 =>
    match value fuel room cs with
    | (d, none) => ([d], none)
    | (d, some rest) =>
      match skip rest with
      | ']' :: rest => ([d], some rest)
      | ',' :: rest =>
        let (items, rest) := elements fuel room rest
        (d :: items, rest)
      | _ => ([d, .broken], none)

/-- The members of an object up to its end, and whether the end was found. -/
def entries (fuel room : Nat) (cs : List Char) : List (String × Draft) × Bool × Option (List Char) :=
  match fuel with
  | 0 => ([], false, none)
  | fuel + 1 =>
    match skip cs with
    | '"' :: rest =>
      match stringBody [] true rest with
      | some (.string key, rest) =>
        match skip rest with
        | ':' :: rest =>
          match value fuel room rest with
          | (d, none) => ([(key, d)], false, none)
          | (d, some rest) =>
            match skip rest with
            | '\x7d' :: rest => ([(key, d)], true, some rest)
            | ',' :: rest =>
              let (members, closed, rest) := entries fuel room rest
              ((key, d) :: members, closed, rest)
            | _ => ([(key, d)], false, none)
        | _ => ([(key, .broken)], false, none)
      | _ => ([], false, none)
    | _ => ([], false, none)

end

/-- Containers may be nested this deep. -/
def maxDepth : Nat := 127

/-- The document a text starts with; whatever follows it is left alone. -/
def ofStream (s : String) : Draft :=
  let cs := s.toList
  (value (2 * cs.length + 2) maxDepth cs).1

/-- The document that is the whole text. -/
def ofText (s : String) : Draft :=
  let cs := s.toList
  match value (2 * cs.length + 2) maxDepth cs with
  | (d, some rest) => if (skip rest).isEmpty then d else .broken
  | (_, none) => .broken

end Draft

end TableEscrow
