import TableEscrow.Yaml.Place
/-!
# Texts that flow over lines

Plain and quoted scalars. A single line break inside one is read as a space, and further ones are
kept; blanks beside a line break do not count.
-/

namespace TableEscrow.Yaml

/-- Blanks and line breaks whose meaning depends on what follows. -/
structure Gap where
  /-- Blanks before any line break, the last first. -/
  blanks : List Char
  /-- There was a line break, or an escaped one. -/
  broken : Bool
  /-- The first line break. -/
  first : Option Char
  /-- The others, the last first. -/
  more : List Char
  /-- Nothing but the gap has been read since it began. -/
  isOpen : Bool

namespace Gap

def closed : Gap := ⟨[], false, none, [], false⟩

/-- After an escaped line break. -/
def escaped : Gap := ⟨[], true, none, [], true⟩

def addBlank (c : Char) (g : Gap) : Gap :=
  { g with blanks := if g.broken then g.blanks else c :: g.blanks, isOpen := true }

def addBreak (c : Char) (g : Gap) : Gap :=
  if g.broken then { g with more := breakText c :: g.more, isOpen := true }
  else ⟨[], true, some (breakText c), [], true⟩

/-- What a gap is read as, the last character first. -/
def text (g : Gap) : List Char :=
  if g.broken then
    match g.first with
    | some '\n' => if g.more.isEmpty then [' '] else g.more
    | some c => g.more ++ [c]
    | none => g.more
  else g.blanks

end Gap

/-! ## Plain scalars -/

structure Plain where
  text : String
  /-- The scalar was followed by a line break. -/
  broken : Bool
  place : Place
  rest : List Char

/-- Ends a key, or in a flow collection an item. -/
def endsPlain (flow : Bool) (c : Char) (cs : List Char) : Bool :=
  (c = ':' && atBlank cs) || (flow && (c = ',' || c = '[' || c = ']' || c = '\x7b' || c = '\x7d'))

/-- A colon that neither ends a key nor is text. -/
def isStrayColon (flow : Bool) (c : Char) (cs : List Char) : Bool :=
  flow && c = ':' &&
    match cs.head? with
    | some d => d = ',' || d = '?' || d = '[' || d = ']' || d = '\x7b' || d = '\x7d'
    | none => false

/-- The rest of a plain scalar whose lines are indented by `indent` at least. -/
def plain? (flow : Bool) (indent : Int) (out : List Char) (gap : Gap) (p : Place) (cs : List Char) :
    Option Plain :=
  let done : Option Plain := some ⟨String.ofList out.reverse, gap.broken, p, cs⟩
  match cs with
  | [] => done
  | '\r' :: '\n' :: rest => plain? flow indent out (gap.addBreak '\n') (p.newline 2) rest
  | c :: rest =>
    if isBlank c then
      if gap.broken && c = '\t' && p.column < indent then none
      else plain? flow indent out (gap.addBlank c) p.next rest
    else if isBreak c then plain? flow indent out (gap.addBreak c) (p.newline 1) rest
    else if gap.isOpen &&
        ((!flow && p.column < indent) || atDocumentMark p (c :: rest) || c = '#') then done
    else if isStrayColon flow c rest then none
    else if endsPlain flow c rest then done
    else plain? flow indent (c :: (gap.text ++ out)) .closed p.next rest

/-! ## Quoted scalars -/

structure Quoted where
  text : String
  place : Place
  rest : List Char

def single? (out : List Char) (gap : Gap) (p : Place) : List Char → Option Quoted
  | [] => none
  | '\r' :: '\n' :: rest => single? out (gap.addBreak '\n') (p.newline 2) rest
  | '\'' :: '\'' :: rest => single? ('\'' :: (gap.text ++ out)) .closed (p.advance 2) rest
  | c :: rest =>
    if isBlank c then single? out (gap.addBlank c) p.next rest
    else if isBreak c then single? out (gap.addBreak c) (p.newline 1) rest
    else if gap.isOpen && atDocumentMark p (c :: rest) then none
    else if c = '\'' then some ⟨String.ofList (gap.text ++ out).reverse, p.next, rest⟩
    else single? (c :: (gap.text ++ out)) .closed p.next rest

/-- The character a one-letter escape stands for. -/
def escaped? (c : Char) : Option Char :=
  match c with
  | '0' => some (Char.ofNat 0)
  | 'a' => some (Char.ofNat 7)
  | 'b' => some (Char.ofNat 8)
  | 't' | '\t' => some '\t'
  | 'n' => some '\n'
  | 'v' => some (Char.ofNat 11)
  | 'f' => some (Char.ofNat 12)
  | 'r' => some '\r'
  | 'e' => some (Char.ofNat 27)
  | ' ' => some ' '
  | '"' => some '"'
  | '/' => some '/'
  | '\\' => some '\\'
  | 'N' => some '\u0085'
  | '_' => some '\u00A0'
  | 'L' => some '\u2028'
  | 'P' => some '\u2029'
  | _ => none

/-- The character with a number in hexadecimal. -/
def numbered? (ds : List Char) : Option Char :=
  match Text.natOfDigits? 16 ds with
  | some n => if n ≤ 0x10FFFF && !(0xD800 ≤ n && n ≤ 0xDFFF) then some (Char.ofNat n) else none
  | none => none

def double? (out : List Char) (gap : Gap) (p : Place) (cs : List Char) : Option Quoted :=
  if gap.isOpen && atDocumentMark p cs then none
  else
    match cs with
    | [] => none
    | '\\' :: '\r' :: '\n' :: rest => double? (gap.text ++ out) .escaped (p.next.newline 2) rest
    | '\\' :: 'x' :: a :: b :: rest =>
      match numbered? [a, b] with
      | some c => double? (c :: (gap.text ++ out)) .closed (p.advance 4) rest
      | none => none
    | '\\' :: 'u' :: a :: b :: c :: d :: rest =>
      match numbered? [a, b, c, d] with
      | some c => double? (c :: (gap.text ++ out)) .closed (p.advance 6) rest
      | none => none
    | '\\' :: 'U' :: a :: b :: c :: d :: e :: f :: g :: h :: rest =>
      match numbered? [a, b, c, d, e, f, g, h] with
      | some c => double? (c :: (gap.text ++ out)) .closed (p.advance 10) rest
      | none => none
    | '\\' :: c :: rest =>
      if isBreak c then double? (gap.text ++ out) .escaped (p.next.newline 1) rest
      else
        match escaped? c with
        | some c => double? (c :: (gap.text ++ out)) .closed (p.advance 2) rest
        | none => none
    | '\r' :: '\n' :: rest => double? out (gap.addBreak '\n') (p.newline 2) rest
    | c :: rest =>
      if isBlank c then double? out (gap.addBlank c) p.next rest
      else if isBreak c then double? out (gap.addBreak c) (p.newline 1) rest
      else if c = '"' then some ⟨String.ofList (gap.text ++ out).reverse, p.next, rest⟩
      else double? (c :: (gap.text ++ out)) .closed p.next rest

end TableEscrow.Yaml
