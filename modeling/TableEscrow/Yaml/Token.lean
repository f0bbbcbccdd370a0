import TableEscrow.Yaml.BlockText
import TableEscrow.Yaml.FlowText
/-!
# YAML tokens

The tokens of a text. Indentation becomes tokens that open and close block collections, and a key
is marked once the colon after it is met: until then a token that could be one is remembered, and
the mark is put in front of it afterwards.
-/

namespace TableEscrow.Yaml

inductive Token where
  | version (major minor : Nat)
  | tagHandle (handle meaning : String)
  | documentStart
  | documentEnd
  | blockSequence
  | blockMapping
  | blockEnd
  | flowSequence
  | flowSequenceEnd
  | flowMapping
  | flowMappingEnd
  | blockEntry
  | flowEntry
  | key
  | value
  | alias (name : String)
  | anchor (name : String)
  | tag (handle suffix : String)
  | scalar (text : String) (plain : Bool)
  deriving DecidableEq

/-- A token that is a key if a colon follows. -/
structure KeyMark where
  /-- Nothing else can stand there. -/
  required : Bool
  /-- The number of the token. -/
  token : Nat
  place : Place

structure Scanner where
  place : Place
  rest : List Char
  tokens : Array Token
  indent : Int
  /-- The indentations around the current one. -/
  outer : List Int
  /-- A possible key for each flow collection that is open, the innermost first, and one for the
  block around them. -/
  keys : List (Option KeyMark)
  /-- A key may start here. -/
  keyAllowed : Bool

namespace Scanner

def start (cs : List Char) : Scanner := ⟨.start, cs, #[], -1, [], [none], true⟩

def inFlow (s : Scanner) : Bool := 1 < s.keys.length

def push (t : Token) (s : Scanner) : Scanner := { s with tokens := s.tokens.push t }

def moveTo (p : Place) (rest : List Char) (s : Scanner) : Scanner := { s with place := p, rest }

/-- Over characters of the current line. -/
def skip (n : Nat) (s : Scanner) : Scanner := s.moveTo (s.place.advance n) (s.rest.drop n)

def allowKey (allowed : Bool) (s : Scanner) : Scanner := { s with keyAllowed := allowed }

/-! ## Between tokens -/

/-- Over blanks, comments and line breaks. Tabs count as blanks where no key can start. -/
def gap (flow allowed comment : Bool) (p : Place) : List Char → Bool × Place × List Char
  | [] => (allowed, p, [])
  | '\r' :: '\n' :: cs => gap flow (allowed || !flow) false (p.newline 2) cs
  | c :: cs =>
    if isBreak c then gap flow (allowed || !flow) false (p.newline 1) cs
    else if comment || (c = '\uFEFF' && p.column = 0) || c = ' ' || (c = '\t' && (flow || !allowed)) then
      gap flow allowed comment p.next cs
    else if c = '#' then gap flow allowed true p.next cs
    else (allowed, p, c :: cs)

def toNextToken (s : Scanner) : Scanner :=
  let (allowed, p, rest) := gap s.inFlow s.keyAllowed false s.place s.rest
  { s with keyAllowed := allowed, place := p, rest }

/-! ## Keys -/

/-- A key stays on its line and within 1024 characters. -/
def isStale (p : Place) (k : KeyMark) : Bool := k.place.line < p.line || k.place.index + 1024 < p.index

/-- Forgets the keys that can be none any more; fails if one was required. -/
def dropStale? (s : Scanner) : Option Scanner :=
  let stale (k : Option KeyMark) : Bool := k.any (isStale s.place)
  if s.keys.any (fun k => stale k && k.any (·.required)) then none
  else some { s with keys := s.keys.map fun k => if stale k then none else k }

/-- Forgets the innermost key; fails if it was required. -/
def dropKey? (s : Scanner) : Option Scanner :=
  match s.keys with
  | some k :: outer => if k.required then none else some { s with keys := none :: outer }
  | _ => some s

/-- Remembers that the next token may be a key. -/
def saveKey? (s : Scanner) : Option Scanner :=
  if s.keyAllowed then do
    let s ← s.dropKey?
    let k : KeyMark := ⟨!s.inFlow && s.indent == s.place.column, s.tokens.size, s.place⟩
    return { s with keys := some k :: s.keys.tail }
  else some s

/-! ## Indentation -/

/-- Opens a block collection in front of token `index` if the column is further right than the
current indentation. -/
def openBlock (column : Nat) (index : Nat) (t : Token) (s : Scanner) : Scanner :=
  if !s.inFlow && s.indent < column then
    { s with indent := column, outer := s.indent :: s.outer, tokens := s.tokens.insertIdxIfInBounds index t }
  else s

/-- The indentations left once those right of a column are closed, and how many were. -/
def closed (column indent : Int) : List Int → Nat × Int × List Int
  | [] => if column < indent then (1, -1, []) else (0, indent, [])
  | next :: outer =>
    if column < indent then
      let (n, rest) := closed column next outer
      (n + 1, rest)
    else (0, indent, next :: outer)

/-- Closes the block collections right of a column. -/
def close (column : Int) (s : Scanner) : Scanner :=
  if s.inFlow then s
  else
    let (n, indent, outer) := closed column s.indent s.outer
    { s with indent, outer, tokens := s.tokens ++ Array.replicate n .blockEnd }

/-! ## Directives, anchors and tags -/

def number? (cs : List Char) : Option (Nat × List Char) :=
  let ds := cs.takeWhile Text.isDigit
  if ds.isEmpty || 9 < ds.length then none else some (Text.natOfDecimal ds, cs.drop ds.length)

/-- The name after an anchor's or alias's sign. -/
def name? (cs : List Char) : Option (String × List Char) :=
  let name := cs.takeWhile isName
  let rest := cs.drop name.length
  let ends := atBlank rest || rest.head?.any fun c =>
    c = '?' || c = ':' || c = ',' || c = ']' || c = '\x7d' || c = '%' || c = '@' || c = '\x60'
  if name.isEmpty || !ends then none else some (String.ofList name, rest)

def isTagChar (verbatim : Bool) (c : Char) : Bool :=
  isName c || ";/?:@&=+$.!~*'()%".toList.contains c ||
    (verbatim && (c = ',' || c = '[' || c = ']'))

def byteAt? : List Char → Option (Nat × List Char)
  | '%' :: a :: b :: rest => (Text.natOfDigits? 16 [a, b]).map (·, rest)
  | _ => none

/-- The character whose bytes are written as `%` and two hexadecimal digits each. -/
def escapedChar? (cs : List Char) : Option (Char × List Char) := do
  let (lead, cs) ← byteAt? cs
  let (width, bits) ←
    if lead < 0x80 then some (1, lead)
    else if 0xC0 ≤ lead && lead < 0xE0 then some (2, lead - 0xC0)
    else if 0xE0 ≤ lead && lead < 0xF0 then some (3, lead - 0xE0)
    else if 0xF0 ≤ lead && lead < 0xF8 then some (4, lead - 0xF0)
    else none
  let (n, cs) ← (List.range (width - 1)).foldlM (fun (n, cs) _ => do
    let (b, cs) ← byteAt? cs
    if 0x80 ≤ b && b < 0xC0 then some (n * 64 + (b - 0x80), cs) else none) (bits, cs)
  let least := if width = 1 then 0 else if width = 2 then 0x80 else if width = 3 then 0x800 else 0x10000
  if least ≤ n && n.isValidChar then some (Char.ofNat n, cs) else none

/-- The characters of a tag, as many as there are. -/
def tagText? (verbatim : Bool) (fuel : Nat) (cs : List Char) : Option (List Char × List Char) :=
  match fuel, cs with
  | fuel + 1, c :: rest =>
    if c = '%' then do
      let (d, rest) ← escapedChar? cs
      let (ds, rest) ← tagText? verbatim fuel rest
      return (d :: ds, rest)
    else if isTagChar verbatim c then do
      let (ds, rest) ← tagText? verbatim fuel rest
      return (c :: ds, rest)
    else some ([], cs)
  | _, _ => some ([], cs)

def nonemptyTag? (verbatim : Bool) (cs : List Char) : Option (List Char × List Char) := do
  let (text, rest) ← tagText? verbatim cs.length cs
  if text.isEmpty then none else some (text, rest)

/-- A handle: `!`, or a name between two of them; `!name` without the second is none yet. -/
def handle? : List Char → Option (List Char × List Char)
  | '!' :: cs =>
    let name := cs.takeWhile isName
    match cs.drop name.length with
    | '!' :: rest => some ('!' :: name ++ ['!'], rest)
    | rest => some ('!' :: name, rest)
  | _ => none

/-- A tag's handle and suffix. -/
def tag? (flow : Bool) (cs : List Char) : Option (Token × List Char) := do
  let (t, rest) ← match cs with
    | '!' :: '<' :: rest => do
      let (uri, rest) ← nonemptyTag? true rest
      match rest with
      | '>' :: rest => some (Token.tag "" (String.ofList uri), rest)
      | _ => none
    | _ => do
      let (handle, rest) ← handle? cs
      if 1 < handle.length && handle.getLast? = some '!' then
        let (suffix, rest) ← nonemptyTag? false rest
        return (Token.tag (String.ofList handle) (String.ofList suffix), rest)
      else
        let (more, rest) ← tagText? false rest.length rest
        let suffix := handle.drop 1 ++ more
        return (if suffix.isEmpty then .tag "" "!" else .tag "!" (String.ofList suffix), rest)
  if atBlank rest || (flow && rest.head? = some ',') then some (t, rest) else none

/-- The directive of a line, from after its sign. -/
def directive? (cs : List Char) : Option (Token × List Char) := do
  let name := cs.takeWhile isName
  let rest := cs.drop name.length
  if !atBlank rest then none
  else if name = "YAML".toList then
    let (major, rest) ← number? (rest.dropWhile isBlank)
    match rest with
    | '.' :: rest =>
      let (minor, rest) ← number? rest
      return (.version major minor, rest)
    | _ => none
  else if name = "TAG".toList then
    let (handle, rest) ← handle? (rest.dropWhile isBlank)
    if handle ≠ ['!'] && handle.getLast? ≠ some '!' then none
    else if !rest.head?.any isBlank then none
    else
      let (meaning, rest) ← nonemptyTag? true (rest.dropWhile isBlank)
      if atBlank rest then some (.tagHandle (String.ofList handle) (String.ofList meaning), rest) else none
  else none

/-! ## Fetching tokens -/

/-- Moves to a rest of the current line. -/
def resume (rest : List Char) (s : Scanner) : Scanner :=
  s.moveTo (s.place.advance (s.rest.length - rest.length)) rest

def fetchDirective? (s : Scanner) : Option Scanner := do
  let s ← (s.close (-1)).dropKey?
  let (t, rest) ← directive? (s.rest.drop 1)
  let s := (s.push t).resume rest
  let (p, rest) ← endOfLine? s.place s.rest
  return (s.allowKey false).moveTo p rest

def fetchDocumentMark? (t : Token) (s : Scanner) : Option Scanner := do
  let s ← (s.close (-1)).dropKey?
  return ((s.allowKey false).skip 3).push t

def fetchFlowStart? (t : Token) (s : Scanner) : Option Scanner := do
  let s ← s.saveKey?
  return (({ s with keys := none :: s.keys }.allowKey true).skip 1).push t

def fetchFlowEnd? (t : Token) (s : Scanner) : Option Scanner := do
  let s ← s.dropKey?
  let keys := if s.inFlow then s.keys.tail else s.keys
  return (({ s with keys }.allowKey false).skip 1).push t

def fetchFlowEntry? (s : Scanner) : Option Scanner := do
  let s ← s.dropKey?
  return ((s.allowKey true).skip 1).push .flowEntry

def fetchBlockEntry? (s : Scanner) : Option Scanner := do
  if !s.inFlow && !s.keyAllowed then none
  else
    let s ← (s.openBlock s.place.column s.tokens.size .blockSequence).dropKey?
    return ((s.allowKey true).skip 1).push .blockEntry

def fetchKey? (s : Scanner) : Option Scanner := do
  if !s.inFlow && !s.keyAllowed then none
  else
    let s ← (s.openBlock s.place.column s.tokens.size .blockMapping).dropKey?
    return ((s.allowKey !s.inFlow).skip 1).push .key

def fetchValue? (s : Scanner) : Option Scanner :=
  match s.keys with
  | some k :: outer =>
    let s := { s with keys := none :: outer, tokens := s.tokens.insertIdxIfInBounds k.token .key }
    let s := s.openBlock k.place.column k.token .blockMapping
    some (((s.allowKey false).skip 1).push .value)
  | _ =>
    if !s.inFlow && !s.keyAllowed then none
    else
      let s := s.openBlock s.place.column s.tokens.size .blockMapping
      some (((s.allowKey !s.inFlow).skip 1).push .value)

def fetchName? (t : String → Token) (s : Scanner) : Option Scanner := do
  let s ← s.saveKey?
  let (name, rest) ← name? (s.rest.drop 1)
  return ((s.allowKey false).push (t name)).resume rest

def fetchTag? (s : Scanner) : Option Scanner := do
  let s ← s.saveKey?
  let (t, rest) ← tag? s.inFlow s.rest
  return ((s.allowKey false).push t).resume rest

def fetchBlockText? (isLiteral : Bool) (s : Scanner) : Option Scanner := do
  let s ← s.dropKey?
  let b ← blockText? isLiteral s.indent s.place.next (s.rest.drop 1)
  return ((s.allowKey true).push (.scalar b.text false)).moveTo b.place b.rest

def fetchQuoted? (read : Place → List Char → Option Quoted) (s : Scanner) : Option Scanner := do
  let s ← s.saveKey?
  let q ← read s.place.next (s.rest.drop 1)
  return ((s.allowKey false).push (.scalar q.text false)).moveTo q.place q.rest

def fetchPlain? (s : Scanner) : Option Scanner := do
  let s ← s.saveKey?
  let t ← plain? s.inFlow (s.indent + 1) [] .closed s.place s.rest
  return ((s.allowKey t.broken).push (.scalar t.text true)).moveTo t.place t.rest

/-- Characters that no plain scalar starts with, unless `-`, `?` or `:` has text right behind it. -/
def startsPlain (flow : Bool) (c : Char) (rest : List Char) : Bool :=
  if c = '-' then !rest.head?.any isBlank
  else if c = '?' || c = ':' then !flow && !atBlank rest
  else !isBlank c && !",[]\x7b\x7d#&*!|>'\"%@".toList.contains c && c ≠ '\x60'

/-- Fetches the token at the current place. -/
def fetch? (s : Scanner) : Option Scanner :=
  match s.rest with
  | [] => none
  | c :: rest =>
    if c = '%' && s.place.column = 0 then s.fetchDirective?
    else if atDocumentMark s.place s.rest then
      s.fetchDocumentMark? (if c = '-' then .documentStart else .documentEnd)
    else if c = '[' then s.fetchFlowStart? .flowSequence
    else if c = '\x7b' then s.fetchFlowStart? .flowMapping
    else if c = ']' then s.fetchFlowEnd? .flowSequenceEnd
    else if c = '\x7d' then s.fetchFlowEnd? .flowMappingEnd
    else if c = ',' then s.fetchFlowEntry?
    else if c = '-' && atBlank rest then s.fetchBlockEntry?
    else if c = '?' && (s.inFlow || atBlank rest) then s.fetchKey?
    else if c = ':' && (s.inFlow || atBlank rest) then s.fetchValue?
    else if c = '*' then s.fetchName? .alias
    else if c = '&' then s.fetchName? .anchor
    else if c = '!' then s.fetchTag?
    else if c = '|' && !s.inFlow then s.fetchBlockText? true
    else if c = '>' && !s.inFlow then s.fetchBlockText? false
    else if c = '\'' then s.fetchQuoted? (single? [] .closed)
    else if c = '"' then s.fetchQuoted? (double? [] .closed)
    else if startsPlain s.inFlow c rest then s.fetchPlain?
    else none

/-- The tokens up to the end of the text. Every fetch moves on, so their number is bounded. -/
def run? (fuel : Nat) (s : Scanner) : Option (List Token) :=
  match fuel with
  | 0 => none
  | fuel + 1 => do
    let s ← s.toNextToken.dropStale?
    let s := s.close s.place.column
    if s.rest.isEmpty then return (← (s.close (-1)).dropKey?).tokens.toList
    else run? fuel (← s.fetch?)

end Scanner

/-- The tokens of a text; a byte order mark in front does not count. -/
def Token.ofText? (text : String) : Option (List Token) :=
  let cs := match text.toList with
    | '\uFEFF' :: cs => cs
    | cs => cs
  if cs.all isAllowed then (Scanner.start cs).run? (cs.length + 2) else none

end TableEscrow.Yaml
