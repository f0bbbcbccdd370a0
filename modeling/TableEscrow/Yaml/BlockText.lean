import TableEscrow.Yaml.Place
/-!
# Block scalars

Literal and folded texts, whose extent is their indentation. The header may say how much that is
and what becomes of the line breaks at the end.
-/

namespace TableEscrow.Yaml

/-- What becomes of the line breaks at the end of a block scalar. -/
inductive Chomping where
  | strip
  | clip
  | keep

structure BlockHeader where
  chomping : Chomping
  /-- The indentation beyond that of the parent, when it is given. -/
  increment : Option Nat

/-- Reads the signs after the indicator; none for an indentation of zero. -/
def blockHeader? (p : Place) (cs : List Char) : Option (BlockHeader × Place × List Char) :=
  let chomping? (c : Char) : Option Chomping :=
    if c = '+' then some .keep else if c = '-' then some .strip else none
  let increment? (c : Char) : Option Nat := if Text.isDigit c then some (c.toNat - 48) else none
  let checked (h : BlockHeader) (n : Nat) : Option (BlockHeader × Place × List Char) :=
    if h.increment = some 0 then none else some (h, p.advance n, cs.drop n)
  match cs with
  | [] => some (⟨.clip, none⟩, p, cs)
  | c :: rest =>
    match chomping? c, increment? c with
    | some chomping, _ =>
      match rest.head?.bind increment? with
      | some n => checked ⟨chomping, some n⟩ 2
      | none => checked ⟨chomping, none⟩ 1
    | none, some n =>
      match rest.head?.bind chomping? with
      | some chomping => checked ⟨chomping, some n⟩ 2
      | none => checked ⟨.clip, some n⟩ 1
    | none, none => some (⟨.clip, none⟩, p, cs)

structure BlockBreaks where
  /-- The line breaks passed over, the last first. -/
  breaks : List Char
  /-- The widest indentation met. -/
  widest : Nat
  place : Place
  rest : List Char

/-- Passes over empty lines and the indentation of the next line; `indent` is 0 while it is not
known. -/
def blockBreaks? (indent : Nat) (breaks : List Char) (widest : Nat) (p : Place) :
    List Char → Option BlockBreaks
  | [] => some ⟨breaks, max widest p.column, p, []⟩
  | '\r' :: '\n' :: cs => blockBreaks? indent ('\n' :: breaks) (max widest p.column) (p.newline 2) cs
  | c :: cs =>
    if (indent = 0 || p.column < indent) && c = ' ' then blockBreaks? indent breaks widest p.next cs
    else if (indent = 0 || p.column < indent) && c = '\t' then none
    else if isBreak c then
      blockBreaks? indent (breakText c :: breaks) (max widest p.column) (p.newline 1) cs
    else some ⟨breaks, max widest p.column, p, c :: cs⟩

/-- The line break at the end of a line, if there is one. -/
def lineBreak (p : Place) : List Char → List Char × Place × List Char
  | '\r' :: '\n' :: cs => (['\n'], p.newline 2, cs)
  | c :: cs => if isBreak c then ([breakText c], p.newline 1, cs) else ([], p, c :: cs)
  | [] => ([], p, [])

structure BlockText where
  text : String
  place : Place
  rest : List Char

/-- Reads lines while they are indented by `indent`. `out` is what has been read, the last first;
`ending` is the break after the last line and `breaks` are those of the empty lines since. -/
def blockLines? (isLiteral : Bool) (chomping : Chomping) (indent : Nat) (fuel : Nat) (out ending : List Char)
    (wasBlank : Bool) (here : BlockBreaks) : Option BlockText :=
  let finish : Option BlockText :=
    let tail := match chomping with
      | .strip => []
      | .clip => ending
      | .keep => here.breaks ++ ending
    some ⟨String.ofList (tail ++ out).reverse, here.place, here.rest⟩
  match fuel, here.rest with
  | fuel + 1, c :: _ =>
    if here.place.column = indent then
      let isBlankLine := isBlank c
      let folds := !isLiteral && ending = ['\n'] && !wasBlank && !isBlankLine
      let joint := if folds then (if here.breaks.isEmpty then [' '] else []) else ending
      let line := here.rest.takeWhile (!isBreak ·)
      let (ending, p, rest) := lineBreak (here.place.advance line.length) (here.rest.drop line.length)
      match blockBreaks? indent [] 0 p rest with
      | some following =>
        blockLines? isLiteral chomping indent fuel (line.reverse ++ here.breaks ++ joint ++ out) ending
          isBlankLine following
      | none => none
    else finish
  | _, _ => finish

/-- A block scalar below a node indented by `parent`, from after its indicator. -/
def blockText? (isLiteral : Bool) (parent : Int) (p : Place) (cs : List Char) : Option BlockText := do
  let (header, p, cs) ← blockHeader? p cs
  let (p, cs) ← endOfLine? p cs
  let given : Nat :=
    match header.increment with
    | some n => (max parent 0 + n).toNat
    | none => 0
  let first ← blockBreaks? given [] 0 p cs
  let indent := if given = 0 then max (max first.widest (parent + 1).toNat) 1 else given
  blockLines? isLiteral header.chomping indent (first.rest.length + 1) [] [] false first

end TableEscrow.Yaml
