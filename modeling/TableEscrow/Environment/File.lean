import TableEscrow.Environment.Secrets
/-!
# Files of variables

A file of `NAME=value` lines next to a configuration. Values may be quoted, hold escapes, go on
over several lines inside quotes, and name other variables behind a dollar sign. A variable that is
set already keeps its value, and a line that cannot be read ends the file.
-/

namespace TableEscrow.EnvFile

/-! ## Lines -/

/-- Where a line stands with respect to quotes. -/
inductive Place where
  | plain
  | afterBlank
  | escape
  | weak
  | weakEscape
  | strong
  | strongEscape
  deriving DecidableEq, Repr

namespace Place

/-- The place after a character outside quotes. -/
def opening (c : Char) : Place :=
  if c = '\\' then .escape else if c = '"' then .weak else if c = '\x27' then .strong else .plain

/-- The place after a character; none when a comment begins there. -/
def next? (p : Place) (c : Char) : Option Place :=
  match p with
  | .afterBlank => if c = '#' then none else some (opening c)
  | .plain => if Text.isBlank c && c != '\n' && c != '\r' then some .afterBlank else some (opening c)
  | .escape => some .plain
  | .weak => some (if c = '\\' then .weakEscape else if c = '"' then .plain else .weak)
  | .weakEscape => some .weak
  | .strong => some (if c = '\\' then .strongEscape else if c = '\x27' then .plain else .strong)
  | .strongEscape => some .strong

end Place

/-- A logical line: what stands before a comment, or the place where the text stops. -/
def ofPhysical (p : Place) : List Char → List Char × Option Place
  | [] => ([], some p)
  | c :: cs =>
    match p.next? c with
    | none => ([], none)
    | some p =>
      let (kept, place) := ofPhysical p cs
      (c :: kept, place)

/-- The lines of a text, each with its line break. -/
def physicalLines : List Char → List (List Char)
  | [] => []
  | c :: cs =>
    if c = '\n' then ['\n'] :: physicalLines cs
    else
      match physicalLines cs with
      | [] => [[c]]
      | l :: ls => (c :: l) :: ls

def withoutBreak (cs : List Char) : List Char :=
  match cs.reverse with
  | '\n' :: '\r' :: rest => rest.reverse
  | '\n' :: rest => rest.reverse
  | _ => cs

/-- The logical lines of a text; none stands for one that never ends. -/
def logicalLines (p : Place) (started : List Char) : List (List Char) → List (Option (List Char))
  | [] => if p = .plain then [] else [none]
  | l :: ls =>
    if (Text.trimStartList (started ++ l)).head? = some '#' then
      some [] :: logicalLines .plain [] ls
    else
      match ofPhysical p l with
      | (kept, none) => some (started ++ kept) :: logicalLines .plain [] ls
      | (kept, some .plain) => some (withoutBreak (started ++ kept)) :: logicalLines .plain [] ls
      | (kept, some p) => logicalLines p (started ++ kept) ls

/-! ## Values -/

/-- A name behind a dollar sign, as far as it has been read. -/
inductive Reference where
  | none
  | bare (name : List Char)
  | braced (name : List Char)
  deriving DecidableEq

structure Reading where
  place : Place
  reference : Reference
  /-- The value is over; only blanks and a comment may follow. -/
  isOver : Bool
  output : List Char
  deriving DecidableEq

namespace Reading

def start : Reading := ⟨.plain, .none, false, []⟩

def push (c : Char) (r : Reading) : Reading := { r with output := r.output ++ [c] }

/-- The value of a variable takes the place of its name. -/
def resolve (env : Environment) (name : List Char) (r : Reading) : Reading :=
  let value := (env.get? (String.ofList name)).getD ""
  { r with reference := .none, output := r.output ++ value.toList }

def isEscapable (c : Char) : Bool := c == '\\' || c == '\x27' || c == '"' || c == '$' || c == ' '

def escaped (back : Place) (c : Char) (r : Reading) : Option Reading :=
  let r := { r with place := back }
  if isEscapable c then some (r.push c) else if c = 'n' then some (r.push '\n') else none

/-- Takes a character outside references. -/
def takePlain (c : Char) (r : Reading) : Option Reading :=
  match r.place with
  | .escape => r.escaped .plain c
  | .weakEscape => r.escaped .weak c
  | .strong | .strongEscape => some (if c = '\x27' then { r with place := .plain } else r.push c)
  | .weak =>
    if c = '$' then some { r with reference := .bare [] }
    else if c = '"' then some { r with place := .plain }
    else if c = '\\' then some { r with place := .weakEscape }
    else some (r.push c)
  | .plain | .afterBlank =>
    if c = '$' then some { r with reference := .bare [] }
    else if c = '\x27' then some { r with place := .strong }
    else if c = '"' then some { r with place := .weak }
    else if c = '\\' then some { r with place := .escape }
    else if c = ' ' || c = '\t' then some { r with isOver := true }
    else some (r.push c)

/-- Takes a character of a value; none if it has no place there. -/
def take (env : Environment) (c : Char) (r : Reading) : Option Reading :=
  if r.isOver then if c = ' ' || c = '\t' then some r else none
  else
    match r.reference with
    | .none => r.takePlain c
    | .bare name =>
      if c.isAlphanum then some { r with reference := .bare (name ++ [c]) }
      else if c = '\x7b' && name.isEmpty then some { r with reference := .braced [] }
      else
        let r := r.resolve env name
        if c = '$' then some { r with reference := .bare [] } else some (r.push c)
    | .braced name =>
      if c = '\x7d' then some (r.resolve env name)
      else some { r with reference := .braced (name ++ [c]) }

/-- The value, once the text is over. -/
def finish (env : Environment) (r : Reading) : Option String :=
  match r.place, r.reference with
  | .weak, _ | .weakEscape, _ | .strong, _ | .strongEscape, _ => none
  | _, .braced _ => none
  | _, .bare name => some (String.ofList (r.resolve env name).output)
  | _, .none => some (String.ofList r.output)

/-- Reads a value to its end or to a comment behind it. -/
def run (env : Environment) : List Char → Reading → Option String
  | [], r => r.finish env
  | c :: cs, r =>
    if r.isOver && c = '#' then r.finish env
    else
      match r.take env c with
      | some r => run env cs r
      | none => none

end Reading

/-! ## Assignments -/

def name? (cs : List Char) : Option (List Char × List Char) :=
  let isNameChar (c : Char) : Bool := c.isAlphanum || c == '_' || c == '.'
  match cs with
  | c :: _ =>
    if c.isAlpha || c == '_' then some (cs.takeWhile isNameChar, cs.dropWhile isNameChar) else none
  | [] => none

/-- What follows an equals sign, after blanks. -/
def afterEquals? (cs : List Char) : Option (List Char) :=
  match Text.trimStartList cs with
  | '=' :: rest => some (Text.trimStartList rest)
  | _ => none

/-- The name and the text of the value of a line; the word `export` may stand in front. -/
def assignment? (cs : List Char) : Option (List Char × List Char) := do
  let (name, rest) ← name? cs
  match afterEquals? rest with
  | some value => some (name, value)
  | none =>
    if name = "export".toList then
      let (name, rest) ← name? (Text.trimStartList rest)
      (afterEquals? rest).map fun value => (name, value)
    else none

/-- The variable a line sets; nothing for a blank line or a comment. None if it cannot be read. -/
def ofLine? (env : Environment) (line : List Char) : Option (Option (String × String)) :=
  match Text.trimStartList line with
  | [] => some none
  | '#' :: _ => some none
  | cs => do
    let (name, value) ← assignment? cs
    let value ← if value.isEmpty || value.head? = some '#' then some "" else Reading.run env value .start
    some (some (String.ofList name, value))

/-- Sets the variables of lines, up to the first that cannot be read. -/
def apply (env : Environment) : List (Option (List Char)) → Environment
  | [] => env
  | none :: _ => env
  | some line :: rest =>
    match ofLine? env line with
    | none => env
    | some none => apply env rest
    | some (some (name, value)) =>
      apply (if env.contains name then env else env.insert name value) rest

/-- The environment with the variables of a file added to it. -/
def load (env : Environment) (text : String) : Environment :=
  apply env (logicalLines .plain [] (physicalLines text.toList))

end TableEscrow.EnvFile
