import TableEscrow.Text
/-!
# Command lines

A command line names a command, and gives it flags and operands. A `Form` describes the commands of
a program. Reading a line against it gives the command and what it was given, or says that the line
is wrong, or asks for help.
-/

namespace TableEscrow.Cli

/-- A flag with a value: `--name value` or `--name=value`. -/
structure Flag where
  name : String
  /-- What a value is called. -/
  value : String
  about : String
  /-- Takes one or more values, and may be given again. -/
  isMany : Bool
  isRequired : Bool
  standard : Option String
  accepts : String → Bool

/-- What stands on a line besides flags; at least one is wanted. -/
structure Operands where
  value : String
  about : String

structure Leaf where
  name : String
  about : String
  flags : List Flag
  operands : Option Operands

inductive Form where
  | leaf (l : Leaf)
  | group (name about : String) (children : List Form)

namespace Form

def name : Form → String
  | .leaf l => l.name
  | .group name _ _ => name

def about : Form → String
  | .leaf l => l.about
  | .group _ about _ => about

def children : Form → List Form
  | .leaf _ => []
  | .group _ _ children => children

def child? (f : Form) (name : String) : Option Form := f.children.find? (·.name == name)

end Form

/-- What a command was given. -/
structure Given where
  /-- The values of each flag, in the order of the line. -/
  flags : List (String × List String)
  operands : List String
  deriving DecidableEq

/-- Why a line names no command to run. -/
inductive Refusal where
  /-- Help is asked for, on the command at a path. -/
  | help (path : List String)
  | wrong
  deriving DecidableEq

namespace Given

def empty : Given := ⟨[], []⟩

/-- All values of a flag. -/
def values (g : Given) (flag : String) : List String :=
  (g.flags.filter (·.1 = flag)).flatMap (·.2)

def value? (g : Given) (flag : String) : Option String := (g.values flag).head?

/-- Adds a flag with its values. A flag that is not given enough or too often is wrong. -/
def add (f : Flag) (values : List String) (g : Given) : Except Refusal Given :=
  if values.isEmpty || !values.all f.accepts || (!f.isMany && g.flags.any (·.1 = f.name)) then
    .error .wrong
  else .ok { g with flags := g.flags ++ [(f.name, values)] }

end Given

namespace Leaf

def flag? (l : Leaf) (name : String) : Option Flag := l.flags.find? (·.name == name)

def takeOperand (l : Leaf) (operand : String) (g : Given) : Except Refusal Given :=
  if l.operands.isSome then .ok { g with operands := g.operands ++ [operand] } else .error .wrong

/-- Nothing that is wanted is missing. -/
def complete (l : Leaf) (g : Given) : Except Refusal Given :=
  if l.flags.any (fun f => f.isRequired && (g.value? f.name).isNone) ||
      (l.operands.isSome && g.operands.isEmpty) then
    .error .wrong
  else .ok g

/-- The flag whose values are being read, with those read so far. -/
abbrev Open := Option (Flag × List String)

def close (o : Open) (g : Given) : Except Refusal Given :=
  match o with
  | some (f, values) => g.add f values
  | none => .ok g

/-- A word that begins with two hyphens. -/
def takeLong (l : Leaf) (path : List String) (word : List Char) (g : Given) : Except Refusal (Open × Given) :=
  let (name, value) := Text.cutAt '=' word
  match String.ofList name, l.flag? (String.ofList name), value with
  | "help", _, none => .error (.help path)
  | _, some f, some value => (g.add f [String.ofList value]).map fun g => (none, g)
  | _, some f, none => .ok (some (f, []), g)
  | _, none, _ => .error .wrong

/-- A word that begins with no hyphen, or is one. -/
def takeWord (l : Leaf) (word : String) (o : Open) (g : Given) : Except Refusal (Open × Given) :=
  match o with
  | some (f, values) =>
    if f.isMany then .ok (some (f, values ++ [word]), g)
    else (g.add f [word]).map fun g => (none, g)
  | none => (l.takeOperand word g).map fun g => (none, g)

/-- Reads the words behind a command. Behind two hyphens alone, every word is an operand. -/
def read (l : Leaf) (path : List String) (onlyOperands : Bool) (o : Open) (g : Given) :
    List String → Except Refusal Given
  | [] => do l.complete (← close o g)
  | word :: rest =>
    if onlyOperands then do
      let g ← l.takeOperand word g
      l.read path true o g rest
    else
      match word.toList with
      | ['-', '-'] => l.read path true o g rest
      | '-' :: '-' :: cs => do
        let g ← close o g
        let (o, g) ← l.takeLong path cs g
        l.read path false o g rest
      | '-' :: 'h' :: _ => do
        let _ ← close o g
        .error (.help path)
      | '-' :: _ :: _ => .error .wrong
      | _ => do
        let (o, g) ← l.takeWord word o g
        l.read path false o g rest

end Leaf

namespace Form

/-- What the word `help` is said to do. -/
def helpAbout : String := "Print this message or the help of the given subcommand(s)"

/-- The help asked for with the word `help` and the names behind it. -/
def readHelp (f : Form) (path : List String) : List String → Refusal
  | [] => .help path
  | name :: rest =>
    match f, f.child? name with
    | _, some child => child.readHelp (path ++ [name]) rest
    | .group _ _ _, none => if name = "help" && rest.isEmpty then .help (path ++ [name]) else .wrong
    | .leaf _, none => .wrong

/-- Reads the words of a line: the path of the command and what it was given. -/
def read (f : Form) (path : List String) (words : List String) :
    Except Refusal (List String × Given) :=
  match f, words with
  | .leaf l, words => (l.read path false none .empty words).map fun g => (path, g)
  | .group _ _ _, [] => .error .wrong
  | .group name about children, word :: rest =>
    match (Form.group name about children).child? word with
    | some child => child.read (path ++ [word]) rest
    | none =>
      if word = "help" then .error ((Form.group name about children).readHelp path rest)
      else if word = "--help" || Text.startsWith "-h" word then .error (.help path)
      else .error .wrong
termination_by words.length

end Form

end TableEscrow.Cli
