import TableEscrow.Cli.Form
/-!
# Help

The text shown for a command: what it is about, how it is called, and its commands, operands and
flags in two columns.
-/

namespace TableEscrow.Cli

/-- Rows of two columns, the second starting two places behind the longest entry of the first. -/
def twoColumns (rows : List (String × String)) : String :=
  let width := (rows.map (·.1.length)).foldl max 0
  String.join (rows.map fun (entry, about) =>
    "  " ++ entry ++ String.ofList (List.replicate (width + 2 - entry.length) ' ') ++ about ++ "\n")

/-- A titled part of a text; one without rows is left out. -/
def titled (title : String) (rows : List (String × String)) : List String :=
  if rows.isEmpty then [] else [title ++ ":\n" ++ twoColumns rows]

namespace Flag

/-- A flag as it is called. -/
def call (f : Flag) : String := s!"--{f.name} <{f.value}>" ++ if f.isMany then "..." else ""

def row (f : Flag) : String × String :=
  let standard := match f.standard with
    | some s => s!"[default: {s}]"
    | none => ""
  ("    " ++ f.call, if f.about.isEmpty then standard else " ".intercalate ([f.about, standard].filter (!·.isEmpty)))

end Flag

namespace Operands

def call (o : Operands) : String := s!"<{o.value}>..."

end Operands

def helpRow : String × String := ("-h, --help", "Print help")

namespace Form

/-- How a command is called. -/
def usage (path : List String) : Form → String
  | .group _ _ _ => " ".intercalate (path ++ ["<COMMAND>"])
  | .leaf l =>
    let options := if l.flags.any (!·.isRequired) then ["[OPTIONS]"] else []
    let required := (l.flags.filter (·.isRequired)).map Flag.call
    " ".intercalate (path ++ options ++ required ++ (l.operands.map Operands.call).toList)

/-- The parts of the text of a command. -/
def parts (path : List String) (f : Form) : List String :=
  let about := if f.about.isEmpty then [] else [f.about ++ "\n"]
  let usage := ["Usage: " ++ f.usage path ++ "\n"]
  match f with
  | .group _ _ children =>
    about ++ usage ++
      titled "Commands" ((children.map fun c => (c.name, c.about)) ++ [("help", helpAbout)]) ++
      titled "Options" [helpRow]
  | .leaf l =>
    about ++ usage ++
      titled "Arguments" (l.operands.map fun o => (o.call, o.about)).toList ++
      titled "Options" (l.flags.map Flag.row ++ [helpRow])

/-- The text of the word `help` itself. -/
def helpOfHelp (path : List String) : String :=
  "\n".intercalate [helpAbout ++ "\n", "Usage: " ++ " ".intercalate path ++ " [COMMAND]...\n",
    String.join (titled "Arguments" [("[COMMAND]...", "Print help for the subcommand(s)")])]

/-- The text for the command at a path below this one, `called` being the path to this one. -/
def helpAlong (called : List String) (f : Form) : List String → String
  | [] => "\n".intercalate (f.parts called)
  | name :: rest =>
    match f.child? name with
    | some child => child.helpAlong (called ++ [name]) rest
    | none => helpOfHelp (called ++ [name])

/-- The text of the help on a path that begins with the program's own name. -/
def help (f : Form) (path : List String) : String := f.helpAlong [f.name] (path.drop 1)

end Form

end TableEscrow.Cli
