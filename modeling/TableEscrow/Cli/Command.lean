import TableEscrow.Cli.Form
import TableEscrow.Word
/-!
# The operator's commands

What an operator can ask for on the command line of `tk`.
-/

namespace TableEscrow.Cli

inductive Command where
  | databaseStatus
  | databaseMigrate
  /-- The hash and the canonical text of layered configuration files. -/
  | configHash (paths : List String)
  /-- One pass over every table, now or at a given second. -/
  | scan (config : List String) (now : Option Int64)
  | reconcile (table : String) (config : List String) (now : Option Int64)
  /-- The newest events of a table. -/
  | outbox (table : String) (limit : Int64)
  deriving DecidableEq

namespace Command

/-- A whole number in decimal, with or without a sign. -/
def wholeNumber? (s : String) : Option Int64 :=
  let digits? (ds : List Char) : Option Int :=
    if ds.isEmpty || !ds.all Text.isDigit then none else some (Text.natOfDecimal ds)
  let n := match s.toList with
    | '-' :: ds => (digits? ds).map fun n => -n
    | '+' :: ds => digits? ds
    | ds => digits? ds
  n.bind Word.signed?

def isWholeNumber (s : String) : Bool := (wholeNumber? s).isSome

def anyText (_ : String) : Bool := true

def tableFlag (about : String) : Flag := ⟨"table", "TABLE", about, false, true, none, anyText⟩

def configFlag (about : String) : Flag := ⟨"config", "CONFIG_PATHS", about, true, false, none, anyText⟩

def nowFlag (about : String) : Flag := ⟨"now", "NOW", about, false, false, none, isWholeNumber⟩

def limitFlag : Flag := ⟨"limit", "LIMIT", "", false, false, some "20", isWholeNumber⟩

def form : Form :=
  .group "tk" "TableKeeper operator CLI"
    [.group "db" "Database commands"
        [.leaf ⟨"status", "", [], none⟩, .leaf ⟨"migrate", "Apply SQL migrations", [], none⟩],
      .leaf ⟨"config-hash", "Compute layered config hash + print canonical JSON", [],
        some ⟨"PATHS", "Paths in merge order (base -> env -> overrides...)"⟩⟩,
      .leaf ⟨"scan", "Run one reconciliation pass over every registered table and print the report",
        [configFlag "Config layers in merge order. Built-in defaults when omitted",
          nowFlag "Evaluate at this unix timestamp instead of the wall clock"], none⟩,
      .leaf ⟨"reconcile", "Reconcile a single table and print what was decided and published",
        [tableFlag "Table contract address", configFlag "", nowFlag ""], none⟩,
      .leaf ⟨"outbox", "Show the most recent control events enqueued for a table",
        [tableFlag "", limitFlag], none⟩]

/-- The number of a flag that was checked to be one. -/
def number? (g : Given) (flag : String) : Option Int64 := (g.value? flag).bind wholeNumber?

def ofGiven : List String → Given → Except Refusal Command
  | ["tk", "db", "status"], _ => .ok .databaseStatus
  | ["tk", "db", "migrate"], _ => .ok .databaseMigrate
  | ["tk", "config-hash"], g => .ok (.configHash g.operands)
  | ["tk", "scan"], g => .ok (.scan (g.values "config") (number? g "now"))
  | ["tk", "reconcile"], g =>
    .ok (.reconcile ((g.value? "table").getD "") (g.values "config") (number? g "now"))
  | ["tk", "outbox"], g =>
    .ok (.outbox ((g.value? "table").getD "") ((number? g "limit").getD 20))
  | _, _ => .error .wrong

/-- The command a line asks for. -/
def ofArguments (words : List String) : Except Refusal Command := do
  let (path, given) ← form.read ["tk"] words
  ofGiven path given

/-- The files a command names. -/
def paths : Command → List String
  | .configHash paths => paths
  | .scan config _ => config
  | .reconcile _ config _ => config
  | .databaseStatus | .databaseMigrate | .outbox _ _ => []

end Command

end TableEscrow.Cli
