import Std.Time.DateTime.Timestamp
import TableEscrow.Cli.Run
import TableEscrow.Daemon.Startup
/-!
# The program

One program under two names: as `tk-daemon` it starts the daemon, and under any other name it is
the operator's command line. It has no way to a network, so every peer is out of reach.
-/

namespace TableEscrow.Program

/-- The variables of a list of assignments, each closed by a null character. -/
def environmentOf (text : String) : Environment :=
  .ofList ((Text.splitOn '\x00' text.toList).filterMap fun entry =>
    match Text.cutAt '=' entry with
    | (name, some value) => some (String.ofList name, String.ofList value)
    | (_, none) => none)

def file? (path : String) : IO (Option String) := do
  try
    return some (← IO.FS.readFile path)
  catch _ =>
    return none

def filesAt (paths : List String) : IO (Keyed String) := do
  let found ← paths.mapM fun path => return (path, ← file? path)
  return .ofList (found.filterMap fun (path, text) => text.map fun text => (path, text))

/-- Nobody answers. -/
def noNetwork : Gateway.Network Unit := ⟨fun _ s => (none, s)⟩

/-- What surrounds this process; `pathsOf` says which files its variables lead to. -/
def surroundings (pathsOf : Environment → List String) : IO (Surroundings Unit) := do
  let environment := environmentOf ((← file? "/proc/self/environ").getD "")
  let envText ← file? Surroundings.envFile
  let full := (envText.map (EnvFile.load environment)).getD environment
  let files ← filesAt (Surroundings.envFile :: pathsOf full)
  let now := (← Std.Time.Timestamp.now).toSecondsSinceUnixEpoch.val
  return {
    environment
    file? := files.get?
    database? := fun _ => none
    network := noNetwork
    now := Int64.ofInt now
    instant := ⟨now, 0⟩
    stamper := ⟨0, ⟨now, 0⟩⟩ }

def warn (unused : List String) : IO Unit :=
  unused.forM fun pointer => IO.eprintln ("unused config key " ++ pointer)

def fail (message : String) : IO Unit := IO.eprintln ("Error: " ++ message)

def operate (words : List String) : IO UInt32 := do
  let paths := match Cli.Command.ofArguments words with
    | .ok c => c.paths
    | .error _ => []
  let (finished, _) := Cli.Run.commandLine (← surroundings fun _ => paths) words ()
  warn finished.unused
  IO.print finished.output
  match finished.ending with
  | .success => pure ()
  | .failure f => fail f.message
  | .usage => IO.eprint (Cli.Command.form.help ["tk"])
  | .overflow o => IO.eprintln o.message
  return .ofNat finished.ending.code

def serve : IO UInt32 := do
  let s ← surroundings fun env => (Daemon.Startup.paths? env).getD []
  let (start, _) := Daemon.Startup.run s (fun _ => .error "no network") ()
  warn start.unused
  start.hash.forM fun hash => IO.eprintln ("config loaded " ++ hash)
  match start.result with
  | .ok _ => return 0
  | .error e =>
    fail e.message
    return 1

end TableEscrow.Program

def main (words : List String) : IO UInt32 := do
  if (toString (← IO.appPath)).endsWith "tk-daemon" then TableEscrow.Program.serve
  else TableEscrow.Program.operate words
