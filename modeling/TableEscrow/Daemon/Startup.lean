import TableEscrow.Store.Schema
import TableEscrow.Surroundings
/-!
# Starting the daemon

What happens before the daemon serves: its configuration and secrets are read, the database is
reached and has its tables, and an address is bound. The first of these that fails ends the daemon.
-/

namespace TableEscrow.Daemon

inductive StartError where
  | config (e : ConfigError)
  | store (e : Store.StoreError)
  | schemaMissing
  /-- The address cannot be listened on. -/
  | bind (reason : String)
  deriving DecidableEq

namespace StartError

def message : StartError → String
  | .config e => e.message
  | .store e => e.message
  | .schemaMissing => "database schema missing; run " ++ Fault.tick "tk db migrate" ++ " first"
  | .bind reason => reason

end StartError

/-- A start: what was logged on the way, and how it ended. -/
structure Startup where
  /-- Pointers of the unused keys that were warned of. -/
  unused : List String
  /-- The hash of the configuration that was loaded. -/
  hash : Option String
  /-- The address that was to be listened on. -/
  listening : Option SocketAddress
  result : Except StartError Config

namespace Startup

variable {σ : Type}

def configVariable : String := "TK_CONFIG"

def addressVariable : String := "TK_DAEMON_ADDR"

/-- Paths between commas; blank ones do not count. -/
def pathsOf (list : String) : List String :=
  ((Text.splitOn ',' list.toList).map fun cs => String.ofList (Text.trimList cs)).filter (!·.isEmpty)

/-- The layers an environment names; none when it names no list. -/
def paths? (env : Environment) : Option (List String) :=
  (Secrets.value? env configVariable).map pathsOf

def readConfig (s : Surroundings σ) : ReadConfig :=
  match paths? s.environment with
  | some paths => .ofFiles .daemon s.file? paths
  | none => .standard

/-- The configuration with the bases the environment names. -/
def withBases (s : Surroundings σ) (c : Config) : Config :=
  { c with
    gateway := s.withBase "TK_GATEWAY_URL" c.gateway
    oracle := s.withBase "TK_ORACLE_URL" c.oracle }

def standardAddress : SocketAddress := .v4 (.ofOctets 127 0 0 1) 8899

/-- The address of the environment, or else of the configuration, if it is one. -/
def address (s : Surroundings σ) (c : Config) : SocketAddress :=
  (((s.environment.get? addressVariable).bind SocketAddress.ofText?).or
    (SocketAddress.ofText? c.daemon.bindAddress)).getD standardAddress

/-- The configuration to serve with, once the database is ready. -/
def prepare (s : Surroundings σ) (config : Except ConfigError Config) (state : σ) :
    Except StartError Config × σ :=
  match config with
  | .error e => (.error (.config e), state)
  | .ok c =>
    let c := withBases s c
    match Secrets.resolve s.environment c .daemon with
    | .error e => (.error (.config e), state)
    | .ok secrets =>
      match s.connect secrets.databaseUrl with
      | .error e => (.error (.store e), state)
      | .ok d =>
        match Store.Readiness.ofDatabase d state with
        | (.error e, state) => (.error (.store e), state)
        | (.ok r, state) => (if r.isComplete then .ok c else .error .schemaMissing, state)

/-- Starts a daemon; `bind` is what the network says to an address. -/
def run (s : Surroundings σ) (bind : SocketAddress → Except String Unit) (state : σ) : Startup × σ :=
  let s := s.withEnvFile
  let config := readConfig s
  match prepare s config.result state with
  | (.error e, state) => (⟨config.unused, config.hash, none, .error e⟩, state)
  | (.ok c, state) =>
    let place := address s c
    (⟨config.unused, config.hash, some place, (bind place).map (fun _ => c) |>.mapError .bind⟩, state)

end Startup

end TableEscrow.Daemon
