import TableEscrow.Cli.Command
import TableEscrow.Cli.Help
import TableEscrow.Reconcile.Scan
import TableEscrow.Store.Schema
import TableEscrow.Surroundings
/-!
# Running a command

What a command prints and how it ends. A pass that could not judge every table still prints its
report.
-/

namespace TableEscrow.Cli

/-- Why a command failed. -/
inductive Failure where
  | config (e : ConfigError)
  | store (e : Store.StoreError)
  /-- A pass has no database to work on. -/
  | noDatabase
  | read (e : ReadError)
  | publish (e : PublishError)
  | tables (count : Nat)
  deriving DecidableEq

namespace Failure

def message : Failure → String
  | .config e => e.message
  | .store e => e.message
  | .noDatabase => "connect for reconcile failed"
  | .read e => e.message
  | .publish e => e.message
  | .tables count => s!"{count} table(s) failed to reconcile"

end Failure

inductive Ending where
  | success
  | failure (f : Failure)
  | usage
  | overflow (o : Overflow)
  deriving DecidableEq

namespace Ending

def code : Ending → Nat
  | .success => 0
  | .failure _ => 1
  | .usage => 2
  | .overflow _ => 101

end Ending

/-- What a process said and how it ended. -/
structure Finished where
  output : String
  /-- Pointers of the unused keys that were warned of. -/
  unused : List String
  ending : Ending
  deriving DecidableEq

namespace Finished

def failed (f : Failure) : Finished := ⟨"", [], .failure f⟩

def printed (output : String) : Finished := ⟨output, [], .success⟩

end Finished

namespace Run

variable {σ : Type}

def databaseVariable : String := "TK_DATABASE_URL"

def gatewayVariable : String := "TK_GATEWAY_URL"

/-- The database the environment names. -/
def databaseOfEnvironment (s : Surroundings σ) : Except Store.StoreError (Store.Database σ) :=
  match s.environment.get? databaseVariable with
  | some url => s.connect url
  | none => .error (.variableMissing databaseVariable)

def withDatabase (s : Surroundings σ) (run : Store.Database σ → σ → Except Store.StoreError String × σ)
    (state : σ) : Finished × σ :=
  match databaseOfEnvironment s with
  | .error e => (.failed (.store e), state)
  | .ok d =>
    match run d state with
    | (.ok output, state) => (.printed output, state)
    | (.error e, state) => (.failed (.store e), state)

def databaseStatus (d : Store.Database σ) (state : σ) : Except Store.StoreError String × σ :=
  let (result, state) := Store.Readiness.ofDatabase d state
  (result.map fun r =>
    s!"db_ok={r.answers} has_hands_table={r.hasHands} has_outbox_table={r.hasOutbox}\n", state)

def databaseMigrate (d : Store.Database σ) (state : σ) : Except Store.StoreError String × σ :=
  let (result, state) := Store.Migration.run d Store.Migration.all state
  (result.map fun _ => "migrations_applied=true\n", state)

def outboxLine (r : Store.OutboxRow) : String :=
  r.time.renderWith "+00:00" ++ s!" {r.id.render} {r.subject} {r.payload.compact}\n"

/-- The number of a table's events and the newest of them; at least one is asked for. -/
def outbox (table : String) (limit : Int64) (d : Store.Database σ) (state : σ) :
    Except Store.StoreError String × σ :=
  match Store.Outbox.count d table state with
  | (.error e, state) => (.error e, state)
  | (.ok total, state) =>
    let (rows, state) := Store.Outbox.recent d table (if limit < 1 then 1 else limit) state
    (rows.map fun rows =>
      s!"table={table} total={total.toInt} showing={rows.length}\n" ++ String.join (rows.map outboxLine),
      state)

def configHash (s : Surroundings σ) (paths : List String) : Finished :=
  match LayeredConfig.ofFiles s.file? paths with
  | .ok c => .printed s!"config_hash={c.hash}\n{c.canonical}\n"
  | .error e => .failed (.config e)

/-- What a pass works on and is held against. -/
structure Prepared (σ : Type) where
  deployment : Deployment σ
  thresholds : Thresholds

def prepare (s : Surroundings σ) (config : Except ConfigError Config) :
    Except Failure (Prepared σ) := do
  let config ← config.mapError .config
  let gateway := s.withBase gatewayVariable config.gateway
  let config := { config with gateway }
  let secrets ← (Secrets.resolve s.environment config .cli).mapError .config
  let database ← (s.connect secrets.databaseUrl).mapError fun _ => .noDatabase
  return ⟨⟨s.network, gateway.service secrets.gatewayKey, database⟩, config.reconcile.thresholds⟩

/-- The configuration of layers; the defaults without any. -/
def readConfig (s : Surroundings σ) (paths : List String) : ReadConfig :=
  if paths.isEmpty then .standard else .ofFiles .cli s.file? paths

/-- Runs a pass against what the configuration names. -/
def withPrepared (s : Surroundings σ) (paths : List String) (now : Option Int64)
    (run : World (Publisher (Store.Outbox σ)) → Moment → Publisher (Store.Outbox σ) →
      (String × Ending) × Publisher (Store.Outbox σ)) (state : σ) : Finished × σ :=
  let config := readConfig s paths
  match prepare s config.result with
  | .error f => (⟨"", config.unused, .failure f⟩, state)
  | .ok p =>
    let moment : Moment := ⟨p.thresholds, now.getD s.now⟩
    let ((output, ending), publisher) :=
      run p.deployment.world moment (p.deployment.publisher s.stamper state)
    (⟨output, config.unused, ending⟩, publisher.sink.state)

def scanEnding (r : ScanReport) : Ending :=
  if 0 < r.errorCount then .failure (.tables r.errorCount) else .success

def scan (startedAt : Instant) (w : World (Publisher (Store.Outbox σ))) (m : Moment)
    (p : Publisher (Store.Outbox σ)) : (String × Ending) × Publisher (Store.Outbox σ) :=
  match Scan.run w m startedAt p with
  | (.ok r, p) => ((r.encode.indented ++ "\n", scanEnding r), p)
  | (.error (.read e), p) => (("", .failure (.read e)), p)
  | (.error (.overflow o), p) => (("", .overflow o), p)

def reconcile (table : String) (w : World (Publisher (Store.Outbox σ))) (m : Moment)
    (p : Publisher (Store.Outbox σ)) : (String × Ending) × Publisher (Store.Outbox σ) :=
  match TablePass.run w m table p with
  | (.ok r, p) => ((r.encode.indented ++ "\n", .success), p)
  | (.error (.read e), p) => (("", .failure (.read e)), p)
  | (.error (.publish e), p) => (("", .failure (.publish e)), p)
  | (.error (.overflow o), p) => (("", .overflow o), p)

def command (s : Surroundings σ) (c : Command) (state : σ) : Finished × σ :=
  match c with
  | .databaseStatus => withDatabase s databaseStatus state
  | .databaseMigrate => withDatabase s databaseMigrate state
  | .configHash paths => (configHash s paths, state)
  | .scan config now => withPrepared s config now (scan s.instant) state
  | .reconcile table config now => withPrepared s config now (reconcile table) state
  | .outbox table limit => withDatabase s (outbox table limit) state

/-- Runs a command line. -/
def commandLine (s : Surroundings σ) (words : List String) (state : σ) : Finished × σ :=
  match Command.ofArguments words with
  | .ok c => command s.withEnvFile c state
  | .error (.help path) => (.printed (Command.form.help path), state)
  | .error .wrong => (⟨"", [], .usage⟩, state)

end Run

end TableEscrow.Cli
