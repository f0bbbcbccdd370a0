import TableEscrow.Bus.Ring
import TableEscrow.Daemon.Status
import TableEscrow.Reaction
/-!
# The daemon's service

Scan passes and changes run against a backend, are folded into the status, and leave lines on the
bus: one for each lapsed table of a pass, and one for a pass that failed.
-/

namespace TableEscrow.Daemon

/-- What the daemon works on. -/
structure Backend (σ : Type) where
  world : World σ
  react : HandChange → σ → Except PublishError Reaction.Outcome × σ
  /-- Changes the bus that listeners read. -/
  onBus : (Bus → Bus) → σ → σ

structure Service (σ : Type) where
  state : σ
  status : Status

namespace Service

variable {σ : Type}

def lapsedLine (table : String) : String :=
  s!"netting request for table {table} outlived the settlement grace window; manual intervention required"

def failedLine (e : ReadError) : String := s!"reconcile scan failed: {e.message}"

/-- The lines a pass leaves on the bus. -/
def logScan (b : Bus) : Except ReadError ScanReport → Bus
  | .ok report => report.lapsed.foldl (fun b table => b.log "WARN" (lapsedLine table)) b
  | .error e => b.log "ERROR" (failedLine e)

/-- Folds the result of a pass. -/
def recordScan (backend : Backend σ) (result : Except ReadError ScanReport) (s : Service σ) : Service σ :=
  ⟨backend.onBus (logScan · result) s.state, s.status.afterScan result⟩

/-- One pass. A pass that an overflow ends is not recorded. -/
def scan (backend : Backend σ) (m : Moment) (startedAt : Instant) (s : Service σ) :
    Except ScanError ScanReport × Service σ :=
  match Scan.run backend.world m startedAt s.state with
  | (.ok report, state) => (.ok report, recordScan backend (.ok report) { s with state })
  | (.error (.read e), state) => (.error (.read e), recordScan backend (.error e) { s with state })
  | (.error (.overflow o), state) => (.error (.overflow o), { s with state })

def change (backend : Backend σ) (c : HandChange) (s : Service σ) :
    Except PublishError Reaction.Outcome × Service σ :=
  let (result, state) := backend.react c s.state
  (result, ⟨state, s.status.afterChange result⟩)

end Service

end TableEscrow.Daemon
