import TableEscrow.Reconcile.Scan
/-!
# The daemon's status

What the daemon remembers of its passes and changes. It is folded from their results and from
nothing else; a success never clears the last error.
-/

namespace TableEscrow.Daemon

/-- What is kept of a scan report. -/
structure ScanSummary where
  startedAt : Instant
  tables : Nat
  published : Nat
  errors : Nat
  /-- Tables whose request outlived the grace window. -/
  lapsed : List String
  deriving DecidableEq

namespace ScanSummary

def ofReport (r : ScanReport) : ScanSummary :=
  ⟨r.startedAt, r.tables.length, r.publishedCount, r.errorCount, r.lapsed⟩

def encode (s : ScanSummary) : Json :=
  .object [("started_at", .string s.startedAt.render), ("tables", .count s.tables),
    ("published", .count s.published), ("errors", .count s.errors),
    ("lapsed", .array (s.lapsed.map Json.string))]

end ScanSummary

structure Status where
  configHash : Option String
  scansCompleted : Nat
  scansFailed : Nat
  changesProcessed : Nat
  changesFailed : Nat
  lastScan : Option ScanSummary
  lastError : Option String
  deriving DecidableEq

namespace Status

def initial (configHash : Option String) : Status := ⟨configHash, 0, 0, 0, 0, none, none⟩

def afterScan (s : Status) : Except ReadError ScanReport → Status
  | .ok report => { s with scansCompleted := s.scansCompleted + 1, lastScan := some (.ofReport report) }
  | .error e => { s with scansFailed := s.scansFailed + 1, lastError := some e.message }

def afterChange {α : Type} (s : Status) : Except PublishError α → Status
  | .ok _ => { s with changesProcessed := s.changesProcessed + 1 }
  | .error e => { s with changesFailed := s.changesFailed + 1, lastError := some e.message }

def encode (s : Status) (uptime : Nat) : Json :=
  .object [("daemon_uptime_secs", .count uptime), ("config_hash", Json.orNull .string s.configHash),
    ("scans_completed", .count s.scansCompleted), ("scans_failed", .count s.scansFailed),
    ("changes_processed", .count s.changesProcessed), ("changes_failed", .count s.changesFailed),
    ("last_scan", Json.orNull ScanSummary.encode s.lastScan),
    ("last_error", Json.orNull .string s.lastError)]

end Status

end TableEscrow.Daemon
