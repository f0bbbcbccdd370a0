import TableEscrow.Reconcile.TablePass
/-!
# Scans

One pass over every registered table at one second. A table whose pass fails has a line in the
report like every other; only a registry that does not answer fails the scan, and an overflow ends
it.
-/

namespace TableEscrow

/-- The line of one table. -/
structure TableLine where
  table : String
  result : Except PassError Reconciliation

namespace TableLine

def published (l : TableLine) : List ControlEvent :=
  match l.result with
  | .ok r => r.published
  | .error _ => []

def hasFailed (l : TableLine) : Bool :=
  match l.result with
  | .ok _ => false
  | .error _ => true

def isLapsed (l : TableLine) : Bool :=
  match l.result with
  | .ok r => r.outcome.isLapsed
  | .error _ => false

/-- An outcome or an error, and the events if there are any. -/
def encode (l : TableLine) : Json :=
  .object <| ("table_addr", .string l.table) ::
    match l.result with
    | .ok r =>
      ("outcome", r.outcome.encode) ::
        (if r.published.isEmpty then [] else [("published", .array (r.published.map ControlEvent.encode))])
    | .error e => [("error", .string e.message)]

end TableLine

structure ScanReport where
  startedAt : Instant
  /-- The second every table was held against. -/
  now : Int64
  tables : List TableLine

namespace ScanReport

def errorCount (r : ScanReport) : Nat := r.tables.countP TableLine.hasFailed

def publishedCount (r : ScanReport) : Nat := (r.tables.flatMap (·.published)).length

/-- Tables whose request needs an operator. -/
def lapsed (r : ScanReport) : List String := (r.tables.filter TableLine.isLapsed).map (·.table)

def line? (r : ScanReport) (table : String) : Option TableLine := r.tables.find? (·.table == table)

def encode (r : ScanReport) : Json :=
  .object [("started_at", .string r.startedAt.render), ("now", .integer r.now),
    ("tables", .array (r.tables.map TableLine.encode))]

end ScanReport

/-- Why there is no report. -/
inductive ScanError where
  | read (e : ReadError)
  | overflow (o : Overflow)
  deriving DecidableEq

namespace ScanError

def message : ScanError → String
  | .read e => e.message
  | .overflow o => o.message

end ScanError

namespace Scan

/-- The lines of some tables, one pass after the other. -/
def lines {σ : Type} (w : World σ) (m : Moment) : List String → σ → Except ScanError (List TableLine) × σ
  | [], s => (.ok [], s)
  | table :: rest, s =>
    match TablePass.run w m table s with
    | (.error (.overflow o), s) => (.error (.overflow o), s)
    | (result, s) =>
      match lines w m rest s with
      | (.ok ls, s) => (.ok (⟨table, result⟩ :: ls), s)
      | (.error e, s) => (.error e, s)

def run {σ : Type} (w : World σ) (m : Moment) (startedAt : Instant) (s : σ) :
    Except ScanError ScanReport × σ :=
  match w.tables s with
  | (.error e, s) => (.error (.read e), s)
  | (.ok tables, s) =>
    match lines w m tables s with
    | (.ok ls, s) => (.ok ⟨startedAt, m.now, ls⟩, s)
    | (.error e, s) => (.error e, s)

end Scan

end TableEscrow
