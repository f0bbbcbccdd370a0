import TableEscrow.Envelope
import TableEscrow.Hand
import TableEscrow.Store.Migration
/-!
# Statements

Everything that is ever asked of the database: for each statement its SQL, its parameters, what it
is answered, and what its failure is called. A database answers a statement or gives the reason
why it cannot.
-/

namespace TableEscrow.Store

/-- A row of the outbox. Its subject and its table are whatever was written there. -/
structure OutboxRow where
  id : Uuid
  time : Instant
  subject : String
  table : String
  payload : Json
  deriving DecidableEq

/-- A hand as it is written: the columns and the whole document. -/
structure HandRow where
  table : String
  hand : Int64
  state : HandState
  changed : Int64
  record : Json
  deriving DecidableEq

inductive Statement where
  | lastHand (table : String)
  /-- Writes a hand unless a later change of it is there. -/
  | putHand (row : HandRow)
  | enqueue (e : ControlEnvelope)
  /-- The newest rows of a table's outbox. -/
  | recent (table : String) (limit : Int64)
  | count (table : String)
  | ping
  | tableExists (name : String)
  | applied
  | migrate (m : Migration)
  deriving DecidableEq

inductive Parameter where
  | text (s : String)
  | integer (n : Int64)
  | document (v : Json)
  | uuid (u : Uuid)
  | time (t : Instant)
  deriving DecidableEq

namespace Statement

/-- What a statement is answered with. -/
@[reducible]
def Reply : Statement → Type
  | .lastHand _ => Option Json
  | .putHand _ => Nat
  | .enqueue _ => Unit
  | .recent _ _ => List OutboxRow
  | .count _ => Option Int64
  | .ping => Option Int32
  | .tableExists _ => Option Bool
  | .applied => List Applied
  | .migrate _ => Unit

def sql : Statement → String
  | .lastHand _ =>
    "select record from hands where table_addr = $1 order by hand_id desc limit 1"
  | .putHand _ =>
    "insert into hands (table_addr, hand_id, state, changed, record) values ($1, $2, $3, $4, $5) " ++
      "on conflict (table_addr, hand_id) do update set state = excluded.state, " ++
      "changed = excluded.changed, record = excluded.record, updated_at = now() " ++
      "where hands.changed <= excluded.changed"
  | .enqueue _ =>
    "insert into control_outbox (event_id, ts_utc, subject, table_addr, payload) " ++
      "values ($1, $2, $3, $4, $5)"
  | .recent _ _ =>
    "select event_id, ts_utc, subject, table_addr, payload from control_outbox " ++
      "where table_addr = $1 order by created_at desc, ts_utc desc limit $2"
  | .count _ => "select count(*)::bigint from control_outbox where table_addr = $1"
  | .ping => "select 1"
  | .tableExists _ =>
    "select exists ( select 1 from information_schema.tables " ++
      "where table_schema = 'public' and table_name = $1 )"
  | .applied => "select version, checksum from schema_migrations order by version"
  | .migrate m => m.script

def parameters : Statement → List Parameter
  | .lastHand table => [.text table]
  | .putHand row =>
    [.text row.table, .integer row.hand, .text row.state.name, .integer row.changed,
      .document row.record]
  | .enqueue e =>
    [.uuid e.id, .time e.time.cutToMicros, .text e.subject.name, .text e.table, .document e.payload]
  | .recent table limit => [.text table, .integer limit]
  | .count table => [.text table]
  | .ping => []
  | .tableExists name => [.text name]
  | .applied => []
  | .migrate _ => []

/-- What the failure of a statement is called. -/
def failure : Statement → String
  | .lastHand _ => "fetch last hand failed"
  | .putHand _ => "upsert hand failed"
  | .enqueue _ => "control outbox insert failed"
  | .recent _ _ => "outbox_recent query failed"
  | .count _ => "outbox_count query failed"
  | .ping => "status connectivity query failed"
  | .tableExists name => s!"status table-exists query failed: {name}"
  | .applied => "db migrate failed"
  | .migrate _ => "db migrate failed"

end Statement

/-- A database answers statements, and may change as it does. -/
structure Database (σ : Type) where
  answer : (s : Statement) → σ → Except String s.Reply × σ

/-- Why a statement gave nothing. -/
inductive Cause where
  | refused (reason : String)
  | noRow
  deriving DecidableEq

namespace Cause

/-- A refusal is its own cause, so its reason is named twice. -/
def message : Cause → String
  | .refused reason => s!"error returned from database: {reason}: {reason}"
  | .noRow => "no rows returned by a query that expected to return at least one row"

end Cause

inductive StoreError where
  | variableMissing (name : String)
  | unreachable
  | failed (s : Statement) (cause : Cause)
  /-- The stored document is no hand. -/
  | undecodable (f : Fault)
  /-- The number of a hand has no place in its column. -/
  | handOutOfRange
  /-- A later change of the hand is stored already. -/
  | stale (row : HandRow)
  /-- The database ran a script that is not known, or was another one then. -/
  | unknownMigration (version : Int64)
  deriving DecidableEq

namespace StoreError

/-- What went wrong, without its cause. -/
def message : StoreError → String
  | .variableMissing name => s!"missing env var {name}"
  | .unreachable => "failed to connect to Postgres"
  | .failed s _ => s.failure
  | .undecodable _ => "hand record decode failed"
  | .handOutOfRange => "hand_id out of range"
  | .stale row =>
    s!"stale hand write rejected: table={row.table} hand_id={row.hand.toInt} changed={row.changed.toInt}"
  | .unknownMigration _ => "db migrate failed"

/-- What went wrong and why. -/
def chain : StoreError → String
  | .failed s cause => s!"{s.failure}: {cause.message}"
  | .undecodable f => s!"hand record decode failed: {f.message}"
  | e => e.message

end StoreError

namespace Database

variable {σ : Type}

def run (d : Database σ) (s : Statement) (state : σ) : Except StoreError s.Reply × σ :=
  let (reply, state) := d.answer s state
  (reply.mapError fun reason => .failed s (.refused reason), state)

/-- The one value a statement is expected to give. -/
def one {α : Type} (s : Statement) : Except StoreError (Option α) → Except StoreError α
  | .ok (some a) => .ok a
  | .ok none => .error (.failed s .noRow)
  | .error e => .error e

end Database

end TableEscrow.Store
