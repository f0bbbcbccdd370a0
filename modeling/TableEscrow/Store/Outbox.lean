import TableEscrow.Bus.Sink
import TableEscrow.Store.Statement
/-!
# The outbox

The durable end of the bus: an envelope that was written has been sent. Views of tables are not
kept.
-/

namespace TableEscrow.Store

structure Outbox (σ : Type) where
  database : Database σ
  state : σ

namespace Outbox

variable {σ : Type}

def enqueue (e : ControlEnvelope) (o : Outbox σ) : Except StoreError Unit × Outbox σ :=
  let (result, state) := o.database.run (.enqueue e) o.state
  (result, { o with state })

def offer (d : Dispatch) (o : Outbox σ) : Except PublishError Unit × Outbox σ :=
  match d with
  | .control e =>
    let (result, o) := o.enqueue e
    (result.mapError fun e => .transport e.chain, o)
  | .live _ => (.ok (), o)

instance : Sink (Outbox σ) := ⟨offer⟩

/-- The newest rows of a table. -/
def recent (d : Database σ) (table : String) (limit : Int64) (s : σ) :
    Except StoreError (List OutboxRow) × σ :=
  d.run (.recent table limit) s

/-- How many rows a table has. -/
def count (d : Database σ) (table : String) (s : σ) : Except StoreError Int64 × σ :=
  let (result, s) := d.run (.count table) s
  (Database.one (.count table) result, s)

end Outbox

end TableEscrow.Store
