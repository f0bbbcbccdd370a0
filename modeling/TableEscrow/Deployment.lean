import TableEscrow.Gateway.Contract
import TableEscrow.Store.Hands
import TableEscrow.Store.Outbox
/-!
# A deployment

The world of a pass outside a rehearsal: the contract behind its gateway, the hand store, and the
outbox that events are published to.
-/

namespace TableEscrow

structure Deployment (σ : Type) where
  network : Gateway.Network σ
  gateway : Gateway.Service
  database : Store.Database σ

namespace Deployment

variable {σ : Type}

/-- Works on the state behind an outbox. -/
def behind {α : Type} (f : σ → α × σ) (p : Publisher (Store.Outbox σ)) : α × Publisher (Store.Outbox σ) :=
  let (a, state) := f p.sink.state
  (a, { p with sink := { p.sink with state } })

def reply (d : Deployment σ) (table : String) (r : Request) (p : Publisher (Store.Outbox σ)) :
    r.Reply × Publisher (Store.Outbox σ) :=
  match r with
  | .lastHandNetted => behind (Gateway.Contract.lastHandNetted d.network d.gateway table) p
  | .requestedHand => behind (Gateway.Contract.requestedHand d.network d.gateway table) p
  | .requestTime => behind (Gateway.Contract.requestTime d.network d.gateway table) p
  | .lineup => behind (Gateway.Contract.lineup d.network d.gateway table) p
  | .lastHand => behind (Store.Hands.read d.database table) p
  | .publish e => p.publish e

def world (d : Deployment σ) : World (Publisher (Store.Outbox σ)) where
  tables := behind (Gateway.Contract.tables d.network d.gateway)
  reply := d.reply

/-- The publisher into the outbox of a deployment. -/
def publisher (d : Deployment σ) (stamper : Stamper) (state : σ) : Publisher (Store.Outbox σ) :=
  ⟨stamper, ⟨d.database, state⟩⟩

end Deployment

end TableEscrow
