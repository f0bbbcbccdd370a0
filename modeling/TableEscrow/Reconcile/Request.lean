import TableEscrow.Bus.Sink
import TableEscrow.Chain
import TableEscrow.Hand
/-!
# Requests

What a scan asks of the world: which tables there are, and for each table reads of the contract and
of the hand store, and events to publish. A world may change as it answers.
-/

namespace TableEscrow

/-- A read of the escrow contract. -/
inductive ChainCall where
  | lastHandNetted
  | requestedHand
  | requestTime
  | lineup
  deriving DecidableEq, Repr

namespace ChainCall

def name : ChainCall → String
  | .lastHandNetted => "lastHandNetted"
  | .requestedHand => "lastNettingRequestHandId"
  | .requestTime => "lastNettingRequestTime"
  | .lineup => "getLineup"

end ChainCall

inductive ReadError where
  | chain (table : String) (call : ChainCall) (reason : String)
  | store (table reason : String)
  | registry (reason : String)
  deriving DecidableEq, Repr

namespace ReadError

def message : ReadError → String
  | .chain table call reason =>
    "chain read " ++ Fault.tick call.name ++ s!" failed for table {table}: {reason}"
  | .store table reason => s!"store read failed for table {table}: {reason}"
  | .registry reason => s!"table registry unavailable: {reason}"

end ReadError

inductive Request where
  | lastHandNetted
  | requestedHand
  | requestTime
  | lastHand
  | lineup
  | publish (e : ControlEvent)
  deriving DecidableEq

/-- What a request is answered with. -/
@[reducible]
def Request.Reply : Request → Type
  | .lastHandNetted => Except ReadError UInt64
  | .requestedHand => Except ReadError UInt64
  | .requestTime => Except ReadError Int64
  | .lastHand => Except ReadError (Option Hand)
  | .lineup => Except ReadError ChainLineup
  | .publish _ => Except PublishError Unit

structure World (σ : Type) where
  /-- The registered tables. -/
  tables : σ → Except ReadError (List String) × σ
  /-- Answers a request made for a table. -/
  reply : String → (r : Request) → σ → r.Reply × σ

/-- The three counters, read one after the other until one fails. -/
def World.nettingStatus {σ : Type} (w : World σ) (table : String) (s : σ) :
    Except ReadError NettingStatus × σ :=
  match w.reply table .lastHandNetted s with
  | (.error e, s) => (.error e, s)
  | (.ok netted, s) =>
    match w.reply table .requestedHand s with
    | (.error e, s) => (.error e, s)
    | (.ok requested, s) =>
      match w.reply table .requestTime s with
      | (.error e, s) => (.error e, s)
      | (.ok time, s) => (.ok ⟨netted, requested, time⟩, s)

end TableEscrow
