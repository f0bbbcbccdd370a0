import TableEscrow.Gateway.Exchange
import TableEscrow.Reconcile.Request
/-!
# The contract behind a gateway

The registry and the contract's reads as a JSON service: `GET /tables` for the registered tables,
and below each table a path for every read. A counter is the member `value` of a body, and only a
whole number of its own width is one.
-/

namespace TableEscrow.Gateway

namespace ExchangeError

/-- What a failed read is put down to. -/
def readReason : ExchangeError → String
  | .call e => s!"request failed: {e.message}"
  | .refused status body => s!"http status={status} body={Text.trim body}"
  | .unreadable => s!"response json decode failed: {unreadableBody}"

end ExchangeError

namespace Contract

def tablesPath : String := "tables"

/-- The last part of the path a read is served at. -/
def callPath : ChainCall → String
  | .lineup => "lineup"
  | call => call.name

def path (table : String) (call : ChainCall) : String := s!"tables/{table}/{callPath call}"

open Decode in
def decodeTables : Decoder (List String) :=
  (Record.required "tables" (list text)).decode "a list of tables"

open Decode in
/-- The value of a body with one member. -/
def decodeValue {α : Type} (decode : Decoder α) : Decoder α :=
  (Record.required "value" decode).decode "a value"

/-- What the reply to a read of the contract says. -/
def readCall {α : Type} (decode : Decoder α) (table : String) (call : ChainCall)
    (reply : Except CallError Reply) : Except ReadError α :=
  (read decode reply).mapError fun e => .chain table call e.readReason

def readCounter {α : Type} (decode : Decoder α) : String → ChainCall → Except CallError Reply →
    Except ReadError α :=
  readCall (decodeValue decode)

/-- What the reply to the list of tables says. -/
def readTables (reply : Except CallError Reply) : Except ReadError (List String) :=
  (read decodeTables reply).mapError fun e => .registry e.readReason

variable {σ : Type}

def tables (network : Network σ) (s : Service) (state : σ) : Except ReadError (List String) × σ :=
  let (reply, state) := s.exchange network "GET" tablesPath none state
  (readTables reply, state)

def get (network : Network σ) (s : Service) (table : String) (call : ChainCall) (state : σ) :
    Except CallError Reply × σ :=
  s.exchange network "GET" (path table call) none state

def lastHandNetted (network : Network σ) (s : Service) (table : String) (state : σ) :
    Except ReadError UInt64 × σ :=
  let (reply, state) := get network s table .lastHandNetted state
  (readCounter Decode.uint64 table .lastHandNetted reply, state)

def requestedHand (network : Network σ) (s : Service) (table : String) (state : σ) :
    Except ReadError UInt64 × σ :=
  let (reply, state) := get network s table .requestedHand state
  (readCounter Decode.uint64 table .requestedHand reply, state)

def requestTime (network : Network σ) (s : Service) (table : String) (state : σ) :
    Except ReadError Int64 × σ :=
  let (reply, state) := get network s table .requestTime state
  (readCounter Decode.int64 table .requestTime reply, state)

def lineup (network : Network σ) (s : Service) (table : String) (state : σ) :
    Except ReadError ChainLineup × σ :=
  let (reply, state) := get network s table .lineup state
  (readCall ChainLineup.decode table .lineup reply, state)

end Contract

end TableEscrow.Gateway
