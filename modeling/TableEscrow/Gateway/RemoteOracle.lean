import TableEscrow.Gateway.Exchange
import TableEscrow.Oracle
/-!
# The oracle as a service

The three questions to the oracle, each posted as JSON. A refusal with status 422 says that the
snapshot makes no sense; every other failure says that the oracle is not available.
-/

namespace TableEscrow.Gateway

namespace ExchangeError

/-- What a failed question is reported as. -/
def oracleError : ExchangeError → OracleError
  | .call e => .unavailable s!"oracle request failed: {e.message}"
  | .refused status body =>
    if status = 422 then .malformed (Text.trim body)
    else .unavailable s!"oracle http status={status}"
  | .unreadable => .unavailable s!"oracle response json decode failed: {unreadableBody}"

end ExchangeError

/-- A question to the oracle. -/
inductive Question where
  | complete (lineup : List Seat) (dealer : UInt64) (state : HandState)
  | active (lineup : List Seat) (state : HandState)
  | render (h : Hand)
  deriving DecidableEq

namespace Question

def path : Question → String
  | .complete _ _ _ => "hand/complete"
  | .active _ _ => "hand/active"
  | .render _ => "render"

def encode : Question → Json
  | .complete lineup dealer state =>
    .object [("lineup", .array (lineup.map Seat.encode)), ("dealer", .natural dealer),
      ("state", state.encode)]
  | .active lineup state =>
    .object [("lineup", .array (lineup.map Seat.encode)), ("state", state.encode)]
  | .render h => h.encode

end Question

namespace RemoteOracle

open Decode in
def decodeComplete : Decoder Bool := (Record.required "complete" bool).decode "a verdict"

open Decode in
def decodeActive : Decoder UInt64 := (Record.required "active" size).decode "a count"

/-- What the reply to a question says. -/
def readAnswer {α : Type} (decode : Decoder α) (reply : Except CallError Reply) : Except OracleError α :=
  (read decode reply).mapError ExchangeError.oracleError

variable {σ : Type}

def ask {α : Type} (network : Network σ) (s : Service) (decode : Decoder α) (q : Question) (state : σ) :
    Except OracleError α × σ :=
  let (reply, state) := s.exchange network "POST" q.path (some q.encode) state
  (readAnswer decode reply, state)

def isComplete (network : Network σ) (s : Service) (lineup : List Seat) (dealer : UInt64)
    (state : HandState) : σ → Except OracleError Bool × σ :=
  ask network s decodeComplete (.complete lineup dealer state)

def activeCount (network : Network σ) (s : Service) (lineup : List Seat) (state : HandState) :
    σ → Except OracleError UInt64 × σ :=
  ask network s decodeActive (.active lineup state)

def render (network : Network σ) (s : Service) (h : Hand) : σ → Except OracleError Json × σ :=
  ask network s Decode.json (.render h)

end RemoteOracle

end TableEscrow.Gateway
