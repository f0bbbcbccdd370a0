import TableEscrow.Json.Decode
/-!
# The escrow contract

What the contract says of a table: who sits there, who asked to leave, and how far settlement has
come.
-/

namespace TableEscrow

structure ChainSeat where
  address : String
  amount : UInt64
  /-- The hand after which the seat leaves; 0 is no request. -/
  exitHand : UInt64
  deriving DecidableEq

namespace ChainSeat

def hasExitRequest (s : ChainSeat) : Bool := 0 < s.exitHand

open Decode in
def record : Record ChainSeat :=
  ChainSeat.mk <$> .required "address" text <*> .required "amount" uint64
    <*> .withDefault "exitHand" 0 uint64

def decode : Decoder ChainSeat := record.decode "a seat of the contract"

def encode (s : ChainSeat) : Json :=
  .object [("address", .string s.address), ("amount", .natural s.amount),
    ("exitHand", .natural s.exitHand)]

end ChainSeat

structure ChainLineup where
  lastHandNetted : UInt64
  seats : List ChainSeat
  deriving DecidableEq

namespace ChainLineup

def anyExitRequest (l : ChainLineup) : Bool := l.seats.any ChainSeat.hasExitRequest

open Decode in
def record : Record ChainLineup :=
  ChainLineup.mk <$> .required "lastHandNetted" uint64 <*> .required "seats" (list ChainSeat.decode)

def decode : Decoder ChainLineup := record.decode "a lineup of the contract"

def encode (l : ChainLineup) : Json :=
  .object [("lastHandNetted", .natural l.lastHandNetted),
    ("seats", .array (l.seats.map ChainSeat.encode))]

end ChainLineup

/-- The three counters of settlement. -/
structure NettingStatus where
  lastHandNetted : UInt64
  requestedHand : UInt64
  /-- The second of the last request. -/
  requestTime : Int64
  deriving DecidableEq, Repr

namespace NettingStatus

def zero : NettingStatus := ⟨0, 0, 0⟩

/-- A request newer than the last settled hand is outstanding. -/
def isPending (s : NettingStatus) : Bool := s.lastHandNetted < s.requestedHand

/-- Seconds since the last request. -/
def requestAge (s : NettingStatus) (now : Int64) : Except Overflow Int64 :=
  Word.difference now s.requestTime

open Decode in
def record : Record NettingStatus :=
  NettingStatus.mk <$> .required "lastHandNetted" uint64
    <*> .required "lastNettingRequestHandId" uint64 <*> .required "lastNettingRequestTime" int64

def decode : Decoder NettingStatus := record.decode "a netting status"

def encode (s : NettingStatus) : Json :=
  .object [("lastHandNetted", .natural s.lastHandNetted),
    ("lastNettingRequestHandId", .natural s.requestedHand),
    ("lastNettingRequestTime", .integer s.requestTime)]

end NettingStatus

end TableEscrow
