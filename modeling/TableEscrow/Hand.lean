import TableEscrow.Seat
import TableEscrow.Netting
/-!
# Hands

What the hand store knows of one hand at one table.
-/

namespace TableEscrow

inductive HandState where
  | waiting | dealing | preflop | flop | turn | river | showdown
  deriving DecidableEq, Repr

namespace HandState

def name : HandState → String
  | .waiting => "waiting"
  | .dealing => "dealing"
  | .preflop => "preflop"
  | .flop => "flop"
  | .turn => "turn"
  | .river => "river"
  | .showdown => "showdown"

def all : List HandState := [.waiting, .dealing, .preflop, .flop, .turn, .river, .showdown]

def decode : Decoder HandState := Decode.oneOf (all.map fun s => (s.name, s))

def encode (s : HandState) : Json := .string s.name

end HandState

structure Hand where
  table : String
  id : UInt64
  state : HandState
  dealer : UInt64
  smallBlind : UInt64
  lineup : List Seat
  /-- The second of the last change. -/
  changed : Int64
  started : Option Int64
  deck : Option (List UInt8)
  preflopMaxBet : Option UInt64
  flopMaxBet : Option UInt64
  turnMaxBet : Option UInt64
  riverMaxBet : Option UInt64
  /-- The payout, once it is known. -/
  distribution : Option Json
  /-- Present once settlement has begun. -/
  netting : Option Netting
  deriving DecidableEq

namespace Hand

/-- A hand nobody has sat down at. -/
def start (table : String) (id : UInt64) (state : HandState) (changed : Int64) : Hand :=
  ⟨table, id, state, 0, 0, [], changed, none, none, none, none, none, none, none, none⟩

/-- At least one seat is occupied. -/
def hasPlayer (h : Hand) : Bool := h.lineup.any (!·.isEmpty)

/-- Some seat leaves at or before this hand. -/
def hasPendingLeave (h : Hand) : Bool := h.lineup.any (·.leavesBy h.id)

/-- How many have signed the settlement, once there is one. -/
def signers (h : Hand) : Option Nat := h.netting.map Netting.signerCount

open Decode in
def record : Record Hand :=
  Hand.mk <$> .required "tableAddr" text <*> .required "handId" uint64
    <*> .required "state" HandState.decode <*> .withDefault "dealer" 0 size
    <*> .withDefault "sb" 0 uint64 <*> .withDefault "lineup" [] (list Seat.decode)
    <*> .required "changed" int64 <*> .maybe "started" int64 <*> .maybe "deck" (list byte)
    <*> .maybe "preMaxBet" uint64 <*> .maybe "flopMaxBet" uint64 <*> .maybe "turnMaxBet" uint64
    <*> .maybe "riverMaxBet" uint64 <*> .maybe "distribution" json <*> .maybe "netting" Netting.decode

def decode : Decoder Hand := record.decode "struct HandRecord"

def encode (h : Hand) : Json :=
  .object <|
    [("tableAddr", .string h.table), ("handId", .natural h.id), ("state", h.state.encode),
      ("dealer", .natural h.dealer), ("sb", .natural h.smallBlind),
      ("lineup", .array (h.lineup.map Seat.encode)), ("changed", .integer h.changed)] ++
      Json.member? "started" .integer h.started ++
      Json.member? "deck" (fun deck => .array (deck.map fun card => .count card.toNat)) h.deck ++
      Json.member? "preMaxBet" .natural h.preflopMaxBet ++
      Json.member? "flopMaxBet" .natural h.flopMaxBet ++
      Json.member? "turnMaxBet" .natural h.turnMaxBet ++
      Json.member? "riverMaxBet" .natural h.riverMaxBet ++
      Json.member? "distribution" (·) h.distribution ++
      Json.member? "netting" Netting.encode h.netting

end Hand

end TableEscrow
