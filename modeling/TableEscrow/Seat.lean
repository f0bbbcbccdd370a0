import TableEscrow.Json.Decode
/-!
# Seats

One place at the table as the hand store keeps it. A seat may be empty, may sit out since some
second, and may ask to leave after a hand.
-/

namespace TableEscrow

structure Seat where
  address : String
  amount : UInt64
  /-- The second at which the seat went inactive. -/
  sitout : Option Int64
  /-- The hand after which the seat leaves; hand 0 is no request. -/
  exitHand : Option UInt64
  /-- The most recent signed receipt. -/
  last : Option String
  deriving DecidableEq

namespace Seat

/-- The address of a seat nobody occupies. -/
def emptyAddress : String := "0x0000000000000000000000000000000000000000"

def ofAddress (address : String) (amount : UInt64) : Seat := ⟨address, amount, none, none, none⟩

def empty : Seat := ofAddress emptyAddress 0

def isEmpty (s : Seat) : Bool := s.address == "" || s.address == emptyAddress

/-- Inactive since strictly before `cutoff`. -/
def satOutBefore (s : Seat) (cutoff : Int64) : Bool :=
  match s.sitout with
  | some second => second < cutoff
  | none => false

def exitRequest (s : Seat) : Option UInt64 := s.exitHand.filter (0 < ·)

/-- Leaves at or before a hand. -/
def leavesBy (s : Seat) (hand : UInt64) : Bool :=
  match s.exitRequest with
  | some exit => exit ≤ hand
  | none => false

open Decode in
def record : Record Seat :=
  Seat.mk <$> .required "address" text <*> .withDefault "amount" 0 uint64 <*> .maybe "sitout" int64
    <*> .maybe "exitHand" uint64 <*> .maybe "last" text

def decode : Decoder Seat := record.decode "struct Seat"

def encode (s : Seat) : Json :=
  .object <|
    [("address", .string s.address), ("amount", .natural s.amount)] ++
      Json.member? "sitout" .integer s.sitout ++
      Json.member? "exitHand" .natural s.exitHand ++
      Json.member? "last" .string s.last

end Seat

end TableEscrow
