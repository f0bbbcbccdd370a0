import TableEscrow.Hand
/-!
# Hand changes

One change of a stored hand: what was there before and what is there after.
-/

namespace TableEscrow

inductive ChangeKind where
  | insert
  | modify
  | remove
  /-- Any other kind. -/
  | unknown
  deriving DecidableEq, Repr

namespace ChangeKind

def name : ChangeKind → String
  | .insert => "INSERT"
  | .modify => "MODIFY"
  | .remove => "REMOVE"
  | .unknown => "UNKNOWN"

def ofName (name : String) : ChangeKind :=
  if name = "INSERT" then .insert
  else if name = "MODIFY" then .modify
  else if name = "REMOVE" then .remove
  else .unknown

def decode : Decoder ChangeKind := fun d => (Decode.name d).map ofName

def encode (k : ChangeKind) : Json := .string k.name

end ChangeKind

structure HandChange where
  kind : ChangeKind
  table : String
  hand : UInt64
  before : Option Hand
  after : Option Hand
  deriving DecidableEq

namespace HandChange

def insertion (after : Hand) : HandChange := ⟨.insert, after.table, after.id, none, some after⟩

def modification (before after : Hand) : HandChange :=
  ⟨.modify, after.table, after.id, some before, some after⟩

open Decode in
def record : Record HandChange :=
  HandChange.mk <$> .required "kind" ChangeKind.decode <*> .required "tableAddr" text
    <*> .required "handId" uint64 <*> .maybe "before" Hand.decode <*> .maybe "after" Hand.decode

def decode : Decoder HandChange := record.decode "a hand change"

def encode (c : HandChange) : Json :=
  .object [("kind", c.kind.encode), ("tableAddr", .string c.table), ("handId", .natural c.hand),
    ("before", Json.orNull Hand.encode c.before), ("after", Json.orNull Hand.encode c.after)]

end HandChange

end TableEscrow
