import TableEscrow.Event
import TableEscrow.Instant
import TableEscrow.Uuid
/-!
# Envelopes

What travels on the bus: a control event with an id and a time beside it, and the rendered view of
a table.
-/

namespace TableEscrow

namespace Uuid

def decode : Decoder Uuid := fun d => do
  match ofText? (← Decode.text d) with
  | some u => return u
  | none => .error (.form "UUID parsing failed")

def encode (u : Uuid) : Json := .string u.render

end Uuid

namespace Instant

def decode : Decoder Instant := fun d => do
  match ofText? (← Decode.text d) with
  | some t => return t
  | none => .error (.form "input contains invalid characters")

def encode (t : Instant) : Json := .string t.render

end Instant

structure ControlEnvelope where
  id : Uuid
  time : Instant
  subject : Subject
  table : String
  payload : Json
  deriving DecidableEq

namespace ControlEnvelope

/-- What an event is sent as. -/
def wrap (id : Uuid) (time : Instant) (e : ControlEvent) : ControlEnvelope :=
  ⟨id, time, e.subject, e.table, e.payload⟩

/-- The members of the event an envelope carries: those of its payload, its subject and its
table. A payload that is no object has none. -/
def eventMembers (e : ControlEnvelope) : List (String × Json) :=
  let payload := match e.payload with
    | .object members => members
    | _ => []
  Keyed.insertInto "tableAddr" (.string e.table)
    (Keyed.insertInto "subject" e.subject.encode payload)

def event (e : ControlEnvelope) : Except Fault ControlEvent :=
  ControlEvent.decode (.ofJson (.object e.eventMembers))

open Decode in
def record : Record ControlEnvelope :=
  ControlEnvelope.mk <$> .required "event_id" Uuid.decode <*> .required "ts_utc" Instant.decode
    <*> .required "subject" Subject.decode <*> .required "table_addr" text <*> .required "payload" json

def decode : Decoder ControlEnvelope := record.decode "an envelope"

def members (e : ControlEnvelope) : List (String × Json) :=
  [("event_id", e.id.encode), ("ts_utc", e.time.encode), ("subject", e.subject.encode),
    ("table_addr", .string e.table), ("payload", e.payload)]

def encode (e : ControlEnvelope) : Json := .object e.members

end ControlEnvelope

structure LiveUpdate where
  table : String
  hand : UInt64
  payload : Json
  deriving DecidableEq

namespace LiveUpdate

open Decode in
def record : Record LiveUpdate :=
  LiveUpdate.mk <$> .required "tableAddr" text <*> .required "handId" uint64 <*> .required "payload" json

def decode : Decoder LiveUpdate := record.decode "a live update"

def members (u : LiveUpdate) : List (String × Json) :=
  [("tableAddr", .string u.table), ("handId", .natural u.hand), ("payload", u.payload)]

def encode (u : LiveUpdate) : Json := .object u.members

end LiveUpdate

end TableEscrow
