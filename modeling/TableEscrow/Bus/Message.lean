import TableEscrow.Envelope
/-!
# Bus messages

What listeners on the bus receive. A listener who asked for one table is not shown the messages of
others.
-/

namespace TableEscrow

inductive Message where
  | heartbeat (millis : Int64)
  | control (envelope : ControlEnvelope)
  | live (update : LiveUpdate)
  | logLine (level text : String)
  deriving DecidableEq

namespace Message

/-- The name of the stream event a message is sent as. -/
def eventName : Message → String
  | .heartbeat _ => "heartbeat"
  | .control _ => "control"
  | .live _ => "live"
  | .logLine _ _ => "log"

/-- The tag of a written message. -/
def tag : Message → String
  | .heartbeat _ => "heartbeat"
  | .control _ => "control"
  | .live _ => "live"
  | .logLine _ _ => "log_line"

/-- The table a message is about. -/
def table? : Message → Option String
  | .control envelope => some envelope.table
  | .live update => some update.table
  | .heartbeat _ => none
  | .logLine _ _ => none

/-- Whether a listener sees a message. Messages about no table are for everyone. -/
def visibleTo (m : Message) (wanted : Option String) : Bool :=
  match wanted, m.table? with
  | some wanted, some table => Text.eqIgnoringCase wanted table
  | _, _ => true

def members : Message → List (String × Json)
  | .heartbeat millis => [("ts_millis", .integer millis)]
  | .control envelope => envelope.members
  | .live update => update.members
  | .logLine level text => [("level", .string level), ("msg", .string text)]

def encode (m : Message) : Json := .object (("type", .string m.tag) :: m.members)

open Decode in
/-- The members beside the tag. -/
def records : List (String × Record Message) :=
  [("heartbeat", .heartbeat <$> .required "ts_millis" int64),
    ("control", .control <$> ControlEnvelope.record),
    ("live", .live <$> LiveUpdate.record),
    ("log_line", .logLine <$> .required "level" text <*> .required "msg" text)]

def decode : Decoder Message := fun d => do
  let (tag, rest) ← Decode.tagged "type" "internally tagged enum BusMsg" d
  let record ← Decode.tag records tag
  record.decode "a message" rest

end Message

end TableEscrow
