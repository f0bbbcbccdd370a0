import TableEscrow.Netting
/-!
# Control events

A decision about a table. An event is written as one object, its subject beside all that it holds;
its payload is what its subject calls for beside the table.
-/

namespace TableEscrow

inductive Subject where
  | progressNetting
  | handleDispute
  | kick
  | timeout
  | tableNettingRequest
  | tableLeave
  | handComplete
  | tableNettingComplete
  deriving DecidableEq, Repr

namespace Subject

def name : Subject → String
  | .progressNetting => "ProgressNetting"
  | .handleDispute => "HandleDispute"
  | .kick => "Kick"
  | .timeout => "Timeout"
  | .tableNettingRequest => "TableNettingRequest"
  | .tableLeave => "TableLeave"
  | .handComplete => "HandComplete"
  | .tableNettingComplete => "TableNettingComplete"

def all : List Subject :=
  [.progressNetting, .handleDispute, .kick, .timeout, .tableNettingRequest, .tableLeave,
    .handComplete, .tableNettingComplete]

def known : List (String × Subject) := all.map fun s => (s.name, s)

def decode : Decoder Subject := Decode.oneOf known

def encode (s : Subject) : Json := .string s.name

end Subject

inductive ControlEvent where
  /-- Submit the settlement gathered so far. -/
  | progressNetting (table : String)
  /-- Submit the receipts held before the dispute window closes. -/
  | handleDispute (table : String) (lastHandNetted requestedHand : UInt64)
  /-- Evict the seat at a position. -/
  | kick (table : String) (position : UInt64)
  /-- Force the current hand to end. -/
  | timeout (table : String)
  /-- Start gathering a settlement up to a hand. -/
  | tableNettingRequest (table : String) (hand : UInt64)
  | tableLeave (table : String) (leaver : String) (exitHand : UInt64)
  | handComplete (table : String) (hand : UInt64)
  /-- Every active seat has signed. -/
  | tableNettingComplete (table : String) (hand : UInt64) (netting : Netting)
  deriving DecidableEq

namespace ControlEvent

def subject : ControlEvent → Subject
  | .progressNetting .. => .progressNetting
  | .handleDispute .. => .handleDispute
  | .kick .. => .kick
  | .timeout .. => .timeout
  | .tableNettingRequest .. => .tableNettingRequest
  | .tableLeave .. => .tableLeave
  | .handComplete .. => .handComplete
  | .tableNettingComplete .. => .tableNettingComplete

def table : ControlEvent → String
  | .progressNetting table => table
  | .handleDispute table _ _ => table
  | .kick table _ => table
  | .timeout table => table
  | .tableNettingRequest table _ => table
  | .tableLeave table _ _ => table
  | .handComplete table _ => table
  | .tableNettingComplete table _ _ => table

/-- The members that depend on the subject, ascending. -/
def payloadMembers : ControlEvent → List (String × Json)
  | .progressNetting _ | .timeout _ => []
  | .handleDispute _ netted requested =>
    [("lastHandNetted", .natural netted), ("lastNettingRequestHandId", .natural requested)]
  | .kick _ position => [("pos", .natural position)]
  | .tableNettingRequest _ hand | .handComplete _ hand => [("handId", .natural hand)]
  | .tableLeave _ leaver exit => [("exitHand", .natural exit), ("leaverAddr", .string leaver)]
  | .tableNettingComplete _ hand netting =>
    [("handId", .natural hand), ("netting", netting.encode)]

def payload (e : ControlEvent) : Json := .object e.payloadMembers

open Decode in
/-- The members beside the subject, in the order an array gives them. -/
def record : Subject → Record ControlEvent
  | .progressNetting => .progressNetting <$> .required "tableAddr" text
  | .handleDispute =>
    .handleDispute <$> .required "tableAddr" text <*> .required "lastHandNetted" uint64
      <*> .required "lastNettingRequestHandId" uint64
  | .kick => .kick <$> .required "tableAddr" text <*> .required "pos" size
  | .timeout => .timeout <$> .required "tableAddr" text
  | .tableNettingRequest =>
    .tableNettingRequest <$> .required "tableAddr" text <*> .required "handId" uint64
  | .tableLeave =>
    .tableLeave <$> .required "tableAddr" text <*> .required "leaverAddr" text
      <*> .required "exitHand" uint64
  | .handComplete => .handComplete <$> .required "tableAddr" text <*> .required "handId" uint64
  | .tableNettingComplete =>
    .tableNettingComplete <$> .required "tableAddr" text <*> .required "handId" uint64
      <*> .required "netting" Netting.decode

def decode : Decoder ControlEvent := fun d => do
  let (tag, rest) ← Decode.tagged "subject" "internally tagged enum ControlEvent" d
  let subject ← Decode.tag Subject.known tag
  (record subject).decode s!"a {subject.name} event" rest

/-- All that an event holds beside its subject, in the order it is declared in. -/
def fields : ControlEvent → List (String × Json)
  | .progressNetting table | .timeout table => [("tableAddr", .string table)]
  | .handleDispute table netted requested =>
    [("tableAddr", .string table), ("lastHandNetted", .natural netted),
      ("lastNettingRequestHandId", .natural requested)]
  | .kick table position => [("tableAddr", .string table), ("pos", .natural position)]
  | .tableNettingRequest table hand | .handComplete table hand =>
    [("tableAddr", .string table), ("handId", .natural hand)]
  | .tableLeave table leaver exit =>
    [("tableAddr", .string table), ("leaverAddr", .string leaver), ("exitHand", .natural exit)]
  | .tableNettingComplete table hand netting =>
    [("tableAddr", .string table), ("handId", .natural hand), ("netting", netting.encode)]

def encode (e : ControlEvent) : Json := .object (("subject", e.subject.encode) :: e.fields)

end ControlEvent

end TableEscrow
