import TableEscrow.Bus.Sink
import TableEscrow.Change
import TableEscrow.Oracle
/-!
# Reactions

What one change of a hand gives rise to: the rendered view of the table, and control events. A
leave is announced when a seat's request appears, a hand when it becomes complete, and a settlement
when the last signature arrives. Where the oracle does not answer, nothing is announced.

Everything a change gives rise to is sent, even when something before it was refused.
-/

namespace TableEscrow

/-- What a change gives rise to. -/
structure Reaction where
  live : Option LiveUpdate
  events : List ControlEvent

namespace Reaction

/-- A verdict that is not there counts as no. -/
def holds : Except OracleError Bool → Bool
  | .ok b => b
  | .error _ => false

/-- The events of a seat that asks to leave where none did before; a leave after a finished hand
calls for its settlement at once. -/
def leaveEvents (table : String) (hand : UInt64) (old : Option Seat) (seat : Seat) : List ControlEvent :=
  match seat.exitRequest, old.bind Seat.exitRequest with
  | some exit, none =>
    .tableLeave table seat.address exit ::
      (if exit < hand then [.tableNettingRequest table exit] else [])
  | _, _ => []

/-- The leaves of a lineup, seat by seat beside the one before. -/
def leaves (table : String) (hand : UInt64) (before : List Seat) : List Seat → List ControlEvent
  | [] => []
  | seat :: rest => leaveEvents table hand before.head? seat ++ leaves table hand before.tail rest

/-- The hand a completed record settles: one that waits has gone on to the next hand already. -/
def settledHand (after : Hand) : UInt64 :=
  if after.state = .waiting then (if after.id = 0 then 0 else after.id - 1) else after.id

/-- The events of a hand that becomes complete. -/
def completions (table : String) (v : Verdicts) (after : Hand) : List ControlEvent :=
  if holds v.completeAfter && !holds v.completeBefore then
    (if after.state = .waiting then [] else [.handComplete table after.id]) ++
      (if after.hasPendingLeave && after.netting.isNone then
        [.tableNettingRequest table (settledHand after)]
      else [])
  else []

/-- The event of a settlement that everyone has signed, once a signature was added. -/
def settlements (table : String) (v : Verdicts) (before after : Hand) : List ControlEvent :=
  match before.netting, after.netting, v.active with
  | some old, some netting, .ok active =>
    if old.signerCount < netting.signerCount && netting.isComplete active then
      [.tableNettingComplete table after.id netting]
    else []
  | _, _, _ => []

/-- Keeps the first of equal events. -/
def distinct (events : List ControlEvent) : List ControlEvent :=
  events.foldl (fun kept e => if kept.contains e then kept else kept ++ [e]) []

/-- The events of a change from one hand to another. -/
def derive (table : String) (v : Verdicts) (before after : Hand) : List ControlEvent :=
  distinct <|
    leaves table after.id before.lineup after.lineup ++ completions table v after ++
      settlements table v before after

def nothing : Reaction := ⟨none, []⟩

def view (table : String) (v : Verdicts) (after : Hand) : Option LiveUpdate :=
  match v.rendered with
  | .ok payload => some ⟨table, after.id, payload⟩
  | .error _ => none

/-- The reaction to a change the oracle has given its verdicts on; only insertions and
modifications count, and only a modification of a known hand is compared with it. -/
def ofChange (v : Verdicts) (c : HandChange) : Reaction :=
  match c.kind, c.before, c.after with
  | .insert, _, some after => ⟨view c.table v after, []⟩
  | .modify, none, some after => ⟨view c.table v after, []⟩
  | .modify, some before, some after => ⟨view c.table v after, derive c.table v before after⟩
  | _, _, _ => nothing

/-- What a processed change did. -/
structure Outcome where
  livePublished : Bool
  /-- The events published, in order. -/
  events : List ControlEvent

namespace Outcome

def encode (o : Outcome) : Json :=
  .object [("live_published", .bool o.livePublished), ("events", .array (o.events.map ControlEvent.encode))]

end Outcome

/-- Publishes events whatever becomes of those before; the first refusal is the result. -/
def publishEach {σ : Type} [Sink σ] (first : Except PublishError Unit) :
    List ControlEvent → Publisher σ → Except PublishError Unit × Publisher σ
  | [], p => (first, p)
  | e :: rest, p =>
    let (result, p) := p.publish e
    publishEach (match first with | .ok _ => result | .error _ => first) rest p

/-- Sends the view first and then the events. -/
def send {σ : Type} [Sink σ] (r : Reaction) (p : Publisher σ) : Except PublishError Outcome × Publisher σ :=
  let (first, p) :=
    match r.live with
    | some update => p.offer (.live update)
    | none => (.ok (), p)
  let (result, p) := publishEach first r.events p
  (result.map fun _ => ⟨r.live.isSome, r.events⟩, p)

/-- Asks the oracle about a change and sends what it gives rise to. -/
def run {σ : Type} [Sink σ] (o : Oracle) (c : HandChange) (p : Publisher σ) :
    Except PublishError Outcome × Publisher σ :=
  match c.after with
  | some after => send (ofChange (o.verdicts (c.before.getD after) after) c) p
  | none => send nothing p

end Reaction

end TableEscrow
