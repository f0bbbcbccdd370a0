import TableEscrow.Daemon.Route
import TableEscrow.Daemon.Timer
import TableEscrow.Rehearsal.Backend
import TableEscrow.Rehearsal.Recorder
import TableEscrow.Rehearsal.Script
/-!
# A daemon driven by hand

A daemon on the stage whose requests, streams and timers are moved one step at a time, while its
clock stands still.
-/

namespace TableEscrow

/-- A daemon, the clock that stands still for it, and the bounds its passes are held against. -/
structure Bench where
  thresholds : Thresholds
  now : Int64
  backend : Daemon.Backend (Stage (Recorder × Bus))
  service : Daemon.Service (Stage (Recorder × Bus))
  schedule : Daemon.Schedule
  /-- The open streams, each with the table it is held to. -/
  streams : List (Option String × Receiver)

namespace Bench

def start (thresholds : Thresholds) (now : Int64) (oracle : Oracle) (stamper : Stamper)
    (configHash : Option String) (capacity : Nat) : Bench :=
  ⟨thresholds, now, Stage.backend oracle,
    ⟨.empty ⟨stamper, (.empty, .ofCapacity capacity)⟩, .initial configHash⟩, ⟨0, []⟩, []⟩

def instant (b : Bench) : Instant := ⟨b.now.toInt, 0⟩

def moment (b : Bench) : Moment := ⟨b.thresholds, b.now⟩

def bus (b : Bench) : Bus := b.service.state.publisher.sink.2

def withState (b : Bench) (state : Stage (Recorder × Bus)) : Bench :=
  { b with service := { b.service with state } }

def request (r : Daemon.HttpRequest) (b : Bench) : Except Overflow Daemon.HttpResponse × Bench :=
  let (result, service) :=
    b.service.respond b.backend b.moment b.instant 0 (Daemon.Route.ofRequest r)
  (result.map (·.seenBy r), { b with service })

/-- Opens a stream, if a request is for one; its index is the number of those before it. -/
def openStream? (r : Daemon.HttpRequest) (b : Bench) : Option Bench :=
  match Daemon.Route.ofRequest r with
  | .stream table => some { b with streams := b.streams ++ [(table, b.bus.subscribe)] }
  | _ => none

/-- The messages a stream has to tell now. -/
def readStream? (index : Nat) (b : Bench) : Option (List Message × Bench) :=
  b.streams[index]?.map fun (table, receiver) =>
    let (receptions, receiver) := b.bus.drain receiver
    (receptions.filterMap fun
      | .message m => if m.visibleTo table then some m else none
      | _ => none, { b with streams := b.streams.set index (table, receiver) })

def runTask (b : Bench) : Daemon.Task → Daemon.Service (Stage (Recorder × Bus)) →
    Bool × Daemon.Service (Stage (Recorder × Bus)) :=
  Daemon.Schedule.runTask b.backend b.moment b.instant (b.now * 1000)

def startTask (task : Daemon.Task) (interval : Nat) (b : Bench) : Bench :=
  let (schedule, service) := b.schedule.start b.runTask task interval b.service
  { b with schedule, service }

def advance (millis : Nat) (b : Bench) : Bench :=
  let (schedule, service) := b.schedule.advance b.runTask millis b.service
  { b with schedule, service }

end Bench

end TableEscrow
