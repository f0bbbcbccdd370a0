import TableEscrow.Bus.Ring
import TableEscrow.Rehearsal.Recorder
/-!
# Listeners

What stands at the end of a fan-out in a rehearsal: a recorder, one that is deaf to live updates, or
the bus with one subscriber.
-/

namespace TableEscrow

inductive Listener where
  | recorder (r : Recorder)
  | deaf (r : DeafRecorder)
  | bus (b : Bus) (r : Receiver)

namespace Listener

instance : Sink Listener where
  offer d
    | .recorder r => let (result, r) := Sink.offer d r; (result, .recorder r)
    | .deaf r => let (result, r) := Sink.offer d r; (result, .deaf r)
    | .bus b r => let (result, b) := Sink.offer d b; (result, .bus b r)

/-- The bus of a capacity, with a subscriber that has missed nothing. -/
def ofCapacity (capacity : Nat) : Listener :=
  let b := Bus.ofCapacity capacity
  .bus b b.subscribe

end Listener

end TableEscrow
