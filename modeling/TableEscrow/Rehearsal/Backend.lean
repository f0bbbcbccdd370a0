import TableEscrow.Daemon.Service
import TableEscrow.Rehearsal.Stage
/-!
# A daemon on the stage

The daemon's backend in memory: the stage, an oracle, and any sink in front of the bus.
-/

namespace TableEscrow.Stage

variable {τ : Type} [Sink τ]

def backend (oracle : Oracle) : Daemon.Backend (Stage (τ × Bus)) where
  world := world
  react c s :=
    let (result, publisher) := Reaction.run oracle c s.publisher
    (result, { s with publisher })
  onBus f s :=
    let sink := (s.publisher.sink.1, f s.publisher.sink.2)
    { s with publisher := { s.publisher with sink } }

end TableEscrow.Stage
