import TableEscrow.Bus.Sink
/-!
# The recorder

A sink that keeps what it accepts. It can be told to refuse one subject.
-/

namespace TableEscrow

structure Recorder where
  envelopes : List ControlEnvelope
  live : List LiveUpdate
  refused : Option Subject

namespace Recorder

def empty : Recorder := ⟨[], [], none⟩

def refuse (subject : Subject) (r : Recorder) : Recorder := { r with refused := some subject }

/-- Forgets what was accepted. -/
def clear (r : Recorder) : Recorder := { r with envelopes := [], live := [] }

def accept (d : Dispatch) (r : Recorder) : Except PublishError Unit × Recorder :=
  match d with
  | .control e =>
    if r.refused = some e.subject then (.error (.rejected e.subject e.table "queue full"), r)
    else (.ok (), { r with envelopes := r.envelopes ++ [e] })
  | .live u => (.ok (), { r with live := r.live ++ [u] })

instance : Sink Recorder := ⟨accept⟩

/-- The events of the accepted envelopes. -/
def events (r : Recorder) : Except Fault (List ControlEvent) := r.envelopes.mapM (·.event)

end Recorder

/-- A recorder without a channel for views. -/
structure DeafRecorder where
  inner : Recorder

namespace DeafRecorder

instance : Sink DeafRecorder where
  offer d r :=
    match d with
    | .control _ =>
      let (result, inner) := r.inner.accept d
      (result, ⟨inner⟩)
    | .live _ => (.error (.transport "closed"), r)

end DeafRecorder

end TableEscrow
