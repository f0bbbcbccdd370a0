import TableEscrow.Bus.Message
/-!
# Sinks

A sink accepts or refuses what is dispatched to it. Sinks in a row are offered a dispatch one after
the other, and the first refusal ends it: what stands behind has seen nothing.

A `Publisher` puts each event in an envelope of its own before it is offered, so every sink in a
row holds the same envelope.
-/

namespace TableEscrow

inductive Dispatch where
  | control (envelope : ControlEnvelope)
  | live (update : LiveUpdate)
  deriving DecidableEq

inductive PublishError where
  | rejected (subject : Subject) (table reason : String)
  | transport (reason : String)
  deriving DecidableEq, Repr

namespace PublishError

def message : PublishError → String
  | .rejected subject table reason =>
    s!"publish of {subject.name} for table {table} rejected: {reason}"
  | .transport reason => s!"bus transport error: {reason}"

end PublishError

class Sink (σ : Type) where
  offer : Dispatch → σ → Except PublishError Unit × σ

namespace Sink

/-- Offers to each of some sinks until one refuses. -/
def offerInOrder {σ : Type} [Sink σ] (d : Dispatch) : List σ → Except PublishError Unit × List σ
  | [] => (.ok (), [])
  | s :: rest =>
    match offer d s with
    | (.ok _, s) =>
      let (result, rest) := offerInOrder d rest
      (result, s :: rest)
    | (.error e, s) => (.error e, s :: rest)

instance {σ : Type} [Sink σ] : Sink (List σ) := ⟨offerInOrder⟩

instance {σ τ : Type} [Sink σ] [Sink τ] : Sink (σ × τ) where
  offer d s :=
    match offer d s.1 with
    | (.ok _, first) =>
      let (result, second) := offer d s.2
      (result, first, second)
    | (.error e, first) => (.error e, first, s.2)

end Sink

/-- The id and the time of the next envelope. -/
structure Stamper where
  issued : Nat
  now : Instant

namespace Stamper

def stamp (s : Stamper) (e : ControlEvent) : ControlEnvelope × Stamper :=
  (.wrap (.ofNat s.issued) s.now e, { s with issued := s.issued + 1 })

end Stamper

structure Publisher (σ : Type) where
  stamper : Stamper
  sink : σ

namespace Publisher

variable {σ : Type} [Sink σ]

/-- Offers a dispatch as it is. -/
def offer (d : Dispatch) (p : Publisher σ) : Except PublishError Unit × Publisher σ :=
  let (result, sink) := Sink.offer d p.sink
  (result, { p with sink })

/-- Offers an event in a fresh envelope. -/
def publish (e : ControlEvent) (p : Publisher σ) : Except PublishError Unit × Publisher σ :=
  let (envelope, stamper) := p.stamper.stamp e
  let (result, sink) := Sink.offer (.control envelope) p.sink
  (result, ⟨stamper, sink⟩)

end Publisher

end TableEscrow
