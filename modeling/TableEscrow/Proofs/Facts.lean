import TableEscrow.Rehearsal.Recorder
import TableEscrow.Rehearsal.Stage
/-!
# What is true of a table

`Facts` are the answers the reads of a table have. A world tells the facts if they do not change
while it is asked; it is steady if what becomes of an event does not depend on what went before
either. `Stage.tells` and `Stage.steady`: the stage is such a world, whatever is on it.
-/

namespace TableEscrow

structure Facts where
  netted : Except ReadError UInt64
  requested : Except ReadError UInt64
  requestTime : Except ReadError Int64
  hand : Except ReadError (Option Hand)
  lineup : Except ReadError ChainLineup

/-- What becomes of an event, by its subject, its table and its payload. -/
@[reducible]
def Judge : Type := Subject → String → Json → Except PublishError Unit

def Facts.reply (f : Facts) (judge : Judge) : (r : Request) → r.Reply
  | .lastHandNetted => f.netted
  | .requestedHand => f.requested
  | .requestTime => f.requestTime
  | .lastHand => f.hand
  | .lineup => f.lineup
  | .publish e => judge e.subject e.table e.payload

/-- The three counters are read, and these are they. -/
def Facts.Counts (f : Facts) (status : NettingStatus) : Prop :=
  f.netted = .ok status.lastHandNetted ∧ f.requested = .ok status.requestedHand ∧
    f.requestTime = .ok status.requestTime

namespace World

variable {σ : Type}

/-- Reads answer the facts in the states of `P`, which no request leaves; an event may fare in any way. -/
structure Tells (w : World σ) (facts : String → Facts) (P : σ → Prop) : Prop where
  stays : ∀ {s}, P s → ∀ table r, P (w.reply table r s).2
  answers : ∀ {s}, P s → ∀ table r, ∃ judge, (w.reply table r s).1 = (facts table).reply judge r

/-- Reads answer the facts in the states of `P`, which no request leaves, and events fare as judged. -/
structure Steady (w : World σ) (facts : String → Facts) (judge : Judge) (P : σ → Prop) : Prop where
  stays : ∀ {s}, P s → ∀ table r, P (w.reply table r s).2
  answers : ∀ {s}, P s → ∀ table r, (w.reply table r s).1 = (facts table).reply judge r

theorem Steady.tells {w : World σ} {facts : String → Facts} {judge : Judge} {P : σ → Prop}
    (h : w.Steady facts judge P) : w.Tells facts P :=
  ⟨h.stays, fun hs table r => ⟨judge, h.answers hs table r⟩⟩

end World

/-- A world with steady answers, about to be scanned; its registry, if it answers, names no table
twice. -/
structure Setting (judge : Judge) (σ : Type) where
  world : World σ
  facts : String → Facts
  states : σ → Prop
  steady : world.Steady facts judge states
  state : σ
  begun : states (world.tables state).2
  distinct : ∀ {tables}, (world.tables state).1 = .ok tables → tables.Nodup

/-! ## The stage -/

/-- In the states of `Q`, which no event leaves, events are accepted and refused as judged. -/
structure Sink.Judged {σ : Type} [Sink σ] (judge : Judge) (Q : σ → Prop) : Prop where
  stays : ∀ {k : σ}, Q k → ∀ envelope, Q (offer (.control envelope) k).2
  answers : ∀ {k : σ}, Q k → ∀ envelope,
    (offer (.control envelope) k).1 = judge envelope.subject envelope.table envelope.payload

namespace Recorder

def judge (refused : Option Subject) : Judge := fun subject table _ =>
  if refused = some subject then .error (.rejected subject table "queue full") else .ok ()

theorem judged (refused : Option Subject) :
    Sink.Judged (judge refused) fun r : Recorder => r.refused = refused := by
  constructor <;> intro r hr envelope <;> by_cases h : r.refused = some envelope.subject <;>
    simp_all [Sink.offer, accept, judge]

end Recorder

namespace Stage

variable {σ : Type}

def facts (s : Stage σ) (table : String) : Facts where
  netted := s.chainAnswer table .lastHandNetted (·.1.lastHandNetted)
  requested := s.chainAnswer table .requestedHand (·.1.requestedHand)
  requestTime := s.chainAnswer table .requestTime (·.1.requestTime)
  hand := s.handAnswer table
  lineup := s.chainAnswer table .lineup fun e => ⟨e.1.lastHandNetted, e.2⟩

/-- What is told of a table depends on its own entries and failures alone. -/
theorem facts_congr {s t : Stage σ} {table : String} (hchain : s.chain.get? table = t.chain.get? table)
    (hreverts : s.failingChain.contains table = t.failingChain.contains table)
    (hhands : s.hands.get? table = t.hands.get? table)
    (hresets : s.failingHands.contains table = t.failingHands.contains table) :
    s.facts table = t.facts table := by
  simp only [facts, chainAnswer, handAnswer, hchain, hreverts, hhands, hresets]

variable [Sink σ]

/-- No request changes the facts: a read is counted, and an event goes to the publisher. -/
theorem facts_reply (table : String) (r : Request) (s : Stage σ) : (s.reply table r).2.facts = s.facts := by
  cases r <;> rfl

theorem tells (s : Stage σ) : (@world σ _).Tells s.facts fun t => t.facts = s.facts where
  stays ht table r := (facts_reply table r _).trans ht
  answers {t} ht table r := by
    rw [← ht]
    cases r with
    | publish e => exact ⟨fun _ _ _ => (t.publisher.publish e).1, rfl⟩
    | lastHandNetted | requestedHand | requestTime | lastHand | lineup => exact ⟨fun _ _ _ => .ok (), rfl⟩

theorem steady (s : Stage σ) {judge : Judge} {Q : σ → Prop} (hq : Sink.Judged judge Q) :
    (@world σ _).Steady s.facts judge fun t => t.facts = s.facts ∧ Q t.publisher.sink where
  stays {t} ht table r := by
    refine ⟨(facts_reply table r t).trans ht.1, ?_⟩
    cases r with
    | publish e => exact hq.stays ht.2 _
    | lastHandNetted | requestedHand | requestTime | lastHand | lineup => exact ht.2
  answers {t} ht table r := by
    rw [← ht.1]
    cases r with
    | publish e => exact hq.answers ht.2 _
    | lastHandNetted | requestedHand | requestTime | lastHand | lineup => rfl

/-- The stage, whatever is on it, in front of a sink that judges. -/
def setting {judge : Judge} {Q : σ → Prop} (hq : Sink.Judged judge Q) (s : Stage σ)
    (hs : Q s.publisher.sink) : Setting judge (Stage σ) where
  world := world
  facts := s.facts
  states t := t.facts = s.facts ∧ Q t.publisher.sink
  steady := s.steady hq
  state := s
  begun := ⟨rfl, hs⟩
  distinct {tables} h := by
    have h : s.registryAnswer = .ok tables := h
    unfold registryAnswer at h
    split at h <;> cases h
    exact s.chain.nodup_names

end Stage

end TableEscrow
