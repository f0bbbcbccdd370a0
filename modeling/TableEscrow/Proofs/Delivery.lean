import Mathlib.Algebra.GroupWithZero.Nat
import Mathlib.Data.List.Induction
import TableEscrow.Rehearsal.Bench
/-!
# Delivery on the bus

Messages are sent to a bus, and subscribers ask it for the next one, in any order. What a subscriber is told
when it asks follows from its place and from what was sent (`Asking.Answered`), and the next question starts
where the last one led (`Follows`): so it receives in order and at most once what was sent since it
subscribed, is told how many messages it missed, and is told that there is nothing only once it has passed all
that was sent (`Delivered`, `delivery_in_order`).
-/

namespace TableEscrow

namespace Reception

/-- How far a subscriber gets that is told this. -/
def advance : Reception → Nat
  | .message _ => 1
  | .empty => 0
  | .lagged missed => missed

def message? : Reception → Option Message
  | .message m => some m
  | .empty => none
  | .lagged _ => none

def missed : Reception → Nat
  | .lagged missed => missed
  | .message _ => 0
  | .empty => 0

end Reception

/-- A question of a subscriber: its place, how many messages had been sent by then, and what it was told. -/
structure Asking where
  place : Nat
  sent : Nat
  answer : Reception
  deriving DecidableEq

namespace Asking

/-- The place a question leads to. -/
def next (a : Asking) : Nat := a.place + a.answer.advance

/-- The place of the message that was received. -/
def received? (a : Asking) : Option Nat := a.answer.message?.map fun _ => a.place

/-- The answer is the message at the place unless more than the slots were sent since, and then it is the
number of messages up to the oldest that is left. -/
def Answered (slots : Nat) (history : List Message) (a : Asking) : Prop :=
  match a.answer with
  | .message m => history[a.place]? = some m ∧ a.place < a.sent ∧ a.sent ≤ a.place + slots
  | .empty => a.place = a.sent
  | .lagged missed => 0 < missed ∧ a.place + missed + slots = a.sent

/-- The questions that were answered one after the other. -/
def series (place sent : Nat) : List Reception → List Asking
  | [] => []
  | answer :: rest => ⟨place, sent, answer⟩ :: series (place + answer.advance) sent rest

theorem Answered.mono {slots : Nat} {history more : List Message} {a : Asking} (h : a.Answered slots history) :
    a.Answered slots (history ++ more) := by
  unfold Answered at h ⊢
  split
  · next m hm =>
    rw [hm] at h
    obtain ⟨hmessage, hsent, hslots⟩ := h
    obtain ⟨hlt, -⟩ := List.getElem?_eq_some_iff.1 hmessage
    exact ⟨by rw [List.getElem?_append_left hlt, hmessage], hsent, hslots⟩
  · next hm => rwa [hm] at h
  · next hm => rwa [hm] at h

end Asking

/-- Questions that lead from one place to another. -/
inductive Follows : Nat → List Asking → Nat → Prop
  | done (place : Nat) : Follows place [] place
  | ask {a : Asking} {rest : List Asking} {last : Nat} (after : Follows a.next rest last) :
      Follows a.place (a :: rest) last

namespace Follows

variable {first middle last slots : Nat} {askings more : List Asking} {history : List Message}

theorem append (h : Follows first askings middle) (hmore : Follows middle more last) :
    Follows first (askings ++ more) last := by
  induction h with
  | done => exact hmore
  | ask _ ih => exact .ask (ih hmore)

theorem le (h : Follows first askings last) : first ≤ last := by
  induction h with
  | done => exact Nat.le_refl _
  | ask _ ih => exact Nat.le_trans (Nat.le_add_right _ _) ih

theorem series (place sent : Nat) (answers : List Reception) :
    Follows place (Asking.series place sent answers) (place + (answers.map Reception.advance).sum) := by
  induction answers generalizing place with
  | nil => exact .done place
  | cons answer rest ih =>
    have hrest := ih (place + answer.advance)
    rw [Nat.add_assoc, ← List.sum_cons, ← List.map_cons] at hrest
    exact .ask (a := ⟨place, sent, answer⟩) hrest

/-- Every place is passed by one of the questions. -/
theorem exists_asking (h : Follows first askings last) {p : Nat} (hfirst : first ≤ p) (hlast : p < last) :
    ∃ a ∈ askings, a.place ≤ p ∧ p < a.next := by
  induction h with
  | done => omega
  | @ask a rest last after ih =>
    rcases Nat.lt_or_ge p a.next with hp | hp
    · exact ⟨a, List.mem_cons_self, hfirst, hp⟩
    · obtain ⟨b, hb, hplace⟩ := ih hp hlast
      exact ⟨b, List.mem_cons_of_mem _ hb, hplace⟩

end Follows

/-! ## What is told -/

/-- The places of the messages that were received. -/
def places (askings : List Asking) : List Nat := askings.filterMap Asking.received?

def received (askings : List Asking) : List Message := askings.filterMap (·.answer.message?)

/-- How many messages it was told it missed, all in all. -/
def missed (askings : List Asking) : Nat := (askings.map (·.answer.missed)).sum

theorem places_cons (a : Asking) (rest : List Asking) : places (a :: rest) = a.received?.toList ++ places rest := by
  rw [places, List.filterMap_cons]
  cases a.received? <;> rfl

theorem received_cons (a : Asking) (rest : List Asking) :
    received (a :: rest) = a.answer.message?.toList ++ received rest := by
  rw [received, List.filterMap_cons]
  cases a.answer.message? <;> rfl

theorem missed_cons (a : Asking) (rest : List Asking) : missed (a :: rest) = a.answer.missed + missed rest := by
  rw [missed, List.map_cons, List.sum_cons, missed]

theorem received_eq {slots : Nat} {askings : List Asking} {history : List Message}
    (h : ∀ a ∈ askings, a.Answered slots history) :
    (received askings).map some = (places askings).map (history[·]?) := by
  induction askings with
  | nil => rfl
  | cons a rest ih =>
    have hrest := ih fun b hb => h b (List.mem_cons_of_mem _ hb)
    have ha := h a List.mem_cons_self
    rw [received_cons, places_cons, List.map_append, List.map_append, hrest, Asking.received?]
    unfold Asking.Answered at ha
    cases hanswer : a.answer with
    | message m =>
      rw [hanswer] at ha
      simp [Reception.message?, ha.1]
    | empty | lagged => rfl

theorem received_append (askings more : List Asking) : received (askings ++ more) = received askings ++ received more :=
  List.filterMap_append

theorem received_series (place sent : Nat) (answers : List Reception) :
    received (Asking.series place sent answers) = answers.filterMap Reception.message? := by
  induction answers generalizing place with
  | nil => rfl
  | cons answer rest ih =>
    rw [Asking.series, received_cons, ih, List.filterMap_cons]
    cases answer.message? <;> rfl

namespace Follows

variable {first last slots : Nat} {askings : List Asking} {history : List Message}

theorem places_ascending (h : Follows first askings last) :
    (places askings).Pairwise (· < ·) ∧ ∀ p ∈ places askings, first ≤ p ∧ p < last := by
  induction h with
  | done => exact ⟨.nil, nofun⟩
  | @ask a rest last after ih =>
    obtain ⟨hpairs, hwithin⟩ := ih
    have hle := after.le
    have hplace : a.place ≤ a.next := Nat.le_add_right _ _
    rw [places_cons, Asking.received?]
    cases hanswer : a.answer with
    | message m =>
      have hnext : a.next = a.place + 1 := by rw [Asking.next, hanswer, Reception.advance]
      simp only [Reception.message?, Option.map_some, Option.toList, List.singleton_append]
      refine ⟨.cons (fun p hp => ?_) hpairs, fun p hp => ?_⟩
      · have := hwithin p hp
        omega
      · rcases List.mem_cons.1 hp with rfl | hp
        · omega
        · have := hwithin p hp
          omega
    | empty | lagged =>
      refine ⟨hpairs, fun p hp => ?_⟩
      have := hwithin p hp
      omega

theorem counted (h : Follows first askings last) : first + (received askings).length + missed askings = last := by
  induction h with
  | done => rfl
  | @ask a rest last after ih =>
    rw [received_cons, missed_cons, List.length_append]
    rw [Asking.next] at ih
    cases hanswer : a.answer <;>
      simp only [hanswer, Reception.advance, Reception.message?, Reception.missed, Option.toList, List.length_cons,
        List.length_nil] at ih ⊢ <;> omega

/-- Who is never further behind than the slots receives all there is. -/
theorem received_all (h : Follows first askings last) (hanswered : ∀ a ∈ askings, a.Answered slots history)
    (hbehind : ∀ a ∈ askings, a.sent ≤ a.place + slots) :
    received askings = (history.drop first).take (last - first) := by
  induction h with
  | done => simp [received]
  | @ask a rest last after ih =>
    have hrest := ih (fun b hb => hanswered b (List.mem_cons_of_mem _ hb))
      (fun b hb => hbehind b (List.mem_cons_of_mem _ hb))
    have ha := hanswered a List.mem_cons_self
    have hle := after.le
    rw [received_cons, hrest]
    unfold Asking.Answered at ha
    rw [Asking.next] at hle ⊢
    cases hanswer : a.answer with
    | message m =>
      rw [hanswer] at ha hle
      obtain ⟨hlt, rfl⟩ := List.getElem?_eq_some_iff.1 ha.1
      have hlast : last - a.place = last - (a.place + 1) + 1 := by
        simp only [Reception.advance] at hle
        omega
      rw [List.drop_eq_getElem_cons hlt, hlast, List.take_succ_cons]
      rfl
    | empty => rfl
    | lagged k =>
      rw [hanswer] at ha
      have := hbehind a List.mem_cons_self
      omega

end Follows

/-! ## What is kept -/

namespace Bus

/-- A subscriber that is told nothing has nothing to receive. -/
theorem drain_of_empty {b : Bus} {r : Receiver} (h : (b.receive r).1 = .empty) : b.drain r = ([], r) := by
  by_cases hbehind : r.next < b.oldest
  · simp [receive, hbehind] at h
  · have hmax : max r.next b.oldest = r.next := by omega
    cases hm : b.kept[r.next - b.oldest]? with
    | some m => simp [receive, hbehind, hm] at h
    | none =>
      have hdrop : b.kept.drop (r.next - b.oldest) = [] := List.drop_eq_nil_iff.2 (List.getElem?_eq_none_iff.1 hm)
      simp [drain, hbehind, hmax, hdrop]

/-- What a subscriber can receive now is what it receives first, and what it can receive then. -/
theorem drain_of_receive {b : Bus} {r : Receiver} (h : (b.receive r).1 ≠ .empty) :
    b.drain r = ((b.receive r).1 :: (b.drain (b.receive r).2).1, (b.drain (b.receive r).2).2) := by
  by_cases hbehind : r.next < b.oldest
  · simp [receive, drain, hbehind, Nat.max_eq_right (Nat.le_of_lt hbehind)]
  · have hmax : max r.next b.oldest = r.next := by omega
    have hmax' : max (r.next + 1) b.oldest = r.next + 1 := by omega
    cases hm : b.kept[r.next - b.oldest]? with
    | none => simp [receive, hbehind, hm] at h
    | some m =>
      obtain ⟨hlt, hm⟩ := List.getElem?_eq_some_iff.1 hm
      have hdrop : b.kept.drop (r.next - b.oldest) = m :: b.kept.drop (r.next + 1 - b.oldest) := by
        rw [List.drop_eq_getElem_cons hlt, hm, Nat.sub_add_comm (Nat.le_of_not_lt hbehind)]
      have hnear : ¬ r.next + 1 < b.oldest := by omega
      simp [receive, drain, hbehind, hmax, hmax', hdrop, hnear, List.getElem?_eq_getElem hlt, hm]
      omega

/-- To receive everything is to receive until there is nothing. -/
theorem drain_eq (b : Bus) (r : Receiver) : b.drain r =
    if (b.receive r).1 = .empty then ([], r)
    else ((b.receive r).1 :: (b.drain (b.receive r).2).1, (b.drain (b.receive r).2).2) := by
  split
  · next h => exact drain_of_empty h
  · next h => exact drain_of_receive h

/-- The bus has been sent these messages, and keeps the newest. -/
structure Holds (b : Bus) (slots : Nat) (history : List Message) : Prop where
  size : b.slots = slots
  sent : b.sent = history.length
  kept : b.kept = history.drop (history.length - slots)

variable {b : Bus} {slots : Nat} {history : List Message} {r : Receiver}

theorem holds_ofCapacity (capacity : Nat) : (ofCapacity capacity).Holds (max capacity 1).nextPowerOfTwo [] :=
  ⟨rfl, rfl, by simp [ofCapacity]⟩

namespace Holds

theorem send (h : b.Holds slots history) (m : Message) :
    (b.send m).Holds slots (history ++ [m]) where
  size := h.size
  sent := by simp [Bus.send, h.sent]
  kept := by
    have hsplit : (history ++ [m]).drop (history.length - slots) = b.kept ++ [m] := by
      rw [h.kept, List.drop_append_of_le_length (Nat.sub_le _ _)]
    rw [Bus.send, ← hsplit, List.drop_drop, List.length_drop, h.size]
    refine congrArg (List.drop · (history ++ [m])) ?_
    simp only [List.length_append, List.length_singleton]
    omega

theorem oldest (h : b.Holds slots history) : b.oldest = history.length - slots := by
  rw [Bus.oldest, h.sent, h.kept, List.length_drop]
  omega

theorem kept_from (h : b.Holds slots history) {place : Nat} (hplace : history.length ≤ place + slots) :
    b.kept.drop (place - b.oldest) = history.drop place := by
  rw [h.kept, h.oldest, List.drop_drop]
  refine congrArg (List.drop · history) ?_
  omega

/-- A subscriber is told what is right at its place, and goes on from where that leads. -/
theorem receive (h : b.Holds slots history) (hr : r.next ≤ history.length) :
    Asking.Answered slots history ⟨r.next, b.sent, (b.receive r).1⟩ ∧
      (b.receive r).2.next = r.next + (b.receive r).1.advance ∧ (b.receive r).2.next ≤ history.length := by
  by_cases hbehind : r.next < b.oldest
  · simp only [Bus.receive, hbehind, if_true, Asking.Answered, Reception.advance]
    rw [h.oldest] at hbehind ⊢
    rw [h.sent]
    omega
  · have hnear : history.length ≤ r.next + slots := by
      rw [h.oldest] at hbehind
      omega
    have hfirst : b.kept[r.next - b.oldest]? = history[r.next]? := by
      rw [← List.head?_drop, h.kept_from hnear, List.head?_drop]
    simp only [Bus.receive, hbehind, if_false, hfirst]
    cases hm : history[r.next]? with
    | none =>
      have hend : history.length ≤ r.next := List.getElem?_eq_none_iff.1 hm
      simp only [Asking.Answered, Reception.advance, h.sent]
      omega
    | some m =>
      obtain ⟨hlt, -⟩ := List.getElem?_eq_some_iff.1 hm
      simp only [Asking.Answered, Reception.advance, h.sent]
      exact ⟨⟨hm, hlt, hnear⟩, trivial, hlt⟩

/-- What a subscriber is told that asks until there is nothing left is right, one place after the other, and leads
past everything that was sent. -/
theorem drain (h : b.Holds slots history) (hr : r.next ≤ history.length) :
    (∀ a ∈ Asking.series r.next b.sent (b.drain r).1, a.Answered slots history) ∧
      (b.drain r).2.next = r.next + ((b.drain r).1.map Reception.advance).sum ∧
      (b.drain r).2.next = history.length := by
  -- Every answer but the last one leads on, and the last one is told at the end only.
  induction hleft : history.length - r.next using Nat.strongRecOn generalizing r with
  | ind left ih =>
    obtain ⟨hanswered, hnext, hwithin⟩ := h.receive hr
    by_cases hempty : (b.receive r).1 = .empty
    · rw [hempty] at hanswered
      rw [drain_of_empty hempty]
      exact ⟨nofun, rfl, hanswered.trans h.sent⟩
    · have hadvance : 0 < (b.receive r).1.advance := by
        unfold Asking.Answered at hanswered
        cases hanswer : (b.receive r).1 with
        | message m => exact Nat.one_pos
        | empty => exact absurd hanswer hempty
        | lagged k =>
          rw [hanswer] at hanswered
          exact hanswered.1
      obtain ⟨hall, hlast, hend⟩ := ih _ (by omega) hwithin rfl
      rw [drain_of_receive hempty]
      refine ⟨fun a ha => ?_, ?_, hend⟩
      · rcases List.mem_cons.1 ha with rfl | ha
        · exact hanswered
        · exact hall a (hnext ▸ ha)
      · rw [hlast, hnext, List.map_cons, List.sum_cons, Nat.add_assoc]

end Holds

end Bus

/-! ## Subscribers -/

/-- A subscriber, the number of messages that had been sent when it subscribed, what it has asked, and what
its stream has shown. -/
structure Subscriber where
  since : Nat
  wanted : Option String
  receiver : Receiver
  askings : List Asking
  shown : List Message

namespace Subscriber

/-- What a stream shows of what it is told. -/
def visible (wanted : Option String) (answers : List Reception) : List Message :=
  (answers.filterMap Reception.message?).filter (·.visibleTo wanted)

/-- Keeps what the bus told. -/
def hear (sent : Nat) (told : List Reception × Receiver) (l : Subscriber) : Subscriber :=
  { l with
    receiver := told.2
    askings := l.askings ++ Asking.series l.receiver.next sent told.1
    shown := l.shown ++ visible l.wanted told.1 }

/-- The questions of a subscriber led it from where it subscribed to its place, and were answered right. -/
structure Keeps (l : Subscriber) (slots : Nat) (history : List Message) : Prop where
  follows : Follows l.since l.askings l.receiver.next
  answered : ∀ a ∈ l.askings, a.Answered slots history
  reached : l.receiver.next ≤ history.length
  shown : l.shown = (received l.askings).filter (·.visibleTo l.wanted)

namespace Keeps

variable {l : Subscriber} {slots : Nat} {history : List Message}

theorem mono (h : l.Keeps slots history) (more : List Message) : l.Keeps slots (history ++ more) where
  follows := h.follows
  answered := fun a ha => (h.answered a ha).mono
  reached := by
    rw [List.length_append]
    exact Nat.le_trans h.reached (Nat.le_add_right _ _)
  shown := h.shown

theorem hear (h : l.Keeps slots history) {sent : Nat} {told : List Reception × Receiver}
    (hanswered : ∀ a ∈ Asking.series l.receiver.next sent told.1, a.Answered slots history)
    (hnext : told.2.next = l.receiver.next + (told.1.map Reception.advance).sum)
    (hreached : told.2.next ≤ history.length) :
    (l.hear sent told).Keeps slots history where
  follows := by
    have hseries := Follows.series l.receiver.next sent told.1
    rw [← hnext] at hseries
    exact h.follows.append hseries
  answered := fun a ha => (List.mem_append.1 ha).elim (h.answered a) (hanswered a)
  reached := hreached
  shown := by
    simp only [Subscriber.hear, h.shown, visible, received_append, received_series, List.filter_append]

end Keeps

end Subscriber

/-- What a subscriber was told of the messages that were sent, on a bus of some slots. -/
structure Delivered (slots : Nat) (history : List Message) (l : Subscriber) : Prop where
  /-- It asked first where it subscribed, and then where the last answer led. -/
  follows : Follows l.since l.askings l.receiver.next
  /-- In the order they were sent, and none twice. -/
  ascending : (places l.askings).Pairwise (· < ·)
  /-- Nothing from before it subscribed. -/
  within : ∀ p ∈ places l.askings, l.since ≤ p ∧ p < l.receiver.next
  messages : (received l.askings).map some = (places l.askings).map (history[·]?)
  reached : l.receiver.next ≤ history.length
  /-- What it was told it missed is what it did not receive. -/
  counted : l.since + (received l.askings).length + missed l.askings = l.receiver.next
  /-- A message is missed once as many later ones as there are slots had been sent. -/
  skipped : ∀ p, l.since ≤ p → p < l.receiver.next → p ∉ places l.askings →
    ∃ a ∈ l.askings, a.place ≤ p ∧ p < a.next ∧ p + slots < a.sent
  complete : (∀ a ∈ l.askings, a.sent ≤ a.place + slots) →
    received l.askings = (history.drop l.since).take (l.receiver.next - l.since)
  /-- Who never falls behind the slots and has gone to the end has every message. -/
  everything : (∀ a ∈ l.askings, a.sent ≤ a.place + slots) → l.receiver.next = history.length →
    received l.askings = history.drop l.since
  /-- Each answer is right where it was given. So it is told that there is nothing only after all that had been sent,
  and that it missed messages only if they were no longer held. -/
  answered : ∀ a ∈ l.askings, a.Answered slots history
  shown : l.shown = (received l.askings).filter (·.visibleTo l.wanted)

theorem Subscriber.Keeps.delivered {l : Subscriber} {slots : Nat} {history : List Message} (h : l.Keeps slots history) :
    Delivered slots history l where
  follows := h.follows
  ascending := h.follows.places_ascending.1
  within := h.follows.places_ascending.2
  messages := received_eq h.answered
  reached := h.reached
  counted := h.follows.counted
  skipped := fun p hfirst hlast hp => by
    obtain ⟨a, ha, hplace, hnext⟩ := h.follows.exists_asking hfirst hlast
    refine ⟨a, ha, hplace, hnext, ?_⟩
    have hanswered := h.answered a ha
    unfold Asking.Answered at hanswered
    rw [Asking.next] at hnext
    cases hanswer : a.answer with
    | message m =>
      rw [hanswer, Reception.advance] at hnext
      obtain rfl : p = a.place := by omega
      exact absurd (List.mem_filterMap.2 ⟨a, ha, by rw [Asking.received?, hanswer]; rfl⟩) hp
    | empty =>
      rw [hanswer, Reception.advance] at hnext
      omega
    | lagged k =>
      rw [hanswer] at hanswered
      rw [hanswer, Reception.advance] at hnext
      omega
  complete := h.follows.received_all h.answered
  everything := fun hbehind hend => by
    rw [h.follows.received_all h.answered hbehind, hend]
    exact List.take_of_length_le (Nat.le_of_eq List.length_drop)
  answered := h.answered
  shown := h.shown

/-- A bus and those who listen to it. -/
structure Audience where
  bus : Bus
  subscribers : List Subscriber

namespace Audience

/-- What is done to a bus, by whichever hand it is reached. -/
inductive Act where
  | subscribe (wanted : Option String)
  | send (m : Message)
  | publish (d : Dispatch)
  | log (level text : String)
  /-- A subscriber asks for the next message. -/
  | receive (index : Nat)
  /-- A stream asks for everything there is. -/
  | read (index : Nat)

/-- The message an act sends. -/
def Act.message? : Act → Option Message
  | .send m => some m
  | .publish (.control envelope) => some (.control envelope)
  | .publish (.live update) => some (.live update)
  | .log level text => some (.logLine level text)
  | .subscribe _ | .receive _ | .read _ => none

def act (s : Audience) : Act → Audience
  | .subscribe wanted => { s with subscribers := s.subscribers ++ [⟨s.bus.sent, wanted, s.bus.subscribe, [], []⟩] }
  | .send m => { s with bus := s.bus.send m }
  | .publish d => { s with bus := (Sink.offer d s.bus).2 }
  | .log level text => { s with bus := s.bus.log level text }
  | .receive index =>
    { s with subscribers := s.subscribers.modify index fun l =>
        l.hear s.bus.sent ([(s.bus.receive l.receiver).1], (s.bus.receive l.receiver).2) }
  | .read index =>
    { s with subscribers := s.subscribers.modify index fun l => l.hear s.bus.sent (s.bus.drain l.receiver) }

/-- A bus of some capacity, after some acts. -/
def run (capacity : Nat) (acts : List Act) : Audience := acts.foldl act ⟨.ofCapacity capacity, []⟩

/-- The messages that were sent, in order. -/
def sent (acts : List Act) : List Message := acts.filterMap Act.message?

/-- The bus holds what was sent, and every subscriber was told what was right. -/
structure Holds (s : Audience) (slots : Nat) (history : List Message) : Prop where
  bus : s.bus.Holds slots history
  each : ∀ l ∈ s.subscribers, l.Keeps slots history

variable {s : Audience} {slots : Nat} {history : List Message}

theorem Holds.sending (h : s.Holds slots history) (m : Message) :
    Holds { s with bus := s.bus.send m } slots (history ++ [m]) :=
  ⟨h.bus.send m, fun l hl => (h.each l hl).mono [m]⟩

theorem Holds.asking (h : s.Holds slots history) (index : Nat) {f : Subscriber → Subscriber}
    (hf : ∀ l, l.Keeps slots history → (f l).Keeps slots history) :
    Holds { s with subscribers := s.subscribers.modify index f } slots history := by
  refine ⟨h.bus, fun l hl => ?_⟩
  obtain ⟨i, hi⟩ := List.mem_iff_getElem?.1 hl
  rw [List.getElem?_modify] at hi
  obtain ⟨l', hl', rfl⟩ := Option.map_eq_some_iff.1 hi
  have hkeeps := h.each l' (List.mem_of_getElem? hl')
  split
  · exact hf l' hkeeps
  · exact hkeeps

theorem Holds.act (h : s.Holds slots history) (a : Act) : (s.act a).Holds slots (history ++ a.message?.toList) := by
  cases a with
  | subscribe wanted =>
    rw [Act.message?, Option.toList, List.append_nil]
    refine ⟨h.bus, fun l hl => ?_⟩
    rcases List.mem_append.1 hl with hl | hl
    · exact h.each l hl
    · obtain rfl := List.mem_singleton.1 hl
      exact ⟨.done _, nofun, Nat.le_of_eq h.bus.sent, rfl⟩
  | send m => exact h.sending m
  | publish d => cases d <;> exact h.sending _
  | log level text => exact h.sending _
  | receive index =>
    rw [Act.message?, Option.toList, List.append_nil]
    refine h.asking index fun l hl => ?_
    obtain ⟨hanswered, hnext, hreached⟩ := h.bus.receive hl.reached
    exact hl.hear (by simpa [Asking.series] using hanswered) (by simpa using hnext) hreached
  | read index =>
    rw [Act.message?, Option.toList, List.append_nil]
    refine h.asking index fun l hl => ?_
    obtain ⟨hanswered, hnext, hreached⟩ := h.bus.drain hl.reached
    exact hl.hear hanswered hnext (Nat.le_of_eq hreached)

theorem holds_run (capacity : Nat) (acts : List Act) :
    (run capacity acts).Holds (max capacity 1).nextPowerOfTwo (sent acts) := by
  induction acts using List.reverseRecOn with
  | nil => exact ⟨Bus.holds_ofCapacity capacity, nofun⟩
  | append_singleton acts a ih =>
    have hsent : sent (acts ++ [a]) = sent acts ++ a.message?.toList := by
      simp only [sent, List.filterMap_append, List.filterMap_cons, List.filterMap_nil]
      cases a.message? <;> rfl
    rw [run, List.foldl_append, hsent]
    exact ih.act a

theorem visible_eq (wanted : Option String) (answers : List Reception) :
    Subscriber.visible wanted answers = answers.filterMap fun
      | .message m => if m.visibleTo wanted then some m else none
      | _ => none := by
  induction answers with
  | nil => rfl
  | cons answer rest ih =>
    rw [List.filterMap_cons, ← ih, Subscriber.visible, List.filterMap_cons]
    cases answer with
    | message m =>
      simp only [Reception.message?, List.filter_cons]
      split <;> rfl
    | empty | lagged => rfl

theorem readStream?_eq (b : Bench) (index : Nat) :
    b.readStream? index = b.streams[index]?.map fun (wanted, receiver) =>
      (Subscriber.visible wanted (b.bus.drain receiver).1,
        { b with streams := b.streams.set index (wanted, (b.bus.drain receiver).2) }) := by
  simp only [visible_eq]
  rfl

theorem visibleTo_iff (wanted : String) (m : Message) :
    m.visibleTo (some wanted) = true ↔ (∃ millis, m = .heartbeat millis) ∨ (∃ level text, m = .logLine level text) ∨
      ∃ table, m.table? = some table ∧ wanted.toList.map Char.toLower = table.toList.map Char.toLower := by
  cases m <;> simp [Message.visibleTo, Message.table?, Text.eqIgnoringCase]

/-- Whatever is done to a bus, every publish succeeds, and every subscriber receives what was sent since it
subscribed, in order and at most once, missing only what the slots no longer held. It is told that there is nothing
only once it has passed all that was sent, and who receives until then has passed all. A stream shows what is
received of heartbeats, of lines of the log and of the table it is held to. -/
theorem delivery_in_order (capacity : Nat) (acts : List Act) :
    let s := run capacity acts
    (∀ d, (Sink.offer d s.bus).1 = .ok ()) ∧ s.bus.sent = (sent acts).length ∧
    (∀ l ∈ s.subscribers, Delivered (max capacity 1).nextPowerOfTwo (sent acts) l ∧
      (s.bus.drain l.receiver).2.next = (sent acts).length) ∧
    (∀ (b : Bus) r, b.drain r = if (b.receive r).1 = .empty then ([], r)
      else ((b.receive r).1 :: (b.drain (b.receive r).2).1, (b.drain (b.receive r).2).2)) ∧
    (∀ (b : Bench) index, b.readStream? index = b.streams[index]?.map fun (wanted, receiver) =>
      (Subscriber.visible wanted (b.bus.drain receiver).1,
        { b with streams := b.streams.set index (wanted, (b.bus.drain receiver).2) })) ∧
    ∀ wanted m, Message.visibleTo m (some wanted) = true ↔
      (∃ millis, m = .heartbeat millis) ∨ (∃ level text, m = .logLine level text) ∨
        ∃ table, m.table? = some table ∧ wanted.toList.map Char.toLower = table.toList.map Char.toLower := by
  have hholds := holds_run capacity acts
  refine ⟨fun d => ?_, hholds.bus.sent, fun l hl => ?_, Bus.drain_eq, readStream?_eq, visibleTo_iff⟩
  · cases d <;> rfl
  · have hkeeps := hholds.each l hl
    exact ⟨hkeeps.delivered, (hholds.bus.drain hkeeps.reached).2.2⟩

/-- On two slots the third message takes the place of the first. Who asks in time has all three; who asks late misses
the first, and its stream leaves out the view of another table. Both are told that there is nothing at the end only. -/
theorem delivery_in_order_two_slots :
    let acts : List Act :=
      [.subscribe none, .subscribe (some "0xa"), .log "WARN" "a", .receive 0, .log "WARN" "b",
        .publish (.live ⟨"0xb", 7, .null⟩), .receive 1, .read 1, .receive 1, .read 0, .receive 0]
    let a := Message.logLine "WARN" "a"
    let b := Message.logLine "WARN" "b"
    let c := Message.live ⟨"0xb", 7, .null⟩
    ∃ early ∈ (run 2 acts).subscribers, ∃ late ∈ (run 2 acts).subscribers,
      early.askings = [⟨0, 1, .message a⟩, ⟨1, 3, .message b⟩, ⟨2, 3, .message c⟩, ⟨3, 3, .empty⟩] ∧
      late.askings = [⟨0, 3, .lagged 1⟩, ⟨1, 3, .message b⟩, ⟨2, 3, .message c⟩, ⟨3, 3, .empty⟩] ∧
      received early.askings = [a, b, c] ∧ late.shown = [b] ∧
      Delivered 2 (sent acts) early ∧ Delivered 2 (sent acts) late := by
  intro acts a b c
  have htold : (run 2 acts).subscribers.map (fun l => (l.since, l.receiver.next, l.askings, l.shown)) =
      [(0, 3, [⟨0, 1, .message a⟩, ⟨1, 3, .message b⟩, ⟨2, 3, .message c⟩, ⟨3, 3, .empty⟩], [a, b, c]),
        (0, 3, [⟨0, 3, .lagged 1⟩, ⟨1, 3, .message b⟩, ⟨2, 3, .message c⟩, ⟨3, 3, .empty⟩], [b])] := by
    decide +kernel
  obtain ⟨early, hearly, htoldEarly⟩ := List.mem_map.1 (htold ▸ List.mem_cons_self)
  obtain ⟨late, hlate, htoldLate⟩ := List.mem_map.1 (htold ▸ List.mem_cons_of_mem _ List.mem_cons_self)
  simp only [Prod.mk.injEq] at htoldEarly htoldLate
  obtain ⟨hsince, hnext, hasked, -⟩ := htoldEarly
  obtain ⟨-, -, hasked', hshown⟩ := htoldLate
  have hslots : (max 2 1).nextPowerOfTwo = 2 := by decide +kernel
  have hdelivered := (delivery_in_order 2 acts).2.2.1
  rw [hslots] at hdelivered
  -- The early one never falls behind the two slots and has come to the end, so it has everything.
  have hbehind : ∀ x ∈ early.askings, x.sent ≤ x.place + 2 := by
    rw [hasked]
    decide
  have hall : received early.askings = (sent acts).drop early.since :=
    (hdelivered early hearly).1.everything hbehind hnext
  rw [hsince] at hall
  exact ⟨early, hearly, late, hlate, hasked, hasked', hall, hshown, (hdelivered early hearly).1,
    (hdelivered late hlate).1⟩

end Audience

end TableEscrow
