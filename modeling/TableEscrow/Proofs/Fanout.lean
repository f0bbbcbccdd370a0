import Mathlib.Data.List.Sort
import Mathlib.Data.Multiset.Filter
import Mathlib.Logic.Relation
import TableEscrow.Bus.Sink
/-!
# Calls on a row of sinks

A call is offered to the sinks of a row one after the other, and any number of calls may be on their
way at the same time: a call begins, a sink answers a call, or a call goes on to the next sink, in any
order. What each sink was offered is kept beside it, with its answers.

Whatever the sinks answer, the log of each has of every call just what the call has come to there
(`Consistent.logged`), so sinks in front hold what those behind them hold (`Consistent.held_le`). A call
that nothing comes between is `Sink.offerInOrder` (`exists_finished`). What every answer keeps of a sink,
all sinks of a row keep (`sinkwise`).
-/

namespace TableEscrow

open Relation

/-- What a call offered to a sink, and the sink's answer. -/
structure Offer where
  call : Nat
  dispatch : Dispatch
  answer : Except PublishError Unit

namespace Offer

def isAccepted (o : Offer) : Bool :=
  match o.answer with
  | .ok _ => true
  | .error _ => false

/-- What a sink holds that was offered this: everything it accepted. -/
def held (log : List Offer) : List Dispatch := (log.filter isAccepted).map (·.dispatch)

theorem held_concat (log : List Offer) (o : Offer) :
    held (log ++ [o]) = held log ++
      match o.answer with
      | .ok _ => [o.dispatch]
      | .error _ => [] := by
  obtain ⟨call, dispatch, answer⟩ := o
  rw [held, List.filter_append, List.map_append]
  cases answer <;> rfl

end Offer

def Dispatch.envelope? : Dispatch → Option ControlEnvelope
  | .control e => some e
  | .live _ => none

/-- Sinks whose contents are the envelopes they have accepted. -/
structure Sink.Keeps {σ : Type} [Sink σ] (contents : σ → List ControlEnvelope) (other : σ → σ → Prop) : Prop where
  offer : ∀ d s, contents (Sink.offer d s).2 =
    contents s ++ match (Sink.offer d s).1 with
      | .ok _ => d.envelope?.toList
      | .error _ => []
  other : ∀ s s', other s s' → contents s' = contents s

/-- A call that so many sinks have let pass, and what the next one has answered. -/
structure Call where
  dispatch : Dispatch
  passed : Nat
  answer : Option (Except PublishError Unit)

namespace Call

def begun (d : Dispatch) : Call := ⟨d, 0, none⟩

def answered (a : Except PublishError Unit) (c : Call) : Call := { c with answer := some a }

def goOn (c : Call) : Call := ⟨c.dispatch, c.passed + 1, none⟩

/-- What a sink has answered. -/
def answerAt? (c : Call) (k : Nat) : Option (Except PublishError Unit) :=
  if k < c.passed then some (.ok ()) else if k = c.passed then c.answer else none

/-- What a call on so many sinks returned. -/
def result? (c : Call) (width : Nat) : Option (Except PublishError Unit) :=
  match c.answer with
  | some (.error e) => some (.error e)
  | some (.ok _) => none
  | none => if c.passed = width then some (.ok ()) else none

/-- What a sink was offered by a call of this number. -/
def offersTo (c : Call) (i k : Nat) : List Offer := ((c.answerAt? k).map (⟨i, c.dispatch, ·⟩)).toList

variable {c : Call} {k width : Nat}

theorem answerAt?_of_lt (h : k < c.passed) : c.answerAt? k = some (.ok ()) := if_pos h

theorem answerAt?_begun (d : Dispatch) (k : Nat) : (begun d).answerAt? k = none :=
  (if_neg (Nat.not_lt_zero k)).trans (ite_self none)

theorem answerAt?_passed (c : Call) : c.answerAt? c.passed = c.answer := by
  simp [answerAt?]

theorem answerAt?_of_gt (h : c.passed < k) : c.answerAt? k = none := by
  rw [answerAt?, if_neg (by omega), if_neg (by omega)]

theorem answerAt?_answered_other (a : Except PublishError Unit) (h : k ≠ c.passed) :
    (c.answered a).answerAt? k = c.answerAt? k := by
  simp [answerAt?, answered, h]

/-- Going on changes nothing of what sinks have answered. -/
theorem answerAt?_goOn (h : c.answer = some (.ok ())) (k : Nat) : c.goOn.answerAt? k = c.answerAt? k := by
  rcases Nat.lt_trichotomy k c.passed with hk | rfl | hk
  · rw [answerAt?_of_lt hk, answerAt?_of_lt (Nat.lt_succ_of_lt hk)]
  · rw [answerAt?_passed, h, answerAt?_of_lt (Nat.lt_succ_self _)]
  · rw [answerAt?_of_gt hk, answerAt?, if_neg (Nat.not_lt.2 hk : ¬ k < c.goOn.passed)]
    exact ite_self none

theorem answerAt?_eq_error {e : PublishError} (h : c.answerAt? k = some (.error e)) :
    k = c.passed ∧ c.answer = some (.error e) := by
  rcases Nat.lt_trichotomy k c.passed with hk | rfl | hk
  · rw [answerAt?_of_lt hk] at h
    cases h
  · exact ⟨rfl, c.answerAt?_passed ▸ h⟩
  · rw [answerAt?_of_gt hk] at h
    cases h

theorem result?_eq_ok_iff : c.result? width = some (.ok ()) ↔ c.answer = none ∧ c.passed = width := by
  obtain ⟨dispatch, passed, _ | _ | _⟩ := c <;> simp [result?]

theorem result?_eq_error_iff {e : PublishError} : c.result? width = some (.error e) ↔ c.answer = some (.error e) := by
  obtain ⟨dispatch, passed, _ | _ | _⟩ := c <;> simp [result?]

theorem offersTo_congr {c' : Call} (hd : c'.dispatch = c.dispatch) (h : c'.answerAt? k = c.answerAt? k) (i : Nat) :
    c'.offersTo i k = c.offersTo i k := by
  rw [offersTo, offersTo, hd, h]

theorem mem_offersTo {i : Nat} {o : Offer} :
    o ∈ c.offersTo i k ↔ o.call = i ∧ o.dispatch = c.dispatch ∧ c.answerAt? k = some o.answer := by
  obtain ⟨call, dispatch, answer⟩ := o
  simp only [offersTo, Option.mem_toList, Option.map_eq_some_iff, Offer.mk.injEq]
  constructor
  · rintro ⟨a, ha, rfl, rfl, rfl⟩
    exact ⟨rfl, rfl, ha⟩
  · rintro ⟨rfl, rfl, ha⟩
    exact ⟨answer, ha, rfl, rfl, rfl⟩

end Call

/-- A sink and what it was offered, oldest first. -/
structure Logged (σ : Type) where
  sink : σ
  log : List Offer

namespace Logged

variable {σ : Type} [Sink σ]

def answer (d : Dispatch) (s : Logged σ) : Except PublishError Unit := (Sink.offer d s.sink).1

def offer (i : Nat) (d : Dispatch) (s : Logged σ) : Logged σ :=
  ⟨(Sink.offer d s.sink).2, s.log ++ [⟨i, d, s.answer d⟩]⟩

end Logged

/-- The sinks of a row and all the calls that were ever made on it; a call is known by its place. -/
structure Fanout (σ : Type) where
  sinks : List (Logged σ)
  calls : List Call

namespace Fanout

variable {σ : Type}

def start (sinks : List σ) : Fanout σ := ⟨sinks.map (⟨·, []⟩), []⟩

/-- The sinks as they are now. -/
def row (f : Fanout σ) : List σ := f.sinks.map (·.sink)

def log (f : Fanout σ) (k : Nat) : List Offer :=
  match f.sinks[k]? with
  | some s => s.log
  | none => []

/-- Everything a sink has accepted. -/
def held (f : Fanout σ) (k : Nat) : List Dispatch := Offer.held (f.log k)

def begin (d : Dispatch) (f : Fanout σ) : Fanout σ := { f with calls := f.calls ++ [.begun d] }

/-- A call goes on to the next sink. -/
def goOn (i : Nat) (c : Call) (f : Fanout σ) : Fanout σ := { f with calls := f.calls.set i c.goOn }

/-- A sink that a call has come to answers it. -/
def offer [Sink σ] (i : Nat) (c : Call) (s : Logged σ) (f : Fanout σ) : Fanout σ :=
  ⟨f.sinks.set c.passed (s.offer i c.dispatch), f.calls.set i (c.answered (s.answer c.dispatch))⟩

/-- One thing that happens. A sink may change by itself, too, so what it answers next may be anything. -/
inductive Step [Sink σ] (other : σ → σ → Prop) : Fanout σ → Fanout σ → Prop
  -- Nobody has to wait for anybody: a call may begin while others are on their way.
  | begin (f : Fanout σ) (d : Dispatch) : Step other f (f.begin d)
  | offer {f : Fanout σ} {i : Nat} {c : Call} {s : Logged σ} (hc : f.calls[i]? = some c) (waits : c.answer = none)
      (hs : f.sinks[c.passed]? = some s) : Step other f (f.offer i c s)
  | goOn {f : Fanout σ} {i : Nat} {c : Call} (hc : f.calls[i]? = some c) (accepted : c.answer = some (.ok ())) :
      Step other f (f.goOn i c)
  | elsewhere {f : Fanout σ} {k : Nat} {s : Logged σ} {s' : σ} (hs : f.sinks[k]? = some s) (h : other s.sink s') :
      Step other f { f with sinks := f.sinks.set k { s with sink := s' } }

/-- A call has returned this. -/
def Returned (f : Fanout σ) (i : Nat) (r : Except PublishError Unit) : Prop :=
  ∃ c, f.calls[i]? = some c ∧ c.result? f.sinks.length = some r

/-! ## What a step changes -/

theorem log_of_getElem? {f : Fanout σ} {k : Nat} {s : Logged σ} (h : f.sinks[k]? = some s) : f.log k = s.log := by
  rw [log, h]

theorem log_set_self {f : Fanout σ} {k : Nat} {s : Logged σ} (h : f.sinks[k]? = some s) (s' : Logged σ)
    (calls : List Call) : (Fanout.mk (f.sinks.set k s') calls).log k = s'.log :=
  log_of_getElem? (List.getElem?_set_self (List.getElem?_eq_some_iff.1 h).1)

theorem log_set_other (f : Fanout σ) {k j : Nat} (h : k ≠ j) (s' : Logged σ) (calls : List Call) :
    (Fanout.mk (f.sinks.set k s') calls).log j = f.log j := by
  rw [log, log, List.getElem?_set_ne h]

theorem log_start (sinks : List σ) (k : Nat) : (start sinks).log k = [] := by
  rw [log, start, List.getElem?_map]
  cases sinks[k]? <;> rfl

theorem forall_set {Q : Nat → Logged σ → Prop} {sinks : List (Logged σ)} (h : ∀ k s, sinks[k]? = some s → Q k s)
    {k : Nat} {s : Logged σ} (hs : Q k s) : ∀ j s', (sinks.set k s)[j]? = some s' → Q j s' := by
  intro j s' hj
  by_cases hk : k = j
  · subst hk
    rw [List.getElem?_set_self (by simpa using (List.getElem?_eq_some_iff.1 hj).1)] at hj
    cases hj
    exact hs
  · rw [List.getElem?_set_ne hk] at hj
    exact h j s' hj

variable {f : Fanout σ}

theorem log_offer [Sink σ] {i : Nat} {c : Call} {s : Logged σ} (hs : f.sinks[c.passed]? = some s) (k : Nat) :
    (f.offer i c s).log k =
      f.log k ++ if k = c.passed then [⟨i, c.dispatch, s.answer c.dispatch⟩] else [] := by
  by_cases hk : k = c.passed
  · rw [hk, if_pos rfl, log_of_getElem? hs]
    exact log_set_self hs _ _
  · rw [if_neg hk, List.append_nil]
    exact log_set_other f (Ne.symm hk) _ _

theorem log_elsewhere {k : Nat} {s : Logged σ} (hs : f.sinks[k]? = some s) (s' : σ) (j : Nat) :
    ({ f with sinks := f.sinks.set k { s with sink := s' } } : Fanout σ).log j = f.log j := by
  by_cases hk : k = j
  · rw [← hk, log_of_getElem? hs]
    exact log_set_self hs _ _
  · exact log_set_other f hk _ _

/-! ## The logs are what the calls have come to -/

/-- What sink `k` was offered by call `i`. -/
def offersOf (f : Fanout σ) (i k : Nat) : List Offer :=
  match f.calls[i]? with
  | some c => c.offersTo i k
  | none => []

theorem offersOf_of_getElem? {i : Nat} {c : Call} (h : f.calls[i]? = some c) (k : Nat) :
    f.offersOf i k = c.offersTo i k := by
  rw [offersOf, h]

/-- Where a call has moved on but a sink has answered it the same, that sink was offered the same. -/
theorem offersOf_set {f' : Fanout σ} {i : Nat} {c c' : Call} (hc : f.calls[i]? = some c)
    (hset : f'.calls = f.calls.set i c') {k : Nat} (h : c'.offersTo i k = c.offersTo i k) (j : Nat) :
    f'.offersOf j k = f.offersOf j k := by
  by_cases hj : i = j
  · subst hj
    have hc' : f'.calls[i]? = some c' := hset ▸ List.getElem?_set_self (List.getElem?_eq_some_iff.1 hc).1
    rw [offersOf_of_getElem? hc, offersOf_of_getElem? hc', h]
  · rw [offersOf, offersOf, hset, List.getElem?_set_ne hj]

/-- Of each call a log has what the call has come to there, and no call has come too far. -/
structure Consistent (f : Fanout σ) : Prop where
  logged : ∀ i k, (f.log k).filter (·.call = i) = f.offersOf i k
  within : ∀ c ∈ f.calls, c.passed ≤ f.sinks.length ∧ (c.answer.isSome → c.passed < f.sinks.length)

theorem consistent_start (sinks : List σ) : (start sinks).Consistent where
  logged i k := by
    rw [log_start]
    rfl
  within c hc := absurd hc List.not_mem_nil

theorem Consistent.begin (h : f.Consistent) (d : Dispatch) : (f.begin d).Consistent where
  logged i k := by
    refine (h.logged i k).trans ?_
    rw [offersOf, offersOf, Fanout.begin]
    rcases Nat.lt_trichotomy i f.calls.length with hi | rfl | hi
    · rw [List.getElem?_append_left hi]
    · -- Nobody was offered the new call yet.
      have hnone : (Call.begun d).offersTo f.calls.length k = [] := by
        rw [Call.offersTo, Call.answerAt?_begun]
        rfl
      rw [List.getElem?_eq_none (Nat.le_refl _), List.getElem?_concat_length]
      exact hnone.symm
    · rw [List.getElem?_eq_none (Nat.le_of_lt hi), List.getElem?_eq_none (by simpa using Nat.succ_le_of_lt hi)]
  within c hc := by
    rcases List.mem_append.1 hc with hc | hc
    · exact h.within c hc
    · cases List.mem_singleton.1 hc
      exact ⟨Nat.zero_le _, fun h => absurd h Bool.false_ne_true⟩

theorem Consistent.offer [Sink σ] (h : f.Consistent) {i : Nat} {c : Call} {s : Logged σ} (hc : f.calls[i]? = some c)
    (waits : c.answer = none) (hs : f.sinks[c.passed]? = some s) : (f.offer i c s).Consistent where
  logged j k := by
    rw [log_offer hs, List.filter_append, h.logged]
    by_cases hk : k = c.passed
    · rw [if_pos hk, hk]
      by_cases hj : i = j
      · -- The call had not been answered here before.
        subst hj
        have hbefore : c.offersTo i c.passed = [] := by
          rw [Call.offersTo, Call.answerAt?_passed, waits]
          rfl
        have hcalls : (f.offer i c s).calls[i]? = some (c.answered (s.answer c.dispatch)) :=
          List.getElem?_set_self (List.getElem?_eq_some_iff.1 hc).1
        have hafter : (c.answered (s.answer c.dispatch)).answerAt? c.passed = some (s.answer c.dispatch) :=
          Call.answerAt?_passed _
        rw [offersOf_of_getElem? hc, offersOf_of_getElem? hcalls, hbefore, Call.offersTo, hafter]
        simp [Call.answered]
      · rw [offersOf, offersOf, Fanout.offer, List.getElem?_set_ne hj]
        simp [hj]
    · rw [if_neg hk, List.filter_nil, List.append_nil]
      exact (offersOf_set hc rfl (Call.offersTo_congr (by rfl) (Call.answerAt?_answered_other _ hk) i) j).symm
  within c' hc' := by
    have hlt : c.passed < f.sinks.length := (List.getElem?_eq_some_iff.1 hs).1
    rw [show (f.offer i c s).sinks.length = f.sinks.length from List.length_set]
    rcases List.mem_or_eq_of_mem_set hc' with hc' | rfl
    · exact h.within c' hc'
    · exact ⟨Nat.le_of_lt hlt, fun _ => hlt⟩

theorem Consistent.goOn (h : f.Consistent) {i : Nat} {c : Call} (hc : f.calls[i]? = some c)
    (accepted : c.answer = some (.ok ())) : (f.goOn i c).Consistent where
  logged j k :=
    have hsame : c.goOn.offersTo i k = c.offersTo i k := Call.offersTo_congr (by rfl) (Call.answerAt?_goOn accepted k) i
    (h.logged j k).trans (offersOf_set hc rfl hsame j).symm
  within c' hc' := by
    rcases List.mem_or_eq_of_mem_set hc' with hc' | rfl
    · exact h.within c' hc'
    · have hlt := (h.within c (List.mem_of_getElem? hc)).2 (by rw [accepted]; rfl)
      exact ⟨hlt, fun h => absurd h Bool.false_ne_true⟩

theorem result?_of_waits {c : Call} {s : Logged σ} (waits : c.answer = none) (hs : f.sinks[c.passed]? = some s) :
    c.result? f.sinks.length = none := by
  rw [Call.result?, waits]
  exact if_neg (Nat.ne_of_lt (List.getElem?_eq_some_iff.1 hs).1)

section

variable [Sink σ] {other : σ → σ → Prop} {f' : Fanout σ}

theorem Step.length_sinks (h : Step other f f') : f'.sinks.length = f.sinks.length := by
  cases h with
  | begin | goOn => rfl
  | offer | elsewhere => exact List.length_set

theorem Step.length_calls_le (h : Step other f f') : f.calls.length ≤ f'.calls.length := by
  cases h with
  | begin d => simp [Fanout.begin]
  | offer | goOn => exact Nat.le_of_eq List.length_set.symm
  | elsewhere => exact Nat.le_refl _

theorem Step.length_calls_le_succ (h : Step other f f') : f'.calls.length ≤ f.calls.length + 1 := by
  cases h with
  | begin d => simp [Fanout.begin]
  | offer | goOn => exact (Nat.le_of_eq List.length_set).trans (Nat.le_succ _)
  | elsewhere => exact Nat.le_succ _

/-- What a call has returned stays so. -/
theorem Returned.step {i : Nat} {r : Except PublishError Unit} (hr : f.Returned i r) (hstep : Step other f f') :
    f'.Returned i r := by
  obtain ⟨c, hc, hr⟩ := hr
  -- A step moves only calls that have not returned, so never this one.
  have hset {j : Nat} {c' : Call} (hc' : f.calls[j]? = some c') (unreturned : c'.result? f.sinks.length = none)
      (c'' : Call) : (f.calls.set j c'')[i]? = some c := by
    refine (List.getElem?_set_ne fun hij => ?_).trans hc
    rw [hij, hc] at hc'
    cases hc'
    rw [unreturned] at hr
    cases hr
  refine ⟨c, ?_, hstep.length_sinks ▸ hr⟩
  cases hstep with
  | begin d => exact (List.getElem?_append_left (List.getElem?_eq_some_iff.1 hc).1).trans hc
  | offer hc' waits hs => exact hset hc' (result?_of_waits waits hs) _
  | goOn hc' accepted => exact hset hc' (by rw [Call.result?, accepted]) _
  | elsewhere => exact hc

theorem Consistent.step (h : f.Consistent) (hstep : Step other f f') : f'.Consistent := by
  cases hstep with
  | begin d => exact h.begin d
  | offer hc waits hs => exact h.offer hc waits hs
  | goOn hc accepted => exact h.goOn hc accepted
  | @elsewhere k s s' hs ho =>
    refine ⟨fun i j => ?_, fun c hc => ?_⟩
    · rw [log_elsewhere hs]
      exact h.logged i j
    · rw [List.length_set]
      exact h.within c hc

theorem length_of_steps {sinks : List σ} (h : ReflTransGen (Step other) (start sinks) f) :
    f.sinks.length = sinks.length := by
  induction h with
  | refl => exact List.length_map _
  | tail _ hstep ih => exact hstep.length_sinks.trans ih

theorem length_calls_le_of_steps (h : ReflTransGen (Step other) f f') : f.calls.length ≤ f'.calls.length := by
  induction h with
  | refl => exact Nat.le_refl _
  | tail _ hstep ih => exact ih.trans hstep.length_calls_le

theorem consistent_of_steps {sinks : List σ} (h : ReflTransGen (Step other) (start sinks) f) : f.Consistent := by
  induction h with
  | refl => exact consistent_start sinks
  | tail _ hstep ih => exact ih.step hstep

end

/-! ## What a call returns -/

namespace Consistent

variable (h : f.Consistent) {i : Nat} {c : Call} (hc : f.calls[i]? = some c)
include h

theorem mem_log_iff {k : Nat} {o : Offer} :
    o ∈ f.log k ↔ ∃ c, f.calls[o.call]? = some c ∧ o.dispatch = c.dispatch ∧ c.answerAt? k = some o.answer := by
  have hmem : o ∈ f.log k ↔ o ∈ f.offersOf o.call k := by
    rw [← h.logged, List.mem_filter]
    simp
  rw [hmem, offersOf]
  cases f.calls[o.call]? with
  | none => simp
  | some c => simp [Call.mem_offersTo]

theorem call_lt {k : Nat} {o : Offer} (ho : o ∈ f.log k) : o.call < f.calls.length := by
  obtain ⟨c, hc, -⟩ := h.mem_log_iff.1 ho
  exact (List.getElem?_eq_some_iff.1 hc).1

include hc

theorem filter_log (k : Nat) : (f.log k).filter (·.call = i) = c.offersTo i k :=
  (h.logged i k).trans (offersOf_of_getElem? hc k)

theorem passed_le : c.passed ≤ f.sinks.length := (h.within c (List.mem_of_getElem? hc)).1

theorem passed_lt {a : Except PublishError Unit} (ha : c.answer = some a) : c.passed < f.sinks.length :=
  (h.within c (List.mem_of_getElem? hc)).2 (by rw [ha]; rfl)

/-- A call that has returned was accepted by every sink if and only if it returned so. -/
theorem returned_ok_iff {r : Except PublishError Unit} (hr : c.result? f.sinks.length = some r) :
    r = .ok () ↔ ∀ k < f.sinks.length, (f.log k).filter (·.call = i) = [⟨i, c.dispatch, .ok ()⟩] := by
  constructor
  · rintro rfl k hk
    obtain ⟨-, hpassed⟩ := Call.result?_eq_ok_iff.1 hr
    rw [h.filter_log hc, Call.offersTo, Call.answerAt?_of_lt (hpassed ▸ hk)]
    rfl
  · intro hall
    cases r with
    | ok _ => rfl
    | error e =>
      -- The sink that refused the call has not accepted it.
      have he := Call.result?_eq_error_iff.1 hr
      have hoffers := hall c.passed (h.passed_lt hc he)
      rw [h.filter_log hc, Call.offersTo, Call.answerAt?_passed, he] at hoffers
      cases hoffers

/-- A call has returned an error if and only if some sink answered with it; the sinks in front of that one have
accepted the call, and those behind it have not seen it. -/
theorem returned_error_iff {e : PublishError} :
    c.result? f.sinks.length = some (.error e) ↔
      ∃ k < f.sinks.length, ∀ j, (f.log j).filter (·.call = i) =
        if j < k then [⟨i, c.dispatch, .ok ()⟩] else if j = k then [⟨i, c.dispatch, .error e⟩] else [] := by
  rw [Call.result?_eq_error_iff]
  constructor
  · intro he
    refine ⟨c.passed, h.passed_lt hc he, fun j => ?_⟩
    rw [h.filter_log hc, Call.offersTo, Call.answerAt?, he]
    split
    · rfl
    · split <;> rfl
  · rintro ⟨k, -, hall⟩
    have hk : ⟨i, c.dispatch, .error e⟩ ∈ c.offersTo i k := by
      rw [← h.filter_log hc, hall k, if_neg (Nat.lt_irrefl k), if_pos rfl]
      exact List.mem_singleton_self _
    exact (Call.answerAt?_eq_error (Call.mem_offersTo.1 hk).2.2).2

end Consistent

/-! ## What the sinks hold -/

namespace Consistent

variable (h : f.Consistent)
include h

/-- No sink was offered a call twice. -/
theorem nodup_calls (k : Nat) : ((f.log k).map (·.call)).Nodup := by
  rw [List.nodup_iff_count_le_one]
  intro i
  have hcount : ((f.log k).map (·.call)).count i = ((f.log k).filter (·.call = i)).length := by
    rw [List.count, List.countP_map, List.countP_eq_length_filter]
    rfl
  rw [hcount, h.logged, offersOf]
  split
  · rw [Call.offersTo]
    cases Option.map _ _ <;> simp
  · simp

/-- What a sink has accepted, the sinks in front of it have accepted. -/
theorem accepted_subset {i j : Nat} (hij : i ≤ j) :
    (f.log j).filter Offer.isAccepted ⊆ (f.log i).filter Offer.isAccepted := by
  intro o ho
  obtain ⟨hmem, hok⟩ := List.mem_filter.1 ho
  refine List.mem_filter.2 ⟨?_, hok⟩
  rcases Nat.eq_or_lt_of_le hij with rfl | hlt
  · exact hmem
  · obtain ⟨c, hc, hd, ha⟩ := h.mem_log_iff.1 hmem
    have hj : j ≤ c.passed := Nat.le_of_not_lt fun hgt => by
      rw [Call.answerAt?_of_gt hgt] at ha
      cases ha
    have hans : o.answer = .ok () := by
      obtain ⟨call, dispatch, answer⟩ := o
      cases answer with
      | ok _ => rfl
      | error e => cases hok
    exact h.mem_log_iff.2 ⟨c, hc, hd, hans ▸ Call.answerAt?_of_lt (Nat.lt_of_lt_of_le hlt hj)⟩

theorem accepted_subperm {i j : Nat} (hij : i ≤ j) :
    ((f.log j).filter Offer.isAccepted).Subperm ((f.log i).filter Offer.isAccepted) :=
  List.subperm_of_subset ((List.Nodup.of_map _ (h.nodup_calls j)).filter _) (h.accepted_subset hij)

theorem held_le {i j : Nat} (hij : i ≤ j) : (f.held j : Multiset Dispatch) ≤ f.held i := by
  have hle : (((f.log j).filter Offer.isAccepted : List Offer) : Multiset Offer) ≤
      ((f.log i).filter Offer.isAccepted : List Offer) := Multiset.coe_le.2 (h.accepted_subperm hij)
  exact Multiset.map_le_map hle

end Consistent

/-! ## Calls come to an end -/

section

variable [Sink σ] {other : σ → σ → Prop}

theorem offer_middle {front rest : List (Logged σ)} {s : Logged σ} {calls : List Call} {i : Nat} {c : Call}
    (h : c.passed = front.length) :
    (⟨front ++ s :: rest, calls⟩ : Fanout σ).offer i c s =
      ⟨front ++ s.offer i c.dispatch :: rest, calls.set i (c.answered (s.answer c.dispatch))⟩ := by
  rw [offer, h, List.set_append_right _ _ (Nat.le_refl _), Nat.sub_self, List.set_cons_zero]

theorem step_middle {front rest : List (Logged σ)} {s : Logged σ} {calls : List Call} {i : Nat} {c : Call}
    (hc : calls[i]? = some c) (waits : c.answer = none) (h : c.passed = front.length) :
    Step other ⟨front ++ s :: rest, calls⟩
      ⟨front ++ s.offer i c.dispatch :: rest, calls.set i (c.answered (s.answer c.dispatch))⟩ := by
  rw [← offer_middle h]
  refine .offer hc waits ?_
  rw [h, List.getElem?_append_right (Nat.le_refl _), Nat.sub_self, List.getElem?_cons_zero]

theorem step_accepted {sinks : List (Logged σ)} {calls : List Call} {i : Nat} {c : Call} (hlt : i < calls.length)
    (h : c.answer = some (.ok ())) : Step other ⟨sinks, calls.set i c⟩ ⟨sinks, calls.set i c.goOn⟩ := by
  have hstep : Step other ⟨sinks, calls.set i c⟩ (goOn i c ⟨sinks, calls.set i c⟩) :=
    .goOn (List.getElem?_set_self hlt) h
  rwa [goOn, List.set_set] at hstep

/-- If nothing comes between, a call that waits for a sink is offered to the sinks left in order. -/
theorem exists_finished {front rest : List (Logged σ)} {calls : List Call} {i : Nat} {c : Call}
    (hc : calls[i]? = some c) (waits : c.answer = none) (hpassed : c.passed = front.length) :
    ∃ rest' c', ReflTransGen (Step other) ⟨front ++ rest, calls⟩ ⟨front ++ rest', calls.set i c'⟩ ∧
      c'.dispatch = c.dispatch ∧
      c'.result? (front ++ rest').length = some (Sink.offerInOrder c.dispatch (rest.map (·.sink))).1 ∧
      rest'.map (·.sink) = (Sink.offerInOrder c.dispatch (rest.map (·.sink))).2 := by
  -- On the sinks left. Each offer moves one of them to the front and the call on by one.
  induction rest generalizing front calls c with
  | nil =>
    obtain ⟨hlt, rfl⟩ := List.getElem?_eq_some_iff.1 hc
    refine ⟨[], calls[i], by rw [List.set_getElem_self], rfl, ?_, rfl⟩
    rw [Call.result?, waits, List.append_nil]
    exact if_pos hpassed
  | cons s rest ih =>
    have hlt : i < calls.length := (List.getElem?_eq_some_iff.1 hc).1
    have hoffer : Step other ⟨front ++ s :: rest, calls⟩ _ := step_middle hc waits hpassed
    rw [List.map_cons, Sink.offerInOrder]
    rcases hanswer : Sink.offer c.dispatch s.sink with ⟨e | _, s'⟩
    · have ha : s.answer c.dispatch = .error e := congrArg Prod.fst hanswer
      rw [ha] at hoffer
      exact ⟨_, c.answered (.error e), .single hoffer, rfl, rfl, by rw [List.map_cons, Logged.offer, hanswer]⟩
    · have ha : s.answer c.dispatch = .ok () := congrArg Prod.fst hanswer
      rw [ha] at hoffer
      have hgoOn : Step other ⟨front ++ s.offer i c.dispatch :: rest, calls.set i (c.answered (.ok ()))⟩ _ :=
        step_accepted hlt rfl
      have hpassed' : c.goOn.passed = (front ++ [s.offer i c.dispatch]).length := by
        rw [List.length_append, ← hpassed]
        rfl
      obtain ⟨rest', c', hsteps, hd, hresult, hrow⟩ :=
        @ih (front ++ [s.offer i c.dispatch]) (calls.set i c.goOn) c.goOn (List.getElem?_set_self hlt) rfl hpassed'
      rw [List.set_set] at hsteps
      simp only [List.append_assoc, List.singleton_append] at hsteps hresult
      refine ⟨s.offer i c.dispatch :: rest', c', (hsteps.head hgoOn).head hoffer, hd, hresult, ?_⟩
      rw [List.map_cons, hrow, Logged.offer, hanswer]
      rfl

/-- A call that nothing comes between is offered to the row as one sink. -/
theorem exists_alone (f : Fanout σ) (d : Dispatch) :
    ∃ f' c, ReflTransGen (Step other) (f.begin d) f' ∧ f'.calls = f.calls ++ [c] ∧ c.dispatch = d ∧
      c.result? f'.sinks.length = some (Sink.offer d f.row).1 ∧ f'.row = (Sink.offer d f.row).2 := by
  obtain ⟨sinks', c, hsteps, hd, hresult, hrow⟩ :=
    @exists_finished σ _ other [] f.sinks (f.calls ++ [.begun d]) _ (.begun d) List.getElem?_concat_length rfl rfl
  refine ⟨_, c, hsteps, ?_, hd, hresult, hrow⟩
  simp

/-- Wherever a call has come to, it can go on until it returns. -/
theorem Consistent.exists_returned (h : f.Consistent) {i : Nat} (hi : i < f.calls.length) :
    ∃ f' r, ReflTransGen (Step other) f f' ∧ f'.Returned i r := by
  -- A call whose last acceptance is not acted on yet goes on first; then it waits for a sink.
  have hwaiting {f : Fanout σ} {c : Call} (h : f.Consistent) (hc : f.calls[i]? = some c) (waits : c.answer = none) :
      ∃ f' r, ReflTransGen (Step other) f f' ∧ f'.Returned i r := by
    have hfront : c.passed = (f.sinks.take c.passed).length := by
      rw [List.length_take, Nat.min_eq_left (h.passed_le hc)]
    obtain ⟨rest', c', hsteps, -, hresult, -⟩ := @exists_finished σ _ other _ (f.sinks.drop c.passed) _ i c hc waits hfront
    rw [List.take_append_drop] at hsteps
    exact ⟨_, _, hsteps, c', List.getElem?_set_self (List.getElem?_eq_some_iff.1 hc).1, hresult⟩
  obtain ⟨c, hc⟩ : ∃ c, f.calls[i]? = some c := ⟨_, List.getElem?_eq_getElem hi⟩
  match ha : c.answer with
  | none => exact hwaiting h hc ha
  | some (.error e) => exact ⟨f, .error e, .refl, c, hc, by rw [Call.result?, ha]⟩
  | some (.ok _) =>
    obtain ⟨f', r, hsteps, hr⟩ := hwaiting (h.goOn hc ha) (List.getElem?_set_self hi) rfl
    exact ⟨f', r, hsteps.head (.goOn hc ha), hr⟩

/-! ## One sink of a row -/

/-- What every offer and every change by itself keeps of a sink, a run keeps of each sink of a row. -/
theorem sinkwise {Q : Nat → Logged σ → Prop} (hoffer : ∀ {k s} i d, Q k s → Q k (s.offer i d))
    (hother : ∀ {k s s'}, Q k s → other s.sink s' → Q k { s with sink := s' }) {sinks : List σ}
    (hstart : ∀ k s, sinks[k]? = some s → Q k ⟨s, []⟩) (h : ReflTransGen (Step other) (start sinks) f) :
    ∀ k s, f.sinks[k]? = some s → Q k s := by
  induction h with
  | refl =>
    intro k s hs
    rw [start, List.getElem?_map, Option.map_eq_some_iff] at hs
    obtain ⟨s, hs, rfl⟩ := hs
    exact hstart k s hs
  | tail _ hstep ih =>
    cases hstep with
    | begin | goOn => exact ih
    | @offer i c s hc waits hs => exact forall_set ih (hoffer i c.dispatch (ih _ s hs))
    | @elsewhere k s s' hs ho => exact forall_set ih (hother (ih k s hs) ho)

/-- Where sinks keep what they accept, their contents are what they hold. -/
theorem contents_of_steps {contents : σ → List ControlEnvelope} (hkeeps : Sink.Keeps contents other) {sinks : List σ}
    (hempty : ∀ s ∈ sinks, contents s = []) (h : ReflTransGen (Step other) (start sinks) f) {k : Nat} {s : σ}
    (hs : f.row[k]? = some s) : contents s = (f.held k).filterMap Dispatch.envelope? := by
  have hall : ∀ (k : Nat) (s : Logged σ), f.sinks[k]? = some s →
      contents s.sink = (Offer.held s.log).filterMap Dispatch.envelope? := by
    refine sinkwise (fun {k s} i d hs => ?_) (fun hs ho => (hkeeps.other _ _ ho).trans hs) (fun k s hs => ?_) h
    · rw [Logged.offer, hkeeps.offer, hs, Offer.held_concat, List.filterMap_append]
      congr 1
      simp only [Logged.answer]
      cases (Sink.offer d s.sink).1 with
      | error e => rfl
      | ok _ => cases d <;> rfl
    · exact hempty s (List.mem_of_getElem? hs)
  rw [row, List.getElem?_map, Option.map_eq_some_iff] at hs
  obtain ⟨logged, hlogged, rfl⟩ := hs
  rw [hall k logged hlogged, held, log_of_getElem? hlogged]

/-- Sinks that keep what they accept contain all that is behind them. -/
theorem contents_le {contents : σ → List ControlEnvelope} (hkeeps : Sink.Keeps contents other) {sinks : List σ}
    (hempty : ∀ s ∈ sinks, contents s = []) (h : ReflTransGen (Step other) (start sinks) f) {i j : Nat} (hij : i ≤ j)
    {front behind : σ} (hi : f.row[i]? = some front) (hj : f.row[j]? = some behind) :
    (contents behind : Multiset ControlEnvelope) ≤ contents front := by
  rw [contents_of_steps hkeeps hempty h hi, contents_of_steps hkeeps hempty h hj]
  exact Multiset.filterMap_le_filterMap _ ((consistent_of_steps h).held_le hij)

end

end Fanout

end TableEscrow
