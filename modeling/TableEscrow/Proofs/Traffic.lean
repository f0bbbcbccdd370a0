import TableEscrow.Proofs.Fanout
import TableEscrow.Reaction
import TableEscrow.Reconcile.TablePass
import TableEscrow.Rehearsal.Stage
/-!
# Callers side by side

Passes and changes publish on one row of sinks at the same time. A pass waits for each of its calls and
ends with the first that is refused (`PassUnderway.OneByOne`); what a change gives rise to is sent
without waiting. To the sinks all this is calls that begin and go on (`Traffic.fanout_of_steps`).

Calls made one after another are held in the same order by every sink, whatever else is called meanwhile
(`Fanout.InOrder.heldOf_sublist`), so the events of one pass are (`Traffic.heldOf_sublist`). Where nothing
comes between, a change is sent as `Reaction.send` sends it (`Traffic.exists_sent`), and a pass goes as
`TablePass.drive` goes (`Traffic.exists_driven`).
-/

namespace TableEscrow

open Relation

namespace Fanout

variable {σ : Type} {f : Fanout σ} {these : Nat → Bool}

/-! ## Calls one after another -/

/-- What a sink has accepted of some of the calls. -/
def heldOf (these : Nat → Bool) (f : Fanout σ) (k : Nat) : List Dispatch :=
  Offer.held ((f.log k).filter fun o => these o.call)

/-- Of these calls, none begins before those that began earlier have returned. -/
def InTurn (these : Nat → Bool) (f f' : Fanout σ) : Prop :=
  f'.calls.length = f.calls.length ∨ these f.calls.length = false ∨
    ∀ i < f.calls.length, these i → ∃ r, f.Returned i r

/-- Each log lists these calls as they were made, and only the last of them may be on its way. -/
structure InOrder (these : Nat → Bool) (f : Fanout σ) : Prop where
  ascending : ∀ k, ((f.log k).filter fun o => these o.call).Pairwise (·.call < ·.call)
  returned : ∀ i j, these i → these j → i < j → j < f.calls.length → ∃ r, f.Returned i r

theorem inOrder_start (sinks : List σ) : (start sinks).InOrder these where
  ascending k := by
    rw [log_start]
    exact .nil
  returned i j _ _ _ hj := absurd hj (Nat.not_lt_zero j)

/-- A call that has not returned is the last of them. -/
theorem InOrder.le_of_open (h : f.InOrder these) {i j : Nat} {c : Call} (hc : f.calls[i]? = some c)
    (unreturned : c.result? f.sinks.length = none) (hi : these i) (hj : these j) (hlt : j < f.calls.length) : j ≤ i := by
  refine Nat.le_of_not_lt fun hij => ?_
  obtain ⟨r, c', hc', hr⟩ := h.returned i j hi hj hij hlt
  rw [hc] at hc'
  cases hc'
  rw [unreturned] at hr
  cases hr

/-- Only calls that were made matter. -/
theorem InOrder.congr {those : Nat → Bool} (ho : f.InOrder these) (h : f.Consistent)
    (hsame : ∀ i < f.calls.length, those i = these i) : f.InOrder those where
  ascending k := by
    rw [List.filter_congr fun o hk => hsame o.call (h.call_lt hk)]
    exact ho.ascending k
  returned i j hi hj hij hlt := by
    rw [hsame i (hij.trans hlt)] at hi
    rw [hsame j hlt] at hj
    exact ho.returned i j hi hj hij hlt

section

variable [Sink σ] {other : σ → σ → Prop} {f' : Fanout σ}

theorem InOrder.offer (ho : f.InOrder these) (h : f.Consistent) {i : Nat} {c : Call} {s : Logged σ}
    (hc : f.calls[i]? = some c) (waits : c.answer = none) (hs : f.sinks[c.passed]? = some s) (k : Nat) :
    (((f.offer i c s).log k).filter fun o => these o.call).Pairwise (·.call < ·.call) := by
  rw [log_offer hs]
  split
  · next hk =>
    subst hk
    rw [List.filter_append]
    refine List.pairwise_append.2 ⟨ho.ascending _, (List.pairwise_singleton _ _).filter _, fun o ho₁ o' ho₂ => ?_⟩
    obtain ⟨hmem, hthese⟩ := List.mem_filter.1 ho₁
    obtain ⟨ho', hi⟩ := List.mem_filter.1 ho₂
    cases List.mem_singleton.1 ho'
    -- Those before are no later calls, and this one has not been here yet.
    have hle : o.call ≤ i := ho.le_of_open hc (result?_of_waits waits hs) hi hthese (h.call_lt hmem)
    have hne : o.call ≠ i := by
      intro he
      obtain ⟨c', hc', -, ha⟩ := h.mem_log_iff.1 hmem
      rw [he, hc] at hc'
      cases hc'
      rw [Call.answerAt?_passed, waits] at ha
      cases ha
    exact Nat.lt_of_le_of_ne hle hne
  · rw [List.append_nil]
    exact ho.ascending k

theorem InOrder.step (ho : f.InOrder these) (h : f.Consistent) (hstep : Step other f f') (hturn : InTurn these f f') :
    f'.InOrder these where
  ascending k := by
    cases hstep with
    | begin | goOn => exact ho.ascending k
    | offer hc waits hs => exact ho.offer h hc waits hs k
    | elsewhere hs =>
      rw [log_elsewhere hs]
      exact ho.ascending k
  returned i j hi hj hij hlt := by
    by_cases hold : j < f.calls.length
    · exact (ho.returned i j hi hj hij hold).imp fun _ hr => hr.step hstep
    · -- The later one is the call that has just begun.
      have hsucc : f'.calls.length ≤ f.calls.length + 1 := hstep.length_calls_le_succ
      have hj' : j = f.calls.length := by omega
      subst hj'
      rcases hturn with hsame | hnone | hreturned
      · omega
      · rw [hnone] at hj
        cases hj
      · exact (hreturned i hij hi).imp fun _ hr => hr.step hstep

theorem inOrder_of_steps {sinks : List σ}
    (h : ReflTransGen (fun f f' => Step other f f' ∧ InTurn these f f') (start sinks) f) :
    f.Consistent ∧ f.InOrder these := by
  induction h with
  | refl => exact ⟨consistent_start sinks, inOrder_start sinks⟩
  | tail _ hstep ih => exact ⟨ih.1.step hstep.1, ih.2.step ih.1 hstep.1 hstep.2⟩

end

theorem heldOf_all (f : Fanout σ) (k : Nat) : f.heldOf (fun _ => true) k = f.held k := by
  rw [heldOf, List.filter_true, held]

instance : Std.Antisymm fun a b : Offer => a.call < b.call :=
  ⟨fun _ _ hab hba => absurd hba (Nat.lt_asymm hab)⟩

theorem InOrder.heldOf_sublist (ho : f.InOrder these) (h : f.Consistent) {i j : Nat} (hij : i ≤ j) :
    (f.heldOf these j).Sublist (f.heldOf these i) := by
  have hsub : (((f.log j).filter fun o => these o.call).filter Offer.isAccepted).Subperm
      (((f.log i).filter fun o => these o.call).filter Offer.isAccepted) := by
    simp only [List.filter_filter, Bool.and_comm]
    rw [← List.filter_filter, ← List.filter_filter]
    exact (h.accepted_subperm hij).filter _
  exact (List.sublist_of_subperm_of_pairwise hsub ((ho.ascending j).filter _) ((ho.ascending i).filter _)).map _

end Fanout

/-! ## Passes and changes -/

/-- What is handed to a publisher. -/
inductive Send where
  | view (u : LiveUpdate)
  | event (e : ControlEvent)

namespace Send

/-- A view goes as it is, an event in an envelope of its own. -/
def stamped (stamper : Stamper) : Send → Dispatch × Stamper
  | .view u => (.live u, stamper)
  | .event e => (.control (stamper.stamp e).1, (stamper.stamp e).2)

end Send

/-- The view first and then the events. -/
def Reaction.sends (r : Reaction) : List Send := r.live.toList.map .view ++ r.events.map .event

/-- A pass, the calls it has made, and the one it waits for. -/
structure PassUnderway where
  moment : Moment
  table : String
  state : TablePass
  calls : List Nat
  waiting : Option Nat

namespace PassUnderway

/-- The pass takes an answer. -/
def answer (p : PassUnderway) (r : Request) (reply : r.Reply) : PassUnderway :=
  { p with state := p.state.answer p.moment p.table r reply, waiting := none }

/-- The pass has made a call. -/
def await (p : PassUnderway) (i : Nat) : PassUnderway := { p with calls := p.calls ++ [i], waiting := some i }

end PassUnderway

/-- All that is under way on a row of sinks: passes, and of each change what is not sent yet. -/
structure Traffic (σ : Type) where
  fanout : Fanout σ
  stamper : Stamper
  passes : List PassUnderway
  changes : List (List Send)

namespace Traffic

variable {σ : Type}

def start (stamper : Stamper) (sinks : List σ) : Traffic σ := ⟨.start sinks, stamper, [], []⟩

def publish (s : Send) (t : Traffic σ) : Traffic σ :=
  { t with fanout := t.fanout.begin (s.stamped t.stamper).1, stamper := (s.stamped t.stamper).2 }

/-- One thing that happens. Reads are answered in any way. -/
inductive Step [Sink σ] (other : σ → σ → Prop) : Traffic σ → Traffic σ → Prop
  | scan (t : Traffic σ) (m : Moment) (table : String) :
    Step other t { t with passes := t.passes ++ [⟨m, table, .start, [], none⟩] }
  | change (t : Traffic σ) (v : Verdicts) (c : HandChange) :
    Step other t { t with changes := t.changes ++ [(Reaction.ofChange v c).sends] }
  | clock (t : Traffic σ) (now : Instant) : Step other t { t with stamper := { t.stamper with now } }
  /-- A pass has a read answered. -/
  | read {t : Traffic σ} {before after : List PassUnderway} {p : PassUnderway} {r : Request}
      (hp : t.passes = before ++ p :: after) (idle : p.waiting = none) (hr : r ∈ p.state.requests)
      (reads : ∀ e, r ≠ .publish e) (reply : r.Reply) :
    Step other t { t with passes := before ++ p.answer r reply :: after }
  /-- A pass publishes its next event. -/
  | publish {t : Traffic σ} {before after : List PassUnderway} {p : PassUnderway} {e : ControlEvent}
      (hp : t.passes = before ++ p :: after) (idle : p.waiting = none) (hr : .publish e ∈ p.state.requests) :
    Step other t { t.publish (.event e) with passes := before ++ p.await t.fanout.calls.length :: after }
  /-- A pass is told what the call it waits for has returned. -/
  | told {t : Traffic σ} {before after : List PassUnderway} {p : PassUnderway} {e : ControlEvent} {i : Nat}
      {result : Except PublishError Unit} (hp : t.passes = before ++ p :: after) (hi : p.waiting = some i)
      (hresult : t.fanout.Returned i result) (hr : .publish e ∈ p.state.requests) :
    Step other t { t with passes := before ++ p.answer (.publish e) result :: after }
  /-- Something that a change gave rise to is sent, whatever became of the rest. -/
  | send {t : Traffic σ} {before after : List (List Send)} {first rest : List Send} {s : Send}
      (hs : t.changes = before ++ (first ++ s :: rest) :: after) :
    Step other t { t.publish s with changes := before ++ (first ++ rest) :: after }
  /-- A call that was made goes on, or a sink changes by itself. -/
  | sinks {t : Traffic σ} {f : Fanout σ} (h : Fanout.Step other t.fanout f)
      (hcalls : f.calls.length = t.fanout.calls.length) : Step other t { t with fanout := f }

variable [Sink σ] {other : σ → σ → Prop} {t t' : Traffic σ}

/-- To the sinks, all this is calls that begin and go on. -/
theorem Step.fanout (h : Step other t t') : ReflTransGen (Fanout.Step other) t.fanout t'.fanout := by
  cases h with
  | scan | change | clock | read | told => exact .refl
  | publish | send => exact .single (.begin _ _)
  | sinks h => exact .single h

theorem fanout_of_steps {stamper : Stamper} {sinks : List σ} (h : ReflTransGen (Step other) (start stamper sinks) t) :
    ReflTransGen (Fanout.Step other) (.start sinks) t.fanout := by
  induction h with
  | refl => exact .refl
  | tail _ hstep ih => exact ih.trans hstep.fanout

end Traffic

/-! ## The calls of one pass -/

namespace PassUnderway

variable {σ : Type} {f f' : Fanout σ} {p : PassUnderway}

/-- The calls of a pass are made one after another. Those it does not wait for were accepted, except for the one
that was refused, which is its last. -/
structure OneByOne (f : Fanout σ) (p : PassUnderway) : Prop where
  begun : ∀ i ∈ p.calls, i < f.calls.length
  inOrder : f.InOrder (p.calls.contains ·)
  last : ∀ i, p.waiting = some i → p.calls.getLast? = some i
  ended : ∀ i ∈ p.calls, p.waiting ≠ some i → f.Returned i (.ok ()) ∨
    p.calls.getLast? = some i ∧ ∃ e, f.Returned i (.error e) ∧ p.state = .ended (.error (.publish e))

theorem oneByOne_start (f : Fanout σ) (m : Moment) (table : String) :
    OneByOne f ⟨m, table, .start, [], none⟩ where
  begun i hi := absurd hi List.not_mem_nil
  inOrder := ⟨fun k => by simp, fun i j hi => absurd hi Bool.false_ne_true⟩
  last i hi := by cases hi
  ended i hi := absurd hi List.not_mem_nil

theorem OneByOne.not_contains (h : p.OneByOne f) : p.calls.contains f.calls.length = false := by
  rw [List.contains_eq_mem, decide_eq_false_iff_not]
  exact fun hmem => Nat.lt_irrefl _ (h.begun _ hmem)

/-- Where a pass asks for anything and waits for no call, all its calls were accepted. -/
theorem OneByOne.accepted (h : p.OneByOne f) (idle : p.waiting = none) {r : Request} (hr : r ∈ p.state.requests) :
    ∀ i ∈ p.calls, f.Returned i (.ok ()) := by
  intro i hi
  refine (h.ended i hi (by rw [idle]; exact nofun)).resolve_right ?_
  rintro ⟨-, e, -, hended⟩
  rw [hended] at hr
  cases hr

theorem OneByOne.read (h : p.OneByOne f) (idle : p.waiting = none) {r : Request} (hr : r ∈ p.state.requests)
    (reply : r.Reply) : (p.answer r reply).OneByOne f where
  begun := h.begun
  inOrder := h.inOrder
  last i hi := by cases hi
  ended i hi _ := .inl (h.accepted idle hr i hi)

/-- A pass that is told of a refusal ends with it. -/
theorem answer_refused {m : Moment} {table : String} {t : TablePass} {e : ControlEvent} (hr : .publish e ∈ t.requests)
    (refusal : PublishError) : t.answer m table (.publish e) (.error refusal) = .ended (.error (.publish refusal)) := by
  have ha := TablePass.answered m table (.error refusal : (Request.publish e).Reply) hr
  generalize t.answer m table (.publish e) (.error refusal) = t' at ha ⊢
  cases ha
  rfl

theorem OneByOne.told (h : p.OneByOne f) {i : Nat} (hi : p.waiting = some i) {e : ControlEvent}
    (hr : .publish e ∈ p.state.requests) {result : Except PublishError Unit} (hresult : f.Returned i result) :
    (p.answer (.publish e) result).OneByOne f where
  begun := h.begun
  inOrder := h.inOrder
  last i hi := by cases hi
  ended j hj _ := by
    by_cases hij : j = i
    · subst hij
      cases result with
      | ok _ => exact .inl hresult
      | error refusal => exact .inr ⟨h.last j hi, refusal, hresult, answer_refused hr refusal⟩
    · refine .inl ((h.ended j hj (by rw [hi]; exact fun he => hij (Option.some.inj he).symm)).resolve_right ?_)
      rintro ⟨hlast, -⟩
      exact hij (Option.some.inj (hlast.symm.trans (h.last i hi)))

variable [Sink σ] {other : σ → σ → Prop}

/-- Whatever happens at the sinks, a call that begins there is none of this pass. -/
theorem OneByOne.step (h : p.OneByOne f) (hf : f.Consistent) (hstep : Fanout.Step other f f') : p.OneByOne f' where
  begun i hi := Nat.lt_of_lt_of_le (h.begun i hi) hstep.length_calls_le
  inOrder := h.inOrder.step hf hstep (.inr (.inl h.not_contains))
  last := h.last
  ended i hi hw :=
    (h.ended i hi hw).imp (·.step hstep) fun ⟨hlast, e, hr, hended⟩ => ⟨hlast, e, hr.step hstep, hended⟩

theorem OneByOne.await (h : p.OneByOne f) (hf : f.Consistent) (idle : p.waiting = none) {r : Request}
    (hr : r ∈ p.state.requests) (d : Dispatch) : (p.await f.calls.length).OneByOne (f.begin d) := by
  have hstep : Fanout.Step (fun _ _ => False) f (f.begin d) := .begin f d
  have haccepted := h.accepted idle hr
  refine ⟨fun i hi => ?_, ?_, fun i hi => ?_, fun i hi hw => .inl ?_⟩
  · rw [Fanout.begin, List.length_append]
    rcases List.mem_append.1 hi with hi | hi
    · exact Nat.lt_succ_of_lt (h.begun i hi)
    · exact List.mem_singleton.1 hi ▸ Nat.lt_succ_self _
  · -- The new call has not been offered to anyone, and all before it have returned.
    have hsame : ∀ i < f.calls.length, (p.calls ++ [f.calls.length]).contains i = p.calls.contains i := by
      intro i hi
      simp [Nat.ne_of_lt hi]
    refine (h.inOrder.congr hf hsame).step hf hstep (.inr (.inr fun i hlt hi => ⟨.ok (), haccepted i ?_⟩))
    exact List.contains_iff_mem.1 ((hsame i hlt).symm.trans hi)
  · cases hi
    exact List.getLast?_concat
  · rcases List.mem_append.1 hi with hi | hi
    · exact (haccepted i hi).step hstep
    · exact absurd (congrArg some (List.mem_singleton.1 hi).symm) hw

end PassUnderway

namespace Traffic

variable {σ : Type} [Sink σ] {other : σ → σ → Prop} {t t' : Traffic σ}

theorem forall_middle {α : Type} {Q : α → Prop} {before after : List α} {a b : α} (h : ∀ x ∈ before ++ a :: after, Q x)
    (hb : Q b) : ∀ x ∈ before ++ b :: after, Q x := by
  simp only [List.forall_mem_append, List.forall_mem_cons] at h ⊢
  exact ⟨h.1, hb, h.2.2⟩

theorem oneByOne_step (hf : t.fanout.Consistent) (h : ∀ p ∈ t.passes, p.OneByOne t.fanout) (hstep : Step other t t') :
    ∀ p ∈ t'.passes, p.OneByOne t'.fanout := by
  have hbegin (d : Dispatch) : Fanout.Step other t.fanout (t.fanout.begin d) := .begin _ d
  -- A step concerns one pass at most; to the others it is something that happens at the sinks.
  cases hstep with
  | scan m table =>
    exact List.forall_mem_append.2 ⟨h, List.forall_mem_singleton.2 (PassUnderway.oneByOne_start t.fanout m table)⟩
  | change | clock => exact h
  | read hp idle hr _ reply =>
    rw [hp] at h
    exact forall_middle h ((h _ List.mem_append_cons_self).read idle hr reply)
  | publish hp idle hr =>
    rw [hp] at h
    exact forall_middle (fun q hq => (h q hq).step hf (hbegin _)) ((h _ List.mem_append_cons_self).await hf idle hr _)
  | told hp hi hresult hr =>
    rw [hp] at h
    exact forall_middle h ((h _ List.mem_append_cons_self).told hi hr hresult)
  | send => exact fun p hp => (h p hp).step hf (hbegin _)
  | sinks hstep => exact fun p hp => (h p hp).step hf hstep

theorem oneByOne_of_steps {stamper : Stamper} {sinks : List σ}
    (h : ReflTransGen (Step other) (start stamper sinks) t) : ∀ p ∈ t.passes, p.OneByOne t.fanout := by
  induction h with
  | refl => exact fun p hp => absurd hp List.not_mem_nil
  | tail hsteps hstep ih => exact oneByOne_step (Fanout.consistent_of_steps (fanout_of_steps hsteps)) ih hstep

/-- Every sink holds the events of a pass in the same order as those in front of it. -/
theorem heldOf_sublist {stamper : Stamper} {sinks : List σ} (h : ReflTransGen (Step other) (start stamper sinks) t)
    {p : PassUnderway} (hp : p ∈ t.passes) {i j : Nat} (hij : i ≤ j) :
    (t.fanout.heldOf (p.calls.contains ·) j).Sublist (t.fanout.heldOf (p.calls.contains ·) i) :=
  (oneByOne_of_steps h p hp).inOrder.heldOf_sublist (Fanout.consistent_of_steps (fanout_of_steps h)) hij

/-! ## One at a time -/

theorem sinks_of_steps {f : Fanout σ} (h : ReflTransGen (Fanout.Step other) t.fanout f)
    (hcalls : f.calls.length = t.fanout.calls.length) : ReflTransGen (Step other) t { t with fanout := f } := by
  induction h with
  | refl => exact .refl
  | @tail g f hsteps hstep ih =>
    -- No call has begun on the way.
    have hfirst : t.fanout.calls.length ≤ g.calls.length := Fanout.length_calls_le_of_steps hsteps
    have hsecond : g.calls.length ≤ f.calls.length := hstep.length_calls_le
    have hg : g.calls.length = t.fanout.calls.length := by omega
    exact (ih hg).tail (.sinks hstep (by rw [hcalls, hg]))

/-- A call that nothing comes between is one of the publisher over the whole row. -/
theorem exists_published (t : Traffic σ) (s : Send) :
    ∃ f, ReflTransGen (Step other) (t.publish s) { t.publish s with fanout := f } ∧
      f.Returned t.fanout.calls.length (Sink.offer (s.stamped t.stamper).1 t.fanout.row).1 ∧
      f.row = (Sink.offer (s.stamped t.stamper).1 t.fanout.row).2 := by
  obtain ⟨f, c, hsteps, hcalls, -, hresult, hrow⟩ := @Fanout.exists_alone σ _ other t.fanout (s.stamped t.stamper).1
  have hlength : f.calls.length = (t.publish s).fanout.calls.length := by simp [hcalls, publish, Fanout.begin]
  exact ⟨f, sinks_of_steps hsteps hlength, ⟨c, by rw [hcalls, List.getElem?_concat_length], hresult⟩, hrow⟩

section

variable {before after : List (List Send)}

theorem exists_publishedEach (first : Except PublishError Unit) (events : List ControlEvent) (t : Traffic σ)
    (ht : t.changes = before ++ events.map .event :: after) :
    ∃ f, ReflTransGen (Step other) t
        ⟨f, (Reaction.publishEach first events ⟨t.stamper, t.fanout.row⟩).2.stamper, t.passes, before ++ [] :: after⟩ ∧
      f.row = (Reaction.publishEach first events ⟨t.stamper, t.fanout.row⟩).2.sink := by
  induction events generalizing first t with
  | nil =>
    refine ⟨t.fanout, ?_, rfl⟩
    rw [List.map_nil] at ht
    rw [← ht]
    exact .refl
  | cons e rest ih =>
    let p : Publisher (List σ) := ⟨t.stamper, t.fanout.row⟩
    let t' : Traffic σ := { t with changes := before ++ rest.map .event :: after }
    have hsend : Step other t (t'.publish (.event e)) :=
      @Step.send σ _ other t before after [] (rest.map .event) (.event e) ht
    obtain ⟨f, hsteps, -, hrow⟩ := @exists_published σ _ other t' (.event e)
    have hp : ⟨(t'.publish (.event e)).stamper, f.row⟩ = (p.publish e).2 := by
      rw [hrow]
      rfl
    obtain ⟨first', hcons⟩ : ∃ first', Reaction.publishEach first (e :: rest) p =
        Reaction.publishEach first' rest (p.publish e).2 := ⟨_, rfl⟩
    obtain ⟨f', hrest, hrow'⟩ := ih first' { t'.publish (.event e) with fanout := f } rfl
    rw [hp] at hrest hrow'
    rw [hcons]
    exact ⟨f', (hsteps.trans hrest).head hsend, hrow'⟩

/-- Where nothing comes between, a change is sent as the reaction by itself sends it. -/
theorem exists_sent (r : Reaction) (t : Traffic σ) (ht : t.changes = before ++ r.sends :: after) :
    ∃ f, ReflTransGen (Step other) t
        ⟨f, (r.send ⟨t.stamper, t.fanout.row⟩).2.stamper, t.passes, before ++ [] :: after⟩ ∧
      f.row = (r.send ⟨t.stamper, t.fanout.row⟩).2.sink := by
  obtain ⟨live, events⟩ := r
  cases live with
  | none => exact exists_publishedEach (.ok ()) events t ht
  | some update =>
    let p : Publisher (List σ) := ⟨t.stamper, t.fanout.row⟩
    let t' : Traffic σ := { t with changes := before ++ events.map .event :: after }
    have hsend : Step other t (t'.publish (.view update)) :=
      @Step.send σ _ other t before after [] (events.map .event) (.view update) ht
    obtain ⟨f, hsteps, -, hrow⟩ := @exists_published σ _ other t' (.view update)
    have hp : ⟨(t'.publish (.view update)).stamper, f.row⟩ = (p.offer (.live update)).2 := by
      rw [hrow]
      rfl
    obtain ⟨f', hrest, hrow'⟩ := @exists_publishedEach σ _ other before after (p.offer (.live update)).1 events
      { t'.publish (.view update) with fanout := f } rfl
    rw [hp] at hrest hrow'
    exact ⟨f', (hsteps.trans hrest).head hsend, hrow'⟩

end

/-- A stage is read without its publisher. -/
theorem publisher_reply_of_read {r : Request} (reads : ∀ e, r ≠ .publish e) (table : String) (s : Stage (List σ)) :
    (Stage.world.reply table r s).2.publisher = s.publisher := by
  cases r with
  | publish e => exact absurd rfl (reads e)
  | lastHandNetted | requestedHand | requestTime | lastHand | lineup => rfl

/-- A pass that reads a stage and has the row to itself goes as it does when it is run. -/
theorem exists_driven {before after : List PassUnderway} (m : Moment) (table : String) (pass : TablePass)
    (s : Stage (List σ)) (f : Fanout σ) (calls : List Nat) (changes : List (List Send)) (hrow : f.row = s.publisher.sink) :
    ∃ f' calls', ReflTransGen (Step other)
        ⟨f, s.publisher.stamper, before ++ ⟨m, table, pass, calls, none⟩ :: after, changes⟩
        ⟨f', (TablePass.drive Stage.world m table pass s).2.publisher.stamper,
          before ++ ⟨m, table, .ended (TablePass.drive Stage.world m table pass s).1, calls', none⟩ :: after, changes⟩ ∧
      f'.row = (TablePass.drive Stage.world m table pass s).2.publisher.sink := by
  induction pass, s using TablePass.drive.induct (Stage.world : World (Stage (List σ))) m table generalizing f calls with
  | case1 t s result hnext =>
    cases TablePass.ended_of_next hnext
    rw [TablePass.drive_ended]
    exact ⟨f, calls, .refl, hrow⟩
  | case2 t s r hnext reply s' hreply ih =>
    have hr : r ∈ t.requests := List.mem_of_head? (TablePass.requests_of_next hnext)
    rw [TablePass.drive_next _ m table hnext, hreply]
    by_cases hreads : ∀ e, r ≠ .publish e
    · have hpublisher : s'.publisher = s.publisher := by
        rw [← publisher_reply_of_read hreads table s, hreply]
      obtain ⟨f', calls', hsteps, hrow'⟩ := ih f calls (by rw [hrow, hpublisher])
      let q : Traffic σ := ⟨f, s.publisher.stamper, before ++ ⟨m, table, t, calls, none⟩ :: after, changes⟩
      have hread : Step other q { q with passes := before ++ ⟨m, table, t.answer m table r reply, calls, none⟩ :: after } :=
        .read (p := ⟨m, table, t, calls, none⟩) rfl rfl hr hreads reply
      rw [hpublisher] at hsteps
      exact ⟨f', calls', hsteps.head hread, hrow'⟩
    · obtain ⟨e, rfl⟩ : ∃ e, r = .publish e := by simpa using hreads
      let p : PassUnderway := ⟨m, table, t, calls, none⟩
      let awaiting : Traffic σ := ⟨f, s.publisher.stamper, before ++ p.await f.calls.length :: after, changes⟩
      have hpublish : Step other ⟨f, s.publisher.stamper, before ++ p :: after, changes⟩ (awaiting.publish (.event e)) :=
        .publish (p := p) rfl rfl hr
      obtain ⟨f₁, hcall, hreturned, hrow₁⟩ := @exists_published σ _ other awaiting (.event e)
      have hresult : reply = (Sink.offer (.control (s.publisher.stamper.stamp e).1) f.row).1 := by
        rw [hrow]
        exact (congrArg Prod.fst hreply).symm
      have hs' : s'.publisher = ⟨(s.publisher.stamper.stamp e).2, f₁.row⟩ := by
        rw [hrow₁, show awaiting.fanout.row = s.publisher.sink from hrow]
        exact congrArg (·.2.publisher) hreply.symm
      have htold : Step other { awaiting.publish (.event e) with fanout := f₁ }
          ⟨f₁, (s.publisher.stamper.stamp e).2,
            before ++ ⟨m, table, t.answer m table (.publish e) reply, calls ++ [f.calls.length], none⟩ :: after, changes⟩ :=
        .told (p := p.await f.calls.length) rfl rfl (hresult ▸ hreturned) hr
      obtain ⟨f', calls', hsteps, hrow'⟩ := ih f₁ (calls ++ [f.calls.length]) (by rw [hs'])
      rw [hs'] at hsteps
      exact ⟨f', calls', ((hcall.tail htold).trans hsteps).head hpublish, hrow'⟩

end Traffic

end TableEscrow
