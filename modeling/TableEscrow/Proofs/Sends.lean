import TableEscrow.Proofs.Durable
import TableEscrow.Rehearsal.Script
/-!
# What becomes of a change's sends

A sink that keeps what it is offered shows what a change is sent as: the view, then each event in an
envelope of its own (`Reaction.dispatches`). `Reaction.send_eq` has it for any sink: all of it is offered,
whatever was refused before, and the first refusal is the result. `Reaction.Sent` says so of one processed change.
-/

namespace TableEscrow

/-! ## Offers one after the other -/

/-- A logged sink is a sink; its offers are numbered by their place in the log. -/
instance {σ : Type} [Sink σ] : Sink (Logged σ) := ⟨fun d s => (s.answer d, s.offer s.log.length d)⟩

namespace Logged

variable {σ : Type} [Sink σ]

/-- The sink once it was offered all of these. -/
def offerAll : List Dispatch → Logged σ → Logged σ
  | [], s => s
  | d :: rest, s => offerAll rest (s.offer s.log.length d)

/-- What it is offered meanwhile. -/
def offersOf : List Dispatch → Logged σ → List Offer
  | [], _ => []
  | d :: rest, s => ⟨s.log.length, d, s.answer d⟩ :: offersOf rest (s.offer s.log.length d)

theorem log_offerAll (ds : List Dispatch) (s : Logged σ) : (offerAll ds s).log = s.log ++ offersOf ds s := by
  induction ds generalizing s with
  | nil => exact (List.append_nil _).symm
  | cons d rest ih => rw [offerAll, ih, offersOf, offer, List.append_assoc, List.singleton_append]

theorem dispatches_offersOf (ds : List Dispatch) (s : Logged σ) : (offersOf ds s).map (·.dispatch) = ds := by
  induction ds generalizing s with
  | nil => rfl
  | cons d rest ih => rw [offersOf, List.map_cons, ih]

end Logged

/-- A sink that has in it a part of everything it accepts. -/
def Sink.Collects {σ α : Type} [Sink σ] (contents : σ → List α) (part : Dispatch → List α) : Prop :=
  ∀ d s, contents (Sink.offer d s).2 = contents s ++
    match (Sink.offer d s).1 with
    | .ok _ => part d
    | .error _ => []

theorem Offer.held_cons (o : Offer) (rest : List Offer) :
    held (o :: rest) =
      (match o.answer with
        | .ok _ => [o.dispatch]
        | .error _ => []) ++ held rest := by
  obtain ⟨call, dispatch, answer⟩ := o
  cases answer <;> rfl

theorem Sink.Collects.offerAll {σ α : Type} [Sink σ] {contents : σ → List α} {part : Dispatch → List α}
    (h : Collects contents part) (ds : List Dispatch) (s : Logged σ) :
    contents (s.offerAll ds).sink = contents s.sink ++ (Offer.held (s.offersOf ds)).flatMap part := by
  induction ds generalizing s with
  | nil => exact (List.append_nil _).symm
  | cons d rest ih =>
    have hfirst : contents (s.offer s.log.length d).sink = contents s.sink ++
        match s.answer d with
        | .ok _ => part d
        | .error _ => [] := h d s.sink
    rw [Logged.offerAll, ih, Logged.offersOf, Offer.held_cons, hfirst, List.append_assoc, List.flatMap_append]
    congr 2
    cases s.answer d <;> simp

/-! ## The first refusal -/

namespace Offer

theorem isAccepted_iff {o : Offer} : o.isAccepted = true ↔ o.answer = .ok () := by
  unfold isAccepted
  cases o.answer <;> simp

/-- What all the answers come to: the first refusal, if there is one. -/
def joined (offers : List Offer) : Except PublishError Unit :=
  match offers.find? (!·.isAccepted) with
  | some refusal => refusal.answer
  | none => .ok ()

theorem joined_cons (o : Offer) (rest : List Offer) : joined (o :: rest) = o.answer.bind fun _ => joined rest := by
  obtain ⟨call, dispatch, answer⟩ := o
  cases answer <;> rfl

theorem joined_eq_ok_iff {offers : List Offer} : joined offers = .ok () ↔ ∀ o ∈ offers, o.answer = .ok () := by
  induction offers with
  | nil => simp [joined]
  | cons o rest ih =>
    rw [joined_cons, List.forall_mem_cons, ← ih]
    cases o.answer <;> simp [Except.bind]

theorem joined_eq_error_iff {offers : List Offer} {e : PublishError} :
    joined offers = .error e ↔
      ∃ before refusal after, offers = before ++ refusal :: after ∧ (∀ o ∈ before, o.answer = .ok ()) ∧
        refusal.answer = .error e := by
  unfold joined
  constructor
  · intro h
    cases hfirst : offers.find? (!·.isAccepted) with
    | none =>
      rw [hfirst] at h
      cases h
    | some refusal =>
      rw [hfirst] at h
      obtain ⟨-, before, after, hsplit, hbefore⟩ := List.find?_eq_some_iff_append.1 hfirst
      exact ⟨before, refusal, after, hsplit, fun o ho => isAccepted_iff.1 (by simpa using hbefore o ho), h⟩
  · rintro ⟨before, refusal, after, rfl, hbefore, hrefusal⟩
    have hfirst : (before ++ refusal :: after).find? (!·.isAccepted) = some refusal := by
      refine List.find?_eq_some_iff_append.2 ⟨?_, before, after, rfl, fun o ho => ?_⟩
      · simp [isAccepted, hrefusal]
      · simpa using isAccepted_iff.2 (hbefore o ho)
    rw [hfirst]
    exact hrefusal

theorem held_of_accepted {offers : List Offer} (h : ∀ o ∈ offers, o.answer = .ok ()) :
    held offers = offers.map (·.dispatch) := by
  rw [held, List.filter_eq_self.2 fun o ho => isAccepted_iff.2 (h o ho)]

end Offer

namespace Reaction

/-- Events in envelopes of their own, numbered from the next id on. -/
def wrapped (stamper : Stamper) (events : List ControlEvent) : List Dispatch :=
  (events.zipIdx stamper.issued).map fun (e, number) => .control (.wrap (.ofNat number) stamper.now e)

/-- What a reaction is sent as: the view first and then the events. -/
def dispatches (stamper : Stamper) (r : Reaction) : List Dispatch :=
  r.live.toList.map .live ++ wrapped stamper r.events

/-- The stamper once it has stamped so many events. -/
def stampedTo (stamper : Stamper) (events : List ControlEvent) : Stamper :=
  { stamper with issued := stamper.issued + events.length }

variable {σ : Type} [Sink σ]

/-- Events are offered whatever was refused before. A sink goes the same way whether its offers are kept or not. -/
theorem publishEach_eq (first : Except PublishError Unit) (events : List ControlEvent) (stamper : Stamper)
    (s : Logged σ) :
    publishEach first events ⟨stamper, s⟩ =
        (first.bind fun _ => Offer.joined (s.offersOf (wrapped stamper events)),
          ⟨stampedTo stamper events, s.offerAll (wrapped stamper events)⟩) ∧
      publishEach first events ⟨stamper, s.sink⟩ =
        (first.bind fun _ => Offer.joined (s.offersOf (wrapped stamper events)),
          ⟨stampedTo stamper events, (s.offerAll (wrapped stamper events)).sink⟩) := by
  induction events generalizing first stamper s with
  | nil => cases first <;> exact ⟨rfl, rfl⟩
  | cons e rest ih =>
    let d : Dispatch := .control (.wrap (.ofNat stamper.issued) stamper.now e)
    let stamper' : Stamper := { stamper with issued := stamper.issued + 1 }
    -- What the events that are left are published after: this answer, unless there was a refusal before.
    let next : Except PublishError Unit :=
      match first with
      | .ok _ => s.answer d
      | .error _ => first
    have hjoined (offers : List Offer) :
        (first.bind fun _ => Offer.joined (⟨s.log.length, d, s.answer d⟩ :: offers)) =
          next.bind fun _ => Offer.joined offers := by
      cases first with
      | ok _ => exact Offer.joined_cons ..
      | error _ => rfl
    have hwrapped : wrapped stamper (e :: rest) = d :: wrapped stamper' rest := rfl
    have hstamper : stampedTo stamper (e :: rest) = stampedTo stamper' rest := by
      simp [stampedTo, stamper', Nat.add_comm, Nat.add_left_comm]
    rw [hwrapped, Logged.offersOf, Logged.offerAll, hjoined, hstamper]
    exact ih next stamper' (s.offer s.log.length d)

/-- Whatever is refused on the way, all of a reaction is offered, and the first refusal is the result. -/
theorem send_eq (r : Reaction) (stamper : Stamper) (s : Logged σ) :
    r.send ⟨stamper, s⟩ =
        ((Offer.joined (s.offersOf (r.dispatches stamper))).map fun _ => ⟨r.live.isSome, r.events⟩,
          ⟨stampedTo stamper r.events, s.offerAll (r.dispatches stamper)⟩) ∧
      r.send ⟨stamper, s.sink⟩ =
        ((Offer.joined (s.offersOf (r.dispatches stamper))).map fun _ => ⟨r.live.isSome, r.events⟩,
          ⟨stampedTo stamper r.events, (s.offerAll (r.dispatches stamper)).sink⟩) := by
  obtain ⟨live, events⟩ := r
  cases live with
  | none =>
    obtain ⟨hlogged, hplain⟩ := publishEach_eq (.ok ()) events stamper s
    have hdispatches : dispatches stamper ⟨none, events⟩ = wrapped stamper events := rfl
    simp only [send, hdispatches, hlogged, hplain, Except.bind, and_self]
  | some update =>
    let s' : Logged σ := s.offer s.log.length (.live update)
    obtain ⟨hlogged, hplain⟩ := publishEach_eq (s.answer (.live update)) events stamper s'
    have hdispatches : dispatches stamper ⟨some update, events⟩ = .live update :: wrapped stamper events := rfl
    have hview : send ⟨some update, events⟩ ⟨stamper, s⟩ =
        ((publishEach (s.answer (.live update)) events ⟨stamper, s'⟩).1.map fun _ => ⟨true, events⟩,
          (publishEach (s.answer (.live update)) events ⟨stamper, s'⟩).2) := rfl
    have hview' : send ⟨some update, events⟩ ⟨stamper, s.sink⟩ =
        ((publishEach (s.answer (.live update)) events ⟨stamper, s'.sink⟩).1.map fun _ => ⟨true, events⟩,
          (publishEach (s.answer (.live update)) events ⟨stamper, s'.sink⟩).2) := rfl
    rw [hview, hview', hlogged, hplain, hdispatches, Logged.offersOf, Offer.joined_cons]
    exact ⟨rfl, rfl⟩

/-- What a reaction's sends came to, from all that a sink was offered meanwhile. -/
structure Sent (stamper : Stamper) (r : Reaction) (result : Except PublishError Outcome) (offers : List Offer) :
    Prop where
  /-- Everything was offered once and in order, whatever became of what was offered before. -/
  attempted : offers.map (·.dispatch) = r.dispatches stamper
  refused : ∀ e, result = .error e ↔
    ∃ before refusal after, offers = before ++ refusal :: after ∧ (∀ o ∈ before, o.answer = .ok ()) ∧
      refusal.answer = .error e
  succeeded : (∃ outcome, result = .ok outcome) ↔ ∀ o ∈ offers, o.answer = .ok ()
  /-- An outcome is what was accepted, and that is everything. -/
  outcome : ∀ outcome, result = .ok outcome →
    outcome.livePublished = r.live.isSome ∧ outcome.events = r.events ∧ Offer.held offers = r.dispatches stamper

theorem sent_of_joined {stamper : Stamper} {r : Reaction} {offers : List Offer}
    (hd : offers.map (·.dispatch) = r.dispatches stamper) :
    r.Sent stamper ((Offer.joined offers).map fun _ => ⟨r.live.isSome, r.events⟩) offers := by
  cases hj : Offer.joined offers with
  | ok _ =>
    have haccepted := Offer.joined_eq_ok_iff.1 hj
    refine ⟨hd, fun e => ?_, iff_of_true ⟨_, rfl⟩ haccepted, ?_⟩
    · rw [← Offer.joined_eq_error_iff, hj]
      exact iff_of_false nofun nofun
    · rintro _ ⟨⟩
      exact ⟨rfl, rfl, (Offer.held_of_accepted haccepted).trans hd⟩
  | error e' =>
    have hrefused : ¬ ∀ o ∈ offers, o.answer = .ok () := by
      intro haccepted
      cases (Offer.joined_eq_ok_iff.2 haccepted).symm.trans hj
    refine ⟨hd, fun e => ?_, iff_of_false (by rintro ⟨_, ⟨⟩⟩) hrefused, nofun⟩
    rw [← Offer.joined_eq_error_iff, hj, Except.map, Except.error.injEq, Except.error.injEq]

theorem view_eq_some_iff {table : String} {v : Verdicts} {after : Hand} {update : LiveUpdate} :
    view table v after = some update ↔ ∃ payload, v.rendered = .ok payload ∧ update = ⟨table, after.id, payload⟩ := by
  unfold view
  cases v.rendered <;> simp [eq_comm]

/-- A change with an image that counts sends its view and each of its events, whichever of them are refused. The
sink has in it what it accepted, in that order. The result is the error of the first that was refused; if none was,
it is the events, and whether there was a view. -/
theorem failures_stop_no_sibling {σ : Type} [Sink σ] (o : Oracle) {c : HandChange} {after : Hand}
    (hkind : c.kind = .insert ∨ c.kind = .modify) (hafter : c.after = some after) (stamper : Stamper) (s : σ) :
    let r := ofChange (o.verdicts (c.before.getD after) after) c
    ∃ result stamper' s' offers,
      run o c ⟨stamper, s⟩ = (result, ⟨stamper', s'⟩) ∧
        run o c ⟨stamper, (⟨s, []⟩ : Logged σ)⟩ = (result, ⟨stamper', s', offers⟩) ∧ r.Sent stamper result offers ∧
          (∀ update, r.live = some update ↔
            ∃ payload, o.render after = .ok payload ∧ update = ⟨c.table, after.id, payload⟩) ∧
            ∀ {α : Type} (contents : σ → List α) (part : Dispatch → List α), Sink.Collects contents part →
              contents s' = contents s ++ (Offer.held offers).flatMap part := by
  intro r
  let logged : Logged σ := ⟨s, []⟩
  have hrun {τ : Type} [Sink τ] (p : Publisher τ) : run o c p = r.send p := by rw [run, hafter]
  have hlive : r.live = view c.table (o.verdicts (c.before.getD after) after) after := by
    obtain ⟨kind, table, hand, before, image⟩ := c
    obtain rfl : image = some after := hafter
    rcases hkind with rfl | rfl <;> cases before <;> rfl
  obtain ⟨hlogged, hplain⟩ := send_eq r stamper logged
  have hlog : (logged.offerAll (r.dispatches stamper)).log = logged.offersOf (r.dispatches stamper) :=
    (Logged.log_offerAll _ logged).trans (List.nil_append _)
  refine ⟨_, stampedTo stamper r.events, (logged.offerAll (r.dispatches stamper)).sink,
    logged.offersOf (r.dispatches stamper), (hrun _).trans hplain, ?_,
    sent_of_joined (Logged.dispatches_offersOf _ logged), fun update => ?_, fun contents part h => h.offerAll _ logged⟩
  · refine (hrun _).trans (hlogged.trans ?_)
    rw [← hlog]
  · rw [hlive, view_eq_some_iff]
    rfl

/-- The request that the leave calls for is refused. The leave is announced nevertheless, and so is the view. -/
theorem failures_stop_no_sibling_request_refused :
    let seat : Seat := .ofAddress "0xaa" 500
    let before : Hand := { Hand.start "0xt" 50 .flop 100 with lineup := [seat] }
    let after : Hand := { before with lineup := [{ seat with exitHand := some 42 }] }
    let c : HandChange := .modification before after
    let s : Recorder := Recorder.empty.refuse .tableNettingRequest
    c.kind = .modify ∧ c.after = some after ∧ ∃ stamper' s' offers,
      run Script.standard.oracle c ⟨⟨7, ⟨0, 0⟩⟩, s⟩ =
        (.error (.rejected .tableNettingRequest "0xt" "queue full"), ⟨stamper', s'⟩) ∧
      offers.map (·.answer) = [.ok (), .ok (), .error (.rejected .tableNettingRequest "0xt" "queue full")] ∧
      s'.envelopes = (Offer.held offers).flatMap (·.envelope?.toList) ∧
      (ofChange (Script.standard.oracle.verdicts before after) c).Sent ⟨7, ⟨0, 0⟩⟩
        (.error (.rejected .tableNettingRequest "0xt" "queue full")) offers := by
  intro seat before after c s
  obtain ⟨result, stamper', s', offers, hrun, hlogged, hsent, -, hcontents⟩ :=
    failures_stop_no_sibling Script.standard.oracle (c := c) (.inr rfl) rfl ⟨7, ⟨0, 0⟩⟩ s
  have hresult : (run Script.standard.oracle c ⟨⟨7, ⟨0, 0⟩⟩, s⟩).1 =
      .error (.rejected .tableNettingRequest "0xt" "queue full") := rfl
  have hanswers : (run Script.standard.oracle c ⟨⟨7, ⟨0, 0⟩⟩, (⟨s, []⟩ : Logged Recorder)⟩).2.sink.log.map
      (·.answer) = [.ok (), .ok (), .error (.rejected .tableNettingRequest "0xt" "queue full")] := rfl
  rw [hrun] at hresult
  rw [hlogged] at hanswers
  obtain rfl : result = _ := hresult
  exact ⟨rfl, rfl, stamper', s', offers, hrun, hanswers, hcontents Recorder.envelopes _ Recorder.keeps.offer, hsent⟩

end Reaction

end TableEscrow
