import TableEscrow.Deployment
import TableEscrow.Proofs.Branches
import TableEscrow.Proofs.GatewayReplies
/-!
# Passes over a gateway

A pass whose contract reads go to a gateway hears a reply to each call, and goes on only while the replies are good.
`Heard` is what it has heard so far, and `Told` what that makes of the pass: `told_answer` is the step, and
`Order.conduct_keeps` takes it through a whole pass in any order of the replies. So an event goes out only if all that
its branch has to know was said by good replies, and a bad reply ends the pass before any event
(`events_only_on_good_replies`).
-/

namespace TableEscrow

open Gateway (CallError Reply)
open Gateway.Contract

/-- The call that a request makes of the contract. -/
def Request.call? : Request → Option ChainCall
  | .lastHandNetted => some .lastHandNetted
  | .requestedHand => some .requestedHand
  | .requestTime => some .requestTime
  | .lineup => some .lineup
  | .lastHand | .publish _ => none

/-- The replies a pass has heard, in their order. -/
abbrev Heard := List (ChainCall × Except CallError Reply)

namespace World

variable {σ : Type}

/-- The contract reads of a world are what a gateway replies. -/
structure OverGateway (w : World σ) (table : String) (replies : ChainCall → σ → Except CallError Reply) : Prop where
  netted : ∀ s, (w.reply table .lastHandNetted s).1 =
    readCounter Decode.uint64 table .lastHandNetted (replies .lastHandNetted s)
  requested : ∀ s, (w.reply table .requestedHand s).1 =
    readCounter Decode.uint64 table .requestedHand (replies .requestedHand s)
  time : ∀ s, (w.reply table .requestTime s).1 = readCounter Decode.int64 table .requestTime (replies .requestTime s)
  lineup : ∀ s, (w.reply table .lineup s).1 = readCall ChainLineup.decode table .lineup (replies .lineup s)

/-- The same world, keeping what the gateway replies. -/
def hearing (w : World σ) (replies : ChainCall → σ → Except CallError Reply) : World (σ × Heard) where
  tables s := ((w.tables s.1).1, (w.tables s.1).2, s.2)
  reply table r s :=
    ((w.reply table r s.1).1, (w.reply table r s.1).2, s.2 ++ (r.call?.map fun call => (call, replies call s.1)).toList)

end World

/-- The reads of a deployment are replies of its gateway, whatever its network, database and outbox do. -/
theorem Deployment.overGateway {σ : Type} (d : Deployment σ) (table : String) : d.world.OverGateway table
    fun call p => (Gateway.Contract.get d.network d.gateway table call p.sink.state).1 where
  netted _ := by simp only [world, reply, behind, Gateway.Contract.lastHandNetted]
  requested _ := by simp only [world, reply, behind, Gateway.Contract.requestedHand]
  time _ := by simp only [world, reply, behind, Gateway.Contract.requestTime]
  lineup _ := by simp only [world, reply, behind, Gateway.Contract.lineup]

namespace Order

variable {σ : Type} {o : Order} {w : World σ} {m : Moment} {table : String}

variable (w m table) in
/-- A pass goes on in a world that keeps what the gateway replies as it does in the world itself, and what is kept is a
reply of the gateway to each of its calls. -/
theorem conduct_hearing (replies : ChainCall → σ → Except CallError Reply) (t : TablePass) (s : σ) (heard : Heard) :
    ∃ more : Heard, o.conduct (w.hearing replies) m table t (s, heard) =
        ⟨(o.conduct w m table t s).result, (o.conduct w m table t s).log,
          ((o.conduct w m table t s).world, heard ++ more)⟩ ∧
      more.map (·.1) = (o.conduct w m table t s).log.filterMap Request.call? ∧
      ∀ x ∈ more, ∃ s, x.2 = replies x.1 s := by
  induction t, s using conduct.induct o w m table generalizing heard with
  | case1 t s result h =>
    rw [conduct_done o w m table h, conduct_done o (w.hearing replies) m table h]
    exact ⟨[], by rw [List.append_nil], rfl, List.forall_mem_nil _⟩
  | case2 t s r h reply s' hpair ih =>
    obtain ⟨more, hrest, hcalls, hgiven⟩ := ih (heard ++ (r.call?.map fun call => (call, replies call s)).toList)
    refine ⟨(r.call?.map fun call => (call, replies call s)).toList ++ more, ?_⟩
    rw [conduct_next o w m table h, conduct_next o (w.hearing replies) m table h]
    simp only [World.hearing, hpair] at hrest ⊢
    refine ⟨by rw [hrest, List.append_assoc], ?_, ?_⟩
    · rw [List.map_append, hcalls, List.filterMap_cons]
      cases r.call? <;> rfl
    · rw [List.forall_mem_append]
      refine ⟨?_, hgiven⟩
      cases r.call? with
      | none => exact List.forall_mem_nil _
      | some call => exact List.forall_mem_singleton.2 ⟨s, rfl⟩

/-- Asked in its own order, a pass reads the counters one after the other. -/
theorem asked_counters {s s₁ s₂ s₃ : σ} {netted requested : UInt64} {time : Int64}
    (hnetted : w.reply table .lastHandNetted s = (.ok netted, s₁))
    (hrequested : w.reply table .requestedHand s₁ = (.ok requested, s₂))
    (htime : w.reply table .requestTime s₂ = (.ok time, s₃)) :
    (asked.conduct w m table .start s).log = .lastHandNetted :: .requestedHand :: .requestTime ::
      (asked.conduct w m table (.counted m table (some netted) (some requested) (some time)) s₃).log := by
  rw [conduct_next (r := .lastHandNetted) _ _ m table rfl s, hnetted,
    conduct_next (r := .requestedHand) _ _ m table rfl s₁, hrequested,
    conduct_next (r := .requestTime) _ _ m table rfl s₂, htime]
  rfl

end Order

/-! ## What has been heard -/

namespace Heard

variable {heard : Heard} {call call' : ChainCall} {reply : Except CallError Reply} {status : NettingStatus}

/-- Every reply answers its call. -/
def AllGood (heard : Heard) : Prop := ∀ x ∈ heard, Good x.1 x.2

/-- A call has been replied to, and this is known of the reply. -/
def Said (heard : Heard) (call : ChainCall) (known : Except CallError Reply → Prop) : Prop :=
  ∃ reply, (call, reply) ∈ heard ∧ known reply

theorem Said.concat {known : Except CallError Reply → Prop} (h : Said heard call known)
    (x : ChainCall × Except CallError Reply) : Said (heard ++ [x]) call known := by
  obtain ⟨reply, hmem, hknown⟩ := h
  exact ⟨reply, List.mem_append_left _ hmem, hknown⟩

/-- What is known of the reply to a call, or that the call has not been made. -/
def Slot (heard : Heard) (call : ChainCall) : Option (Except CallError Reply → Prop) → Prop
  | none => ∀ x ∈ heard, x.1 ≠ call
  | some known => Said heard call known

theorem Slot.nil : Slot [] call none := List.forall_mem_nil _

theorem Slot.other {known : Option (Except CallError Reply → Prop)} (h : Slot heard call known) (hne : call' ≠ call) :
    Slot (heard ++ [(call', reply)]) call known := by
  cases known with
  | none =>
    intro x hx
    rcases List.mem_append.1 hx with hx | hx
    · exact h x hx
    · cases List.mem_singleton.1 hx
      exact hne
  | some known => exact Said.concat h _

theorem Slot.own {known : Except CallError Reply → Prop} (h : known reply) (heard : Heard) :
    Slot (heard ++ [(call, reply)]) call (some known) :=
  ⟨reply, List.mem_append_right _ List.mem_cons_self, h⟩

theorem nodup_concat (h : (heard.map (·.1)).Nodup) (hslot : Slot heard call none) (reply : Except CallError Reply) :
    ((heard ++ [(call, reply)]).map (·.1)).Nodup := by
  rw [List.map_append, List.nodup_append]
  refine ⟨h, by simp, fun c hc c' hc' => ?_⟩
  obtain ⟨x, hx, rfl⟩ := List.mem_map.1 hc
  have hcall : c' = call := by simpa using hc'
  exact hcall ▸ hslot x hx

theorem AllGood.concat (h : AllGood heard) (hgood : Good call reply) : AllGood (heard ++ [(call, reply)]) := by
  intro x hx
  rcases List.mem_append.1 hx with hx | hx
  · exact h x hx
  · cases List.mem_singleton.1 hx
    exact hgood

/-- The three counters were said. -/
structure Counted (heard : Heard) (status : NettingStatus) : Prop where
  netted : Said heard .lastHandNetted fun reply => Bears reply status.lastHandNetted.toNat
  requested : Said heard .requestedHand fun reply => Bears reply status.requestedHand.toNat
  time : Said heard .requestTime fun reply => Bears reply status.requestTime.toInt

theorem Counted.concat (h : Counted heard status) (x : ChainCall × Except CallError Reply) :
    Counted (heard ++ [x]) status :=
  ⟨h.netted.concat x, h.requested.concat x, h.time.concat x⟩

def Seated (heard : Heard) (lineup : ChainLineup) : Prop := Said heard .lineup fun reply => BearsLineup reply lineup

/-- Good replies say all that the branch of a pass has to know: the counters, and without an outstanding request the
seats as well. -/
def Complete (heard : Heard) : Prop :=
  ∃ status, Counted heard status ∧ (status.isPending = true ∨ ∃ lineup, Seated heard lineup)

/-- What was heard calls for some events. -/
inductive Calls (m : Moment) (table : String) (heard : Heard) : List ControlEvent → Prop
  | pending {status : NettingStatus} {d : PendingDecision} (counted : Counted heard status)
      (pending : status.isPending = true) (decision : PendingDecision.ofStatus status m.now m.thresholds = .ok d) :
    Calls m table heard (d.verdict.event? table status).toList
  | settled {status : NettingStatus} {hand : Hand} {lineup : ChainLineup} {d : SettledDecision}
      (counted : Counted heard status) (settled : status.isPending = false) (seated : Seated heard lineup)
      (decision : SettledDecision.ofTable status hand lineup m.now m.thresholds = .ok d) :
    Calls m table heard (d.events table)

theorem Calls.complete {m : Moment} {table : String} {events : List ControlEvent} (h : Calls m table heard events) :
    Complete heard := by
  cases h with
  | pending counted pending => exact ⟨_, counted, .inl pending⟩
  | settled counted _ seated => exact ⟨_, counted, .inr ⟨_, seated⟩⟩

end Heard

/-! ## What the replies make of a pass -/

namespace TablePass

open Heard
open Request (offered)

/-- How a pass over a gateway ends: it has heard all it needs and publishes what that calls for; or the last reply is
the first bad one; or the hand store fails it. -/
inductive Ending (m : Moment) (table : String) (stored : ReadError → Prop) (heard : Heard) (events : List ControlEvent) :
    Except PassError Reconciliation → Prop
  | heard {result : Except PassError Reconciliation} (good : AllGood heard) (complete : Complete heard)
      (called : events = [] ∨ ∃ all, Calls m table heard all ∧ events <+: all) :
    Ending m table stored heard events result
  | bad {earlier : Heard} {call : ChainCall} {reply : Except CallError Reply} {reason : String} (good : AllGood earlier)
      (last : heard = earlier ++ [(call, reply)]) (bad : ¬ Good call reply) (none : events = []) :
    Ending m table stored heard events (.error (.read (.chain table call reason)))
  | stored {e : ReadError} (good : AllGood heard) (failed : stored e) (none : events = []) :
    Ending m table stored heard events (.error (.read e))

/-- What a pass waits for has not been heard, and the rest has. -/
def Point (m : Moment) (table : String) (stored : ReadError → Prop) (heard : Heard) (events : List ControlEvent) :
    TablePass → Prop
  | .counting netted requested time _ => (AllGood heard ∧ events = []) ∧ Slot heard .lineup none ∧
    Slot heard .lastHandNetted (netted.map fun n reply => Bears reply n.toNat) ∧
    Slot heard .requestedHand (requested.map fun n reply => Bears reply n.toNat) ∧
    Slot heard .requestTime (time.map fun n reply => Bears reply n.toInt)
  | .gathering status _ lineup _ => (AllGood heard ∧ events = []) ∧ Counted heard status ∧ status.isPending = false ∧
    Slot heard .lineup (lineup.map fun l reply => BearsLineup reply l)
  | .publishing _ _ next left => AllGood heard ∧ Calls m table heard (events ++ next :: left)
  | .ended result => Ending m table stored heard events result

/-- No call is made twice, and the pass stands where the replies have brought it. -/
structure Told (m : Moment) (table : String) (stored : ReadError → Prop) (heard : Heard) (events : List ControlEvent)
    (t : TablePass) : Prop where
  once : (heard.map (·.1)).Nodup
  point : t.Point m table stored heard events

variable {m : Moment} {table : String} {stored : ReadError → Prop} {heard : Heard} {events : List ControlEvent}

theorem told_start : Told m table stored [] [] start :=
  ⟨.nil, ⟨List.forall_mem_nil _, rfl⟩, .nil, .nil, .nil, .nil⟩

theorem point_publish {outcome : TableOutcome} {accepted left : List ControlEvent} (hgood : AllGood heard)
    (h : Calls m table heard (events ++ left)) : Point m table stored heard events (publish table outcome accepted left) := by
  cases left with
  | nil =>
    rw [List.append_nil] at h
    exact .heard hgood h.complete (.inr ⟨events, h, List.prefix_refl _⟩)
  | cons next left => exact ⟨hgood, h⟩

theorem point_counted (hgood : AllGood heard) (hseats : Slot heard .lineup none) {netted requested : Option UInt64}
    {time : Option Int64} (hn : Slot heard .lastHandNetted (netted.map fun n reply => Bears reply n.toNat))
    (hr : Slot heard .requestedHand (requested.map fun n reply => Bears reply n.toNat))
    (ht : Slot heard .requestTime (time.map fun n reply => Bears reply n.toInt)) :
    Point m table stored heard [] (counted m table netted requested time) := by
  unfold counted
  split
  · next netted requested time =>
    -- All three slots are filled, so together they are the counters.
    have hcounted : Counted heard ⟨netted, requested, time⟩ := ⟨hn, hr, ht⟩
    by_cases hp : (NettingStatus.mk netted requested time).isPending = true
    · rw [if_pos hp]
      unfold judgePending
      split
      · next d hd => exact point_publish hgood (.pending hcounted hp hd)
      · exact .heard hgood ⟨_, hcounted, .inl hp⟩ (.inl rfl)
    · rw [if_neg hp]
      exact ⟨⟨hgood, rfl⟩, hcounted, Bool.eq_false_iff.2 hp, hseats⟩
  all_goals exact ⟨⟨hgood, rfl⟩, hseats, hn, hr, ht⟩

theorem point_gathered (hgood : AllGood heard) {status : NettingStatus} (hcounted : Counted heard status)
    (hp : status.isPending = false) {hand : Option (Option Hand)} {lineup : Option ChainLineup}
    (hl : Slot heard .lineup (lineup.map fun l reply => BearsLineup reply l)) :
    Point m table stored heard [] (gathered m table status hand lineup) := by
  unfold gathered
  split
  · exact .heard hgood ⟨_, hcounted, .inr ⟨_, hl⟩⟩ (.inl rfl)
  · unfold judgeSettled
    split
    · next d hd => exact point_publish hgood (.settled hcounted hp hl hd)
    · exact .heard hgood ⟨_, hcounted, .inr ⟨_, hl⟩⟩ (.inl rfl)
  all_goals exact ⟨⟨hgood, rfl⟩, hcounted, hp, hl⟩

/-- What a read makes of a pass: it goes on with a good reply, and a bad one ends it. -/
theorem point_read {α : Type} {decode : Decoder α} {goOn : α → TablePass} {call : ChainCall}
    {reply : Except CallError Reply} (hgood : AllGood heard)
    (hiff : (∃ a, readCall decode table call reply = .ok a) ↔ Good call reply)
    (hok : ∀ a, readCall decode table call reply = .ok a → AllGood (heard ++ [(call, reply)]) →
      Point m table stored (heard ++ [(call, reply)]) [] (goOn a)) :
    Point m table stored (heard ++ [(call, reply)]) [] (afterRead goOn (readCall decode table call reply)) := by
  cases hread : readCall decode table call reply with
  | ok a => exact hok a hread (hgood.concat (hiff.1 ⟨a, hread⟩))
  | error e =>
    obtain ⟨reason, rfl⟩ := readCall_eq_error hread
    refine Ending.bad hgood rfl (fun h => ?_) rfl
    obtain ⟨a, ha⟩ := hiff.2 h
    cases hread.symm.trans ha

variable {σ : Type} {w : World σ} {replies : ChainCall → σ → Except CallError Reply}

/-- Each answer leaves a pass where what it has heard puts it. -/
theorem told_answer (hw : w.OverGateway table replies) {s : σ} (hs : ∀ e, (w.reply table .lastHand s).1 = .error e → stored e)
    {t : TablePass} {r : Request} (ht : Told m table stored heard events t) (hr : r ∈ t.requests) :
    Told m table stored (heard ++ (r.call?.map fun call => (call, replies call s)).toList) (events ++ r.event?.toList)
      (t.answer m table r (w.reply table r s).1) := by
  obtain ⟨honce, hpoint⟩ := ht
  generalize hreply : (w.reply table r s).1 = reply
  have ha := answered m table reply hr
  generalize t.answer m table r reply = t' at ha ⊢
  -- A read that waits has an empty slot, so its call is a new one; what its reply makes of the pass is `point_read`.
  cases ha with
  | netted =>
    obtain ⟨⟨hgood, rfl⟩, hseats, hnetted, hrequested, htime⟩ := hpoint
    cases (hw.netted s).symm.trans hreply
    refine ⟨nodup_concat honce hnetted _, point_read hgood exists_uint64_iff fun n hn hgood => ?_⟩
    exact point_counted hgood (hseats.other nofun) (.own (readCounter_uint64_iff.1 hn) _) (hrequested.other nofun)
      (htime.other nofun)
  | requested =>
    obtain ⟨⟨hgood, rfl⟩, hseats, hnetted, hrequested, htime⟩ := hpoint
    cases (hw.requested s).symm.trans hreply
    refine ⟨nodup_concat honce hrequested _, point_read hgood exists_uint64_iff fun n hn hgood => ?_⟩
    exact point_counted hgood (hseats.other nofun) (hnetted.other nofun) (.own (readCounter_uint64_iff.1 hn) _)
      (htime.other nofun)
  | time =>
    obtain ⟨⟨hgood, rfl⟩, hseats, hnetted, hrequested, htime⟩ := hpoint
    cases (hw.time s).symm.trans hreply
    refine ⟨nodup_concat honce htime _, point_read hgood exists_int64_iff fun n hn hgood => ?_⟩
    exact point_counted hgood (hseats.other nofun) (hnetted.other nofun) (hrequested.other nofun)
      (.own (readCounter_int64_iff.1 hn) _)
  | hand reply =>
    obtain ⟨⟨hgood, rfl⟩, hcounted, hpending, hlineup⟩ := hpoint
    rw [Request.call?, Option.map_none, Option.toList_none, List.append_nil]
    refine ⟨honce, ?_⟩
    cases reply with
    | ok hand => exact point_gathered hgood hcounted hpending hlineup
    | error e => exact .stored hgood (hs e hreply) rfl
  | lineup =>
    obtain ⟨⟨hgood, rfl⟩, hcounted, hpending, hlineup⟩ := hpoint
    cases (hw.lineup s).symm.trans hreply
    refine ⟨nodup_concat honce hlineup _, point_read hgood exists_lineup_iff fun l hl hgood => ?_⟩
    exact point_gathered hgood (hcounted.concat _) hpending (.own (readCall_lineup_iff.1 hl) _)
  | @accepted outcome accepted next left =>
    obtain ⟨hgood, hcalls⟩ := hpoint
    rw [Request.call?, Option.map_none, Option.toList_none, List.append_nil]
    refine ⟨honce, point_publish hgood ?_⟩
    rw [List.append_assoc]
    exact hcalls
  | @refused outcome accepted next left refusal =>
    obtain ⟨hgood, hcalls⟩ := hpoint
    rw [Request.call?, Option.map_none, Option.toList_none, List.append_nil]
    refine ⟨honce, .heard hgood hcalls.complete (.inr ⟨_, hcalls, left, ?_⟩)⟩
    rw [List.append_assoc]
    rfl

/-- A whole pass ends where what it has heard puts it. -/
theorem told_conduct (hw : w.OverGateway table replies) (o : Order) (s : σ) :
    Told m table (fun e => ∃ s, (w.reply table .lastHand s).1 = .error e)
      (o.conduct (w.hearing replies) m table start (s, [])).world.2
      (offered (o.conduct (w.hearing replies) m table start (s, [])).log)
      (.ended (o.conduct (w.hearing replies) m table start (s, [])).result) := by
  let I (s : σ × Heard) (log : List Request) (t : TablePass) : Prop :=
    Told m table (fun e => ∃ s, (w.reply table .lastHand s).1 = .error e) s.2 (offered log) t
  have hstart : I (s, []) [] start := told_start
  refine Order.conduct_keeps (I := I) (fun {s log t r} ht hr => ?_) hstart
  change Told m table _ _ (offered (log ++ [r])) _
  rw [Request.offered_concat]
  exact told_answer hw (fun e he => ⟨s.1, he⟩) ht hr

/-- Over a gateway, a pass offers events only if good replies said all that its branch has to know, and only what they
call for. Otherwise it offers none: either it ends with an error that names the table and a call whose reply was bad, or
no reply was bad and the hand store failed it. What numerals say is exact, so a reply is bad if its counter is written
with a fraction or an exponent, or does not fit. -/
theorem events_only_on_good_replies (hw : w.OverGateway table replies) (o : Order) (m : Moment) {s : σ}
    {pass : Conducted σ} (hpass : o.conduct w m table start s = pass) :
    (∃ heard : Heard,
      o.conduct (w.hearing replies) m table start (s, []) = ⟨pass.result, pass.log, (pass.world, heard)⟩ ∧
      heard.map (·.1) = pass.log.filterMap Request.call? ∧ (heard.map (·.1)).Nodup ∧
      (∀ x ∈ heard, ∃ s', x.2 = replies x.1 s') ∧
      (offered pass.log ≠ [] → AllGood heard ∧ Complete heard ∧
        ∃ all, Calls m table heard all ∧ offered pass.log <+: all) ∧
      (¬ (AllGood heard ∧ Complete heard) → offered pass.log = [] ∧
        ((∃ call reply reason, (call, reply) ∈ heard ∧ ¬ Good call reply ∧
            pass.result = .error (.read (.chain table call reason))) ∨
          AllGood heard ∧ ∃ e s', (w.reply table .lastHand s').1 = .error e ∧ pass.result = .error (.read e)))) ∧
      ∀ (n : Numeral) (i : Int), n.value?.bind Number.toInt? = some i ↔ n.fraction = none ∧ n.exponent = none ∧
        (n.negative = false ∧ i = Text.natOfDecimal n.whole ∧ i < 2 ^ 64 ∨
          n.negative = true ∧ i = -(Text.natOfDecimal n.whole : Int) ∧ -2 ^ 63 ≤ i ∧ i < 0) := by
  refine ⟨?_, fun n i => Numeral.toInt?_value?_iff⟩
  obtain ⟨heard, hconduct, hcalls, hgiven⟩ := o.conduct_hearing w m table replies start s []
  have htold := told_conduct (m := m) hw o s
  rw [hconduct] at htold
  rw [hpass] at hconduct hcalls htold
  obtain ⟨honce, hending⟩ := htold
  refine ⟨heard, hconduct, hcalls, honce, hgiven, ?_⟩
  -- How the pass ended says which of the two holds: only the first ending has heard all that is needed.
  generalize hresult : pass.result = result at hending
  cases hending with
  | heard hgood hcomplete hcalled =>
    exact ⟨fun hoffered => ⟨hgood, hcomplete, hcalled.resolve_left hoffered⟩, fun hnot => absurd ⟨hgood, hcomplete⟩ hnot⟩
  | @bad earlier call reply reason _ hlast hbad hnone =>
    have hheard : heard = earlier ++ [(call, reply)] := hlast
    have hmem : (call, reply) ∈ heard := hheard ▸ List.mem_append_right _ List.mem_cons_self
    exact ⟨fun hoffered => absurd hnone hoffered, fun _ => ⟨hnone, .inl ⟨call, reply, reason, hmem, hbad, rfl⟩⟩⟩
  | @stored e hgood hfailed hnone =>
    obtain ⟨s', hs'⟩ := hfailed
    exact ⟨fun hoffered => absurd hnone hoffered, fun _ => ⟨hnone, .inr ⟨hgood, e, s', hs', rfl⟩⟩⟩

/-- A request in its dispute window is disputed. Beside it a request of a negative hand is none, in whatever order the
replies come: its table gets no event, and the error names the call. -/
theorem events_only_on_good_replies_negative_hand :
    let bodies : List (String × Reply) :=
      [("/tables/0xa/lastHandNetted", ⟨200, "[100]"⟩),
        ("/tables/0xa/lastNettingRequestHandId", ⟨200, "\x7b\"value\":105,\"at\":1.5\x7d"⟩),
        ("/tables/0xa/lastNettingRequestTime", ⟨200, "[1699999700]"⟩), ("/tables/0xb/lastHandNetted", ⟨200, "[100]"⟩),
        ("/tables/0xb/lastNettingRequestHandId", ⟨200, "[-105]"⟩),
        ("/tables/0xb/lastNettingRequestTime", ⟨200, "[1699999700]"⟩),
        ("/tables/0xb/lineup", ⟨200, "[100,[]]"⟩)]
    let database : Store.Database Unit := ⟨fun
      | .lastHand _, _ => (.ok none, ())
      | .enqueue _, _ => (.ok (), ())
      | _, _ => (.error "down", ())⟩
    let network : Gateway.Network Unit := ⟨fun call _ => (bodies.lookup call.url.target, ())⟩
    let d : Deployment Unit := ⟨network, ⟨"http://127.0.0.1:8545", none⟩, database⟩
    let m : Moment := ⟨.standard, 1700000000⟩
    let s := d.publisher ⟨0, ⟨0, 0⟩⟩ ()
    (offered (Order.asked.conduct d.world m "0xa" start s).log = [.handleDispute "0xa" 100 105] ∧
      ∃ heard, AllGood heard ∧ Complete heard ∧ heard.map (·.1) = [.lastHandNetted, .requestedHand, .requestTime]) ∧
      ∀ o : Order, offered (o.conduct d.world m "0xb" start s).log = [] ∧
        ∃ reason, (o.conduct d.world m "0xb" start s).result = .error (.read (.chain "0xb" .requestedHand reason)) := by
  intro bodies database network d m s
  have hstay {α : Type} (f : Unit → α × Unit) (p : Publisher (Store.Outbox Unit)) : (Deployment.behind f p).2 = p := rfl
  refine ⟨?_, fun o => ?_⟩
  · have hnetted : d.world.reply "0xa" .lastHandNetted s = (.ok 100, s) :=
      Prod.ext (by decide +kernel) (by simp only [Deployment.world, Deployment.reply, hstay])
    have hrequested : d.world.reply "0xa" .requestedHand s = (.ok 105, s) :=
      Prod.ext (by decide +kernel) (by simp only [Deployment.world, Deployment.reply, hstay])
    have htime : d.world.reply "0xa" .requestTime s = (.ok 1699999700, s) :=
      Prod.ext (by decide +kernel) (by simp only [Deployment.world, Deployment.reply, hstay])
    have hpass : PendingDecision.ofStatus ⟨100, 105, 1699999700⟩ m.now m.thresholds = .ok ⟨.handleDispute, 300⟩ := by
      decide
    have hdue : counted m "0xa" (some 100) (some 105) (some 1699999700) =
        .publishing (.pending ⟨.handleDispute, 300⟩) [] (.handleDispute "0xa" 100 105) [] := by
      simp only [counted, judgePending, hpass]
      rfl
    have hlast (reply : Except PublishError Unit) (p : Publisher (Store.Outbox Unit)) :
        (Order.asked.conduct d.world m "0xa" (.answer m "0xa" (.publishing (.pending ⟨.handleDispute, 300⟩) []
          (.handleDispute "0xa" 100 105) []) (.publish (.handleDispute "0xa" 100 105)) reply) p).log = [] := by
      cases reply <;> exact congrArg Conducted.log (Order.conduct_done _ _ m "0xa" rfl p)
    have hlog : (Order.asked.conduct d.world m "0xa" start s).log =
        [.lastHandNetted, .requestedHand, .requestTime, .publish (.handleDispute "0xa" 100 105)] := by
      rw [Order.asked_counters hnetted hrequested htime, hdue,
        Order.conduct_next (r := .publish (.handleDispute "0xa" 100 105)) _ _ m "0xa" rfl s, hlast]
    obtain ⟨⟨heard, -, hcalls, -, -, hoffered, -⟩, -⟩ :=
      events_only_on_good_replies (d.overGateway "0xa") .asked m (s := s) rfl
    rw [hlog] at hcalls hoffered ⊢
    obtain ⟨hgood, hcomplete, -⟩ := hoffered (List.cons_ne_nil _ _)
    exact ⟨rfl, heard, hgood, hcomplete, hcalls⟩
  · obtain ⟨⟨heard, -, -, -, hgiven, -, hnot⟩, -⟩ := events_only_on_good_replies (d.overGateway "0xb") o m (s := s) rfl
    have hreply {call : ChainCall} {reply : Except CallError Reply} (h : (call, reply) ∈ heard) :
        reply = (Gateway.Contract.get d.network d.gateway "0xb" call ()).1 := by
      obtain ⟨p, hp⟩ := hgiven _ h
      exact hp
    have hbad : readCounter Decode.uint64 "0xb" .requestedHand
        (Gateway.Contract.get d.network d.gateway "0xb" .requestedHand ()).1 = .error (.chain "0xb" .requestedHand
          "response json decode failed: error decoding response body") := by decide +kernel
    have hnetted : readCounter Decode.uint64 "0xb" .lastHandNetted
        (Gateway.Contract.get d.network d.gateway "0xb" .lastHandNetted ()).1 = .ok 100 := by decide +kernel
    have htime : readCounter Decode.int64 "0xb" .requestTime
        (Gateway.Contract.get d.network d.gateway "0xb" .requestTime ()).1 = .ok 1699999700 := by decide +kernel
    have hlineup : readCall ChainLineup.decode "0xb" .lineup
        (Gateway.Contract.get d.network d.gateway "0xb" .lineup ()).1 = .ok ⟨100, []⟩ := by decide +kernel
    have hstored (p : Publisher (Store.Outbox Unit)) : (d.world.reply "0xb" .lastHand p).1 = .ok none := rfl
    have hincomplete : ¬ (AllGood heard ∧ Complete heard) := by
      rintro ⟨-, status, hcounted, -⟩
      obtain ⟨reply, hmem, hbears⟩ := hcounted.requested
      rw [hreply hmem] at hbears
      cases hbad.symm.trans (readCounter_uint64_iff.2 hbears)
    obtain ⟨hnone, ⟨call, reply, reason, hmem, hcall, hresult⟩ | ⟨-, e, p, hp, -⟩⟩ := hnot hincomplete
    · rw [hreply hmem] at hcall
      cases call with
      | requestedHand => exact ⟨hnone, reason, hresult⟩
      | lastHandNetted => exact absurd (exists_uint64_iff.1 ⟨100, hnetted⟩) hcall
      | requestTime => exact absurd (exists_int64_iff.1 ⟨1699999700, htime⟩) hcall
      | lineup => exact absurd (exists_lineup_iff.1 ⟨⟨100, []⟩, hlineup⟩) hcall
    · cases (hstored p).symm.trans hp

end TablePass

end TableEscrow
