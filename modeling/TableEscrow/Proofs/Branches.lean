import Mathlib.Data.List.Basic
import TableEscrow.Proofs.Interleaving
/-!
# The two branches of a pass

A pass over a table whose request is outstanding reads the three counters and nothing else; a pass
over a settled table never offers what an outstanding request calls for. `Order.conduct` runs a pass
in any order of its answers and keeps the requests it makes, and `Facts.Decides` says what the facts
of a table call for. `traced_answer` is the invariant of one answer, `Order.conduct_traced` that of a
whole pass, and from them `branches_exclude` says what each branch reads and offers, and that a pass
whose events are accepted comes to what is called for.
-/

namespace TableEscrow

/-- How a pass went: its result, the requests it made, one after the other, and the world it left. -/
structure Conducted (σ : Type) where
  result : Except PassError Reconciliation
  log : List Request
  world : σ

namespace Request

/-- A read of the three counters. -/
def IsCounter (r : Request) : Prop := r = .lastHandNetted ∨ r = .requestedHand ∨ r = .requestTime

def event? : Request → Option ControlEvent
  | .publish e => some e
  | _ => none

/-- The events of a log, in the order they were offered. -/
def offered (log : List Request) : List ControlEvent := log.filterMap event?

theorem offered_concat (log : List Request) (r : Request) : offered (log ++ [r]) = offered log ++ r.event?.toList := by
  rw [offered, List.filterMap_append, List.filterMap_cons]
  cases r.event? <;> rfl

theorem offered_read {log : List Request} (h : offered log = []) {r : Request} (hr : r.event? = none) :
    offered (log ++ [r]) = [] := by
  rw [offered_concat, h, hr]
  rfl

end Request

namespace Order

variable {σ τ : Type} (o : Order) (w : World σ) (m : Moment) (table : String)

/-- Has the requests of a pass answered until there are none. -/
def conduct (t : TablePass) (s : σ) : Conducted σ :=
  match _h : o.next table t with
  | .inl result => ⟨result, [], s⟩
  | .inr r =>
    let (reply, s) := w.reply table r s
    let rest := conduct (t.answer m table r reply) s
    { rest with log := r :: rest.log }
termination_by t.size
decreasing_by exact TablePass.size_answer_lt m table _ (o.waits _h)

theorem conduct_done {t : TablePass} {result : Except PassError Reconciliation}
    (h : o.next table t = .inl result) (s : σ) : o.conduct w m table t s = ⟨result, [], s⟩ := by
  rw [conduct]
  split
  · next result' h' =>
    cases h.symm.trans h'
    rfl
  · next r h' => cases h.symm.trans h'

theorem conduct_next {t : TablePass} {r : Request} (h : o.next table t = .inr r) (s : σ) :
    o.conduct w m table t s =
      { o.conduct w m table (t.answer m table r (w.reply table r s).1) (w.reply table r s).2 with
        log := r :: (o.conduct w m table (t.answer m table r (w.reply table r s).1) (w.reply table r s).2).log } := by
  rw [conduct]
  split
  · next result h' => cases h.symm.trans h'
  · next r' h' =>
    cases h.symm.trans h'
    rfl

/-- Asked in its own order, a pass goes as `TablePass.drive` has it. -/
theorem conduct_asked (t : TablePass) (s : σ) :
    ((asked.conduct w m table t s).result, (asked.conduct w m table t s).world) = TablePass.drive w m table t s := by
  induction t, s using TablePass.drive.induct w m table with
  | case1 t s result hnext =>
    cases TablePass.ended_of_next hnext
    rw [asked.conduct_done w m table (asked.next_ended table result), TablePass.drive_ended]
  | case2 t s r hnext reply s' hreply ih =>
    rw [asked.conduct_next w m table (show asked.next table t = .inr r from hnext), TablePass.drive_next w m table hnext, hreply]
    exact ih

variable {o w m table} {facts : String → Facts} {judge : Judge} {P : σ → Prop}

/-- What every answer keeps, a whole pass keeps. -/
theorem conduct_keeps {I : σ → List Request → TablePass → Prop}
    (hstep : ∀ {s log t r}, I s log t → r ∈ t.requests →
      I (w.reply table r s).2 (log ++ [r]) (t.answer m table r (w.reply table r s).1))
    {t : TablePass} {s : σ} {log : List Request} (hi : I s log t) :
    I (o.conduct w m table t s).world (log ++ (o.conduct w m table t s).log) (.ended (o.conduct w m table t s).result) := by
  induction t, s using conduct.induct o w m table generalizing log with
  | case1 t s result h =>
    cases o.ended h
    rw [conduct_done o w m table h, List.append_nil]
    exact hi
  | case2 t s r h reply s' hpair ih =>
    have hstay := hstep hi (o.waits h)
    rw [conduct_next o w m table h]
    rw [hpair] at hstay ⊢
    have hrest := ih hstay
    rw [List.append_assoc, List.singleton_append] at hrest
    exact hrest

/-- In a steady world the answers are told by the facts. -/
theorem conduct_invariant {I : List Request → TablePass → Prop} (hw : w.Steady facts judge P)
    (hstep : ∀ {log t r}, I log t → r ∈ t.requests → I (log ++ [r]) (t.answer m table r ((facts table).reply judge r)))
    {t : TablePass} {s : σ} (hs : P s) {log : List Request} (hi : I log t) :
    I (log ++ (o.conduct w m table t s).log) (.ended (o.conduct w m table t s).result) := by
  refine (conduct_keeps (I := fun s log t => P s ∧ I log t) (fun {s log t r} ⟨hs, hi⟩ hr => ?_) ⟨hs, hi⟩).2
  rw [hw.answers hs table r]
  exact ⟨hw.stays hs table r, hstep hi hr⟩

/-- A pass goes the same way in another world that answers its requests alike. -/
theorem conduct_congr {w' : World τ} {facts' : String → Facts} {P' : τ → Prop} (hw : w.Steady facts judge P)
    (hw' : w'.Steady facts' judge P') {t : TablePass} {s : σ} (hs : P s) {s' : τ} (hs' : P' s')
    (hsame : ∀ r ∈ (o.conduct w m table t s).log, (facts' table).reply judge r = (facts table).reply judge r) :
    (o.conduct w' m table t s').result = (o.conduct w m table t s).result ∧
      (o.conduct w' m table t s').log = (o.conduct w m table t s).log := by
  induction t, s using conduct.induct o w m table generalizing s' with
  | case1 t s result h =>
    rw [conduct_done o w m table h, conduct_done o w' m table h]
    exact ⟨rfl, rfl⟩
  | case2 t s r h reply u hreply ih =>
    have hanswer := hw.answers hs table r
    have hstays := hw.stays hs table r
    have hanswer' := hw'.answers hs' table r
    have hstays' := hw'.stays hs' table r
    rw [conduct_next o w m table h] at hsame ⊢
    rw [conduct_next o w' m table h]
    rw [hreply] at hanswer hstays hsame ⊢
    -- Both worlds answer this request alike, so both passes go on from the same point.
    have hr : (w'.reply table r s').1 = reply :=
      (hanswer'.trans (hsame r List.mem_cons_self)).trans hanswer.symm
    obtain ⟨hresult, hlog⟩ := ih hstays hstays' fun r' hr' => hsame r' (List.mem_cons_of_mem _ hr')
    rw [hr]
    exact ⟨hresult, congrArg (r :: ·) hlog⟩

end Order

/-! ## What the facts call for -/

/-- All counters are there, and a request is outstanding. -/
def Facts.Pending (f : Facts) : Prop := ∃ status, f.Counts status ∧ status.isPending = true

/-- All counters are there, and no request is outstanding. -/
def Facts.Settled (f : Facts) : Prop := ∃ status, f.Counts status ∧ status.isPending = false

/-- The two agree on the counters. -/
def Facts.SameCounters (f' f : Facts) : Prop :=
  f'.netted = f.netted ∧ f'.requested = f.requested ∧ f'.requestTime = f.requestTime

/-- What the facts of a table come to, and the events that calls for. -/
inductive Facts.Decides (m : Moment) (table : String) (f : Facts) : TableOutcome → List ControlEvent → Prop
  | pending {status : NettingStatus} {d : PendingDecision} (counts : f.Counts status)
      (pending : status.isPending = true) (decision : PendingDecision.ofStatus status m.now m.thresholds = .ok d) :
    Decides m table f (.pending d) (d.verdict.event? table status).toList
  | noHand {status : NettingStatus} {lineup : ChainLineup} (counts : f.Counts status)
      (settled : status.isPending = false) (dealt : f.hand = .ok none) (seated : f.lineup = .ok lineup) :
    Decides m table f .noHand []
  | settled {status : NettingStatus} {hand : Hand} {lineup : ChainLineup} {d : SettledDecision}
      (counts : f.Counts status) (settled : status.isPending = false) (dealt : f.hand = .ok (some hand))
      (seated : f.lineup = .ok lineup)
      (decision : SettledDecision.ofTable status hand lineup m.now m.thresholds = .ok d) :
    Decides m table f (.settled hand.id d) (d.events table)

namespace TableOutcome

/-- The events that go with what a pass found. -/
def announced (table : String) (status : NettingStatus) : TableOutcome → List ControlEvent
  | .pending ⟨.handleDispute, _⟩ => [.handleDispute table status.lastHandNetted status.requestedHand]
  | .pending ⟨.progressNetting, _⟩ => [.progressNetting table]
  | .pending ⟨.tooEarly, _⟩ | .pending ⟨.lapsed, _⟩ | .noHand => []
  | .settled _ ⟨kick, timeout, request⟩ =>
    kick.map (.kick table) ++ (if timeout = true then [.timeout table] else []) ++
      match request with
      | some hand => [.tableNettingRequest table hand]
      | none => []

end TableOutcome

section

variable {m : Moment} {table : String} {f : Facts} {outcome : TableOutcome} {events : List ControlEvent}

theorem Facts.Decides.announced (h : f.Decides m table outcome events) :
    ∃ status, f.Counts status ∧ events = outcome.announced table status := by
  cases h with
  | @pending status d counts =>
    obtain ⟨verdict, age⟩ := d
    exact ⟨status, counts, by cases verdict <;> rfl⟩
  | @noHand status lineup counts => exact ⟨status, counts, rfl⟩
  | @settled status hand lineup d counts =>
    obtain ⟨kick, timeout, request⟩ := d
    exact ⟨status, counts, by cases request <;> rfl⟩

/-- With a request outstanding, its age alone is judged. -/
theorem Facts.Decides.pending_inv {status : NettingStatus} (h : f.Decides m table outcome events) (hc : f.Counts status)
    (hp : status.isPending = true) :
    ∃ d, PendingDecision.ofStatus status m.now m.thresholds = .ok d ∧ outcome = .pending d ∧
      events = (d.verdict.event? table status).toList := by
  cases h with
  | pending counts pending decision =>
    cases hc.unique counts
    exact ⟨_, decision, rfl, rfl⟩
  | noHand counts settled | settled counts settled =>
    cases hc.unique counts
    cases hp.symm.trans settled

/-- Without one, the hand and the seats are there, and they are judged. -/
theorem Facts.Decides.settled_inv {status : NettingStatus} (h : f.Decides m table outcome events) (hc : f.Counts status)
    (hp : status.isPending = false) :
    ∃ hand lineup, f.hand = .ok hand ∧ f.lineup = .ok lineup ∧
      match hand with
      | none => outcome = .noHand ∧ events = []
      | some hand => ∃ d, SettledDecision.ofTable status hand lineup m.now m.thresholds = .ok d ∧
          outcome = .settled hand.id d ∧ events = d.events table := by
  cases h with
  | pending counts pending =>
    cases hc.unique counts
    cases hp.symm.trans pending
  | noHand counts settled dealt seated => exact ⟨none, _, dealt, seated, rfl, rfl⟩
  | @settled _ hand _ d counts settled dealt seated decision =>
    cases hc.unique counts
    exact ⟨some hand, _, dealt, seated, d, decision, rfl, rfl⟩

theorem Facts.Decides.unique {outcome' : TableOutcome} {events' : List ControlEvent}
    (h : f.Decides m table outcome events) (h' : f.Decides m table outcome' events') :
    outcome = outcome' ∧ events = events' := by
  obtain ⟨status, hc, -⟩ := h.announced
  cases hp : status.isPending with
  | true =>
    obtain ⟨d, hd, rfl, rfl⟩ := h.pending_inv hc hp
    obtain ⟨d', hd', rfl, rfl⟩ := h'.pending_inv hc hp
    cases hd.symm.trans hd'
    exact ⟨rfl, rfl⟩
  | false =>
    obtain ⟨hand, lineup, hh, hl, hjudged⟩ := h.settled_inv hc hp
    obtain ⟨hand', lineup', hh', hl', hjudged'⟩ := h'.settled_inv hc hp
    cases hh.symm.trans hh'
    cases hl.symm.trans hl'
    cases hand with
    | none => exact ⟨hjudged.1.trans hjudged'.1.symm, hjudged.2.trans hjudged'.2.symm⟩
    | some hand =>
      obtain ⟨d, hd, rfl, rfl⟩ := hjudged
      obtain ⟨d', hd', rfl, rfl⟩ := hjudged'
      cases hd.symm.trans hd'
      exact ⟨rfl, rfl⟩

theorem Facts.not_settled_of_pending {status : NettingStatus} (hc : f.Counts status) (hp : status.isPending = true) :
    ¬ f.Settled := by
  rintro ⟨status', hc', hp'⟩
  cases hc.unique hc'
  cases hp.symm.trans hp'

/-- At most one event goes with a table that is not settled. -/
theorem Facts.Decides.of_not_settled (h : f.Decides m table outcome events) (hs : ¬ f.Settled) :
    ∃ status, f.Counts status ∧ (events = [] ∨
      events = [.handleDispute table status.lastHandNetted status.requestedHand] ∨
        events = [.progressNetting table]) := by
  cases h with
  | @pending status d counts pending =>
    refine ⟨status, counts, ?_⟩
    cases d.verdict with
    | tooEarly | lapsed => exact .inl rfl
    | handleDispute => exact .inr (.inl rfl)
    | progressNetting => exact .inr (.inr rfl)
  | noHand counts settled => exact absurd ⟨_, counts, settled⟩ hs
  | settled counts settled => exact absurd ⟨_, counts, settled⟩ hs

/-- The hand to settle next is the one after the last settled one. -/
theorem SettledDecision.toNat_nettingRequest {status : NettingStatus} {hand : Hand} {lineup : ChainLineup}
    {now : Int64} {t : Thresholds} {d : SettledDecision} (h : ofTable status hand lineup now t = .ok d)
    {n : UInt64} (hn : d.nettingRequest = some n) : n.toNat = status.lastHandNetted.toNat + 1 := by
  obtain ⟨_, _, -, -, -, -, hrequest⟩ := ofTable_eq_ok h
  obtain ⟨-, -, hnext⟩ := (hrequest n).1 hn
  exact Word.successor_eq_ok hnext

/-- Nothing that an outstanding request calls for goes with a table that has none, and a settlement
is requested beyond both counters. -/
theorem Facts.Decides.of_not_pending (h : f.Decides m table outcome events) (hp : ¬ f.Pending) :
    ∀ e ∈ events, e.subject ≠ .handleDispute ∧ e.subject ≠ .progressNetting ∧
      ∀ other hand status, e = .tableNettingRequest other hand → f.Counts status →
        status.lastHandNetted < hand ∧ status.requestedHand < hand := by
  cases h with
  | pending counts pending => exact absurd ⟨_, counts, pending⟩ hp
  | noHand => exact fun e he => absurd he List.not_mem_nil
  | @settled status hand lineup d counts settled dealt seated decision =>
    intro e he
    rcases SettledDecision.mem_events.1 he with ⟨_, -, rfl⟩ | ⟨-, rfl⟩ | ⟨hand', hrequest, rfl⟩
    · exact ⟨nofun, nofun, nofun⟩
    · exact ⟨nofun, nofun, nofun⟩
    · refine ⟨nofun, nofun, fun other hand'' status' he' hc' => ?_⟩
      cases he'
      cases counts.unique hc'
      have hnext := SettledDecision.toNat_nettingRequest decision hrequest
      have hle : status.requestedHand ≤ status.lastHandNetted := by
        have hno : ¬ status.lastHandNetted < status.requestedHand :=
          fun hlt => Bool.false_ne_true (settled.symm.trans (NettingStatus.isPending_iff.2 hlt))
        exact UInt64.not_lt.1 hno
      rw [UInt64.lt_iff_toNat_lt, UInt64.lt_iff_toNat_lt]
      rw [UInt64.le_iff_toNat_le] at hle
      omega

end

/-! ## What a pass has asked and offered -/

namespace TablePass

open Request (offered)

/-- What a pass was told is so. It offers what the facts call for, one event after the other, and its
result lists what it offered. It stops before that only where nothing is called for. -/
def Faithful (m : Moment) (judge : Judge) (table : String) (f : Facts) (log : List Request) : TablePass → Prop
  | .counting netted requested time _ =>
    ((∀ n ∈ netted, f.netted = .ok n) ∧ (∀ n ∈ requested, f.requested = .ok n) ∧
      ∀ second ∈ time, f.requestTime = .ok second) ∧ offered log = []
  | .gathering status hand lineup _ =>
    (f.Counts status ∧ status.isPending = false ∧ (∀ h ∈ hand, f.hand = .ok h) ∧
      ∀ l ∈ lineup, f.lineup = .ok l) ∧ offered log = []
  | .publishing outcome accepted next left =>
    f.Decides m table outcome (accepted ++ next :: left) ∧ offered log = accepted ∧
      ∀ e ∈ accepted, judge e.subject e.table e.payload = .ok ()
  | .ended (.ok r) =>
    r.table = table ∧ f.Decides m table r.outcome r.published ∧ offered log = r.published ∧
      ∀ e ∈ r.published, judge e.subject e.table e.payload = .ok ()
  | .ended (.error (.publish refusal)) =>
    ∃ outcome accepted next left, f.Decides m table outcome (accepted ++ next :: left) ∧
      offered log = accepted ++ [next] ∧ judge next.subject next.table next.payload = .error refusal
  | .ended (.error (.read _)) | .ended (.error (.overflow _)) =>
    offered log = [] ∧ ∀ outcome events, ¬ f.Decides m table outcome events

/-- Only a settled table has its last hand and its seats read. -/
structure Traced (m : Moment) (judge : Judge) (table : String) (f : Facts) (log : List Request) (t : TablePass) :
    Prop where
  reads : ∀ r ∈ log, r = .lastHand ∨ r = .lineup → f.Settled
  faithful : t.Faithful m judge table f log

variable {m : Moment} {judge : Judge} {table : String} {f : Facts} {log : List Request}

theorem faithful_publish {outcome : TableOutcome} {accepted left : List ControlEvent}
    (hd : f.Decides m table outcome (accepted ++ left)) (ho : offered log = accepted)
    (hj : ∀ e ∈ accepted, judge e.subject e.table e.payload = .ok ()) :
    Faithful m judge table f log (publish table outcome accepted left) := by
  cases left with
  | nil =>
    rw [List.append_nil] at hd
    exact ⟨rfl, hd, ho, hj⟩
  | cons next left => exact ⟨hd, ho, hj⟩

theorem faithful_afterRead {α : Type} {goOn : α → TablePass} {reply : Except ReadError α}
    (ho : offered log = []) (hread : ∀ outcome events, f.Decides m table outcome events → ∃ a, reply = .ok a)
    (hok : ∀ a, reply = .ok a → Faithful m judge table f log (goOn a)) :
    Faithful m judge table f log (afterRead goOn reply) := by
  cases reply with
  | ok a => exact hok a rfl
  | error e =>
    refine ⟨ho, fun outcome events hd => ?_⟩
    obtain ⟨a, ha⟩ := hread outcome events hd
    cases ha

theorem faithful_counted (ho : offered log = []) {netted requested : Option UInt64} {time : Option Int64}
    (hn : ∀ n ∈ netted, f.netted = .ok n) (hr : ∀ n ∈ requested, f.requested = .ok n)
    (ht : ∀ second ∈ time, f.requestTime = .ok second) :
    Faithful m judge table f log (counted m table netted requested time) := by
  unfold counted
  split
  · next netted requested time =>
    have hc : f.Counts ⟨netted, requested, time⟩ := ⟨hn _ rfl, hr _ rfl, ht _ rfl⟩
    by_cases hp : (NettingStatus.mk netted requested time).isPending = true
    · rw [if_pos hp]
      unfold judgePending
      split
      · next d hd => exact faithful_publish (.pending hc hp hd) ho nofun
      · next o ho' =>
        refine ⟨ho, fun outcome events hd => ?_⟩
        obtain ⟨d, hd, -, -⟩ := hd.pending_inv hc hp
        cases ho'.symm.trans hd
    · rw [if_neg hp]
      exact ⟨⟨hc, Bool.eq_false_iff.2 hp, by simp, by simp⟩, ho⟩
  all_goals exact ⟨⟨hn, hr, ht⟩, ho⟩

theorem faithful_gathered (ho : offered log = []) {status : NettingStatus} {hand : Option (Option Hand)}
    {lineup : Option ChainLineup} (hc : f.Counts status) (hp : status.isPending = false)
    (hh : ∀ h ∈ hand, f.hand = .ok h) (hl : ∀ l ∈ lineup, f.lineup = .ok l) :
    Faithful m judge table f log (gathered m table status hand lineup) := by
  unfold gathered
  split
  · exact ⟨rfl, .noHand hc hp (hh _ rfl) (hl _ rfl), ho, nofun⟩
  · unfold judgeSettled
    split
    · next d hd => exact faithful_publish (.settled hc hp (hh _ rfl) (hl _ rfl) hd) ho nofun
    · next o ho' =>
      refine ⟨ho, fun outcome events hd => ?_⟩
      obtain ⟨hand', lineup', hh', hl', hjudged⟩ := hd.settled_inv hc hp
      cases (hh _ rfl).symm.trans hh'
      cases (hl _ rfl).symm.trans hl'
      obtain ⟨d, hd, -, -⟩ := hjudged
      cases ho'.symm.trans hd
  all_goals exact ⟨⟨hc, hp, hh, hl⟩, ho⟩

theorem traced_start : Traced m judge table f [] start where
  reads := by simp
  faithful := by simp [Faithful, start, offered]

theorem reads_answer {t : TablePass} {r : Request} (hr : r ∈ t.requests) (h : t.Faithful m judge table f log)
    (hread : r = .lastHand ∨ r = .lineup) : f.Settled := by
  have ha := answered m table (f.reply judge r) hr
  generalize f.reply judge r = reply at ha
  generalize t.answer m table r reply = t' at ha
  cases ha with
  | hand | lineup =>
    obtain ⟨⟨hc, hp, -⟩, -⟩ := h
    exact ⟨_, hc, hp⟩
  | netted | requested | time | accepted | refused => rcases hread with hread | hread <;> cases hread

theorem traced_answer {t : TablePass} {r : Request} (h : Traced m judge table f log t) (hr : r ∈ t.requests) :
    Traced m judge table f (log ++ [r]) (t.answer m table r (f.reply judge r)) := by
  obtain ⟨hreads, h⟩ := h
  refine ⟨fun r' hr' hread => ?_, ?_⟩
  · rcases List.mem_append.1 hr' with hlog | hlast
    · exact hreads r' hlog hread
    · cases List.mem_singleton.1 hlast
      exact reads_answer hr h hread
  -- A read adds nothing to what was offered, and it tells what is so.
  have ha := answered m table (f.reply judge r) hr
  generalize hreply : f.reply judge r = reply at ha ⊢
  generalize t.answer m table r reply = t' at ha ⊢
  cases ha with
  | netted =>
    obtain ⟨⟨-, hrequested, htime⟩, ho⟩ := h
    refine faithful_afterRead (Request.offered_read ho rfl) (fun _ _ hd => ?_) fun n hn =>
      faithful_counted (Request.offered_read ho rfl) ?_ hrequested htime
    · obtain ⟨status, ⟨hcount, -, -⟩, -⟩ := hd.announced
      exact ⟨_, hreply.symm.trans hcount⟩
    · rintro _ ⟨⟩
      exact hreply.trans hn
  | requested =>
    obtain ⟨⟨hnetted, -, htime⟩, ho⟩ := h
    refine faithful_afterRead (Request.offered_read ho rfl) (fun _ _ hd => ?_) fun n hn =>
      faithful_counted (Request.offered_read ho rfl) hnetted ?_ htime
    · obtain ⟨status, ⟨-, hcount, -⟩, -⟩ := hd.announced
      exact ⟨_, hreply.symm.trans hcount⟩
    · rintro _ ⟨⟩
      exact hreply.trans hn
  | time =>
    obtain ⟨⟨hnetted, hrequested, -⟩, ho⟩ := h
    refine faithful_afterRead (Request.offered_read ho rfl) (fun _ _ hd => ?_) fun n hn =>
      faithful_counted (Request.offered_read ho rfl) hnetted hrequested ?_
    · obtain ⟨status, ⟨-, -, hcount⟩, -⟩ := hd.announced
      exact ⟨_, hreply.symm.trans hcount⟩
    · rintro _ ⟨⟩
      exact hreply.trans hn
  | hand =>
    obtain ⟨⟨hc, hp, -, hlineup⟩, ho⟩ := h
    refine faithful_afterRead (Request.offered_read ho rfl) (fun _ _ hd => ?_) fun hand hh =>
      faithful_gathered (Request.offered_read ho rfl) hc hp ?_ hlineup
    · obtain ⟨hand, _, hh, -, -⟩ := hd.settled_inv hc hp
      exact ⟨hand, hreply.symm.trans hh⟩
    · rintro _ ⟨⟩
      exact hreply.trans hh
  | lineup =>
    obtain ⟨⟨hc, hp, hhand, -⟩, ho⟩ := h
    refine faithful_afterRead (Request.offered_read ho rfl) (fun _ _ hd => ?_) fun lineup hl =>
      faithful_gathered (Request.offered_read ho rfl) hc hp hhand ?_
    · obtain ⟨_, lineup, -, hl, -⟩ := hd.settled_inv hc hp
      exact ⟨lineup, hreply.symm.trans hl⟩
    · rintro _ ⟨⟩
      exact hreply.trans hl
  | @accepted outcome accepted next left =>
    obtain ⟨hd, ho, hj⟩ := h
    have ho' : offered (log ++ [.publish next]) = accepted ++ [next] := by
      rw [Request.offered_concat, ho]
      rfl
    refine faithful_publish (by rwa [List.append_assoc]) ho' fun e he => ?_
    rcases List.mem_append.1 he with he | he
    · exact hj e he
    · cases List.mem_singleton.1 he
      exact hreply
  | @refused outcome accepted next left refusal =>
    obtain ⟨hd, ho, -⟩ := h
    refine ⟨outcome, accepted, next, left, hd, ?_, hreply⟩
    rw [Request.offered_concat, ho]
    rfl

end TablePass

namespace Order

open Request (offered)

variable {σ : Type} {w : World σ} {m : Moment} {table : String} {facts : String → Facts} {judge : Judge}
  {P : σ → Prop} {s : σ} {c : Conducted σ} {o : Order}

theorem conduct_traced (hw : w.Steady facts judge P) (hs : P s) (hc : o.conduct w m table .start s = c) :
    TablePass.Traced m judge table (facts table) c.log (.ended c.result) := by
  have hstart : TablePass.Traced m judge table (facts table) [] .start := TablePass.traced_start
  have h := conduct_invariant (o := o) hw TablePass.traced_answer hs hstart
  rwa [List.nil_append, hc] at h

theorem offered_of_traced {log : List Request} {result : Except PassError Reconciliation} {f : Facts}
    (h : TablePass.Traced m judge table f log (.ended result)) :
    offered log = [] ∨ ∃ outcome events, f.Decides m table outcome events ∧ offered log <+: events := by
  have hf := h.faithful
  match result, hf with
  | .ok r, ⟨_, hd, ho, _⟩ => exact .inr ⟨_, _, hd, ho ▸ List.prefix_rfl⟩
  | .error (.publish _), ⟨outcome, accepted, next, left, hd, ho, _⟩ =>
    exact .inr ⟨outcome, _, hd, ho ▸ ⟨left, by simp⟩⟩
  | .error (.read _), ⟨ho, _⟩ => exact .inl ho
  | .error (.overflow _), ⟨ho, _⟩ => exact .inl ho

/-- A pass comes to what the facts call for, if every event of it is accepted. -/
theorem eq_ok_of_traced {log : List Request} {result : Except PassError Reconciliation} {f : Facts}
    (h : TablePass.Traced m judge table f log (.ended result)) {outcome : TableOutcome} {events : List ControlEvent}
    (hd : f.Decides m table outcome events) (hj : ∀ e ∈ events, judge e.subject e.table e.payload = .ok ()) :
    result = .ok ⟨table, outcome, events⟩ := by
  have hf := h.faithful
  match result, hf with
  | .ok ⟨_, outcome', events'⟩, ⟨htable, hd', _, _⟩ =>
    obtain ⟨rfl, rfl⟩ := hd.unique hd'
    cases htable
    rfl
  | .error (.publish refusal), ⟨outcome', accepted, next, left, hd', _, hrefused⟩ =>
    obtain ⟨-, rfl⟩ := hd.unique hd'
    cases hrefused.symm.trans (hj next (List.mem_append_right _ List.mem_cons_self))
  | .error (.read _), ⟨_, hno⟩ => exact absurd hd (hno outcome events)
  | .error (.overflow _), ⟨_, hno⟩ => exact absurd hd (hno outcome events)

/-- In a steady world, with its requests answered in any order, a pass over a table that is not known
to be settled reads nothing but the counters, goes the same way whatever the last hand and the seats
are, and offers at most one event, the one an outstanding request calls for. A pass over a table that
is not known to have a request outstanding offers neither of these, and requests a settlement beyond both
counters only. A pass ends well if the facts call for an outcome and its events are accepted, and its result
lists the events that go with that outcome, which are those that were offered. -/
theorem branches_exclude (hw : w.Steady facts judge P) (hs : P s) (hc : o.conduct w m table .start s = c) :
    (¬ (facts table).Settled →
      (∀ r ∈ c.log, r.IsCounter ∨ ∃ e, r = .publish e) ∧
      (offered c.log = [] ∨ ∃ status, (facts table).Counts status ∧
        (offered c.log = [.handleDispute table status.lastHandNetted status.requestedHand] ∨
          offered c.log = [.progressNetting table])) ∧
      ∀ {τ : Type} {w' : World τ} {facts' : String → Facts} {P' : τ → Prop} {s' : τ}, w'.Steady facts' judge P' →
        P' s' → (facts' table).SameCounters (facts table) →
          (o.conduct w' m table .start s').result = c.result ∧ (o.conduct w' m table .start s').log = c.log) ∧
    (¬ (facts table).Pending → ∀ e ∈ offered c.log, e.subject ≠ .handleDispute ∧ e.subject ≠ .progressNetting ∧
      ∀ other hand status, e = .tableNettingRequest other hand → (facts table).Counts status →
        status.lastHandNetted < hand ∧ status.requestedHand < hand) ∧
    (∀ r, c.result = .ok r → r.table = table ∧ offered c.log = r.published ∧
      (∀ e ∈ r.published, judge e.subject e.table e.payload = .ok ()) ∧
      ∃ status, (facts table).Counts status ∧ r.published = r.outcome.announced table status) ∧
    (∀ outcome events, (facts table).Decides m table outcome events →
      (∀ e ∈ events, judge e.subject e.table e.payload = .ok ()) → c.result = .ok ⟨table, outcome, events⟩) ∧
    (o = .asked → TablePass.run w m table s = (c.result, c.world)) := by
  have ht := conduct_traced hw hs hc
  refine ⟨fun hsettled => ?_, fun hpending e he => ?_, fun r hr => ?_,
    fun _ _ => eq_ok_of_traced ht, ?_⟩
  · have hlog : ∀ r ∈ c.log, r.IsCounter ∨ ∃ e, r = .publish e := by
      intro r hr
      cases r with
      | lastHandNetted => exact .inl (.inl rfl)
      | requestedHand => exact .inl (.inr (.inl rfl))
      | requestTime => exact .inl (.inr (.inr rfl))
      | lastHand => exact absurd (ht.reads _ hr (.inl rfl)) hsettled
      | lineup => exact absurd (ht.reads _ hr (.inr rfl)) hsettled
      | publish e => exact .inr ⟨e, rfl⟩
    refine ⟨hlog, ?_, fun hw' hs' ⟨hnetted, hrequested, htime⟩ => ?_⟩
    · rcases offered_of_traced ht with hnone | ⟨outcome, events, hd, hle⟩
      · exact .inl hnone
      · obtain ⟨status, hcounts, rfl | rfl | rfl⟩ := hd.of_not_settled hsettled
        · exact .inl (List.prefix_nil.1 hle)
        · exact (List.sublist_singleton.1 hle.sublist).imp id fun h => ⟨status, hcounts, .inl h⟩
        · exact (List.sublist_singleton.1 hle.sublist).imp id fun h => ⟨status, hcounts, .inr h⟩
    · subst hc
      refine conduct_congr hw hw' hs hs' fun r hr => ?_
      rcases hlog r hr with (rfl | rfl | rfl) | ⟨e, rfl⟩
      · exact hnetted
      · exact hrequested
      · exact htime
      · rfl
  · rcases offered_of_traced ht with hnone | ⟨outcome, events, hd, hle⟩
    · exact absurd (hnone ▸ he) List.not_mem_nil
    · exact hd.of_not_pending hpending e (hle.subset he)
  · have hf := ht.faithful
    rw [hr] at hf
    obtain ⟨htable, hd, ho, hj⟩ := hf
    exact ⟨htable, ho, hj, hd.announced⟩
  · rintro rfl
    subst hc
    exact (conduct_asked w m table .start s).symm

/-- A request in its dispute window is disputed, whoever sits at the table, and even if the store is down. Beside it
a settled table with a leaver and a player has its last hand timed out and the next one requested. -/
theorem branches_exclude_two_tables :
    let m : Moment := ⟨.standard, 1700000000⟩
    let hand : Hand := { Hand.start "0xd" 8 .river 1699999999 with lineup := [.ofAddress "0xbb" 500] }
    let s : Stage Recorder := (Stage.empty ⟨⟨0, ⟨0, 0⟩⟩, .empty⟩)
      |>.setTable "0xa" ⟨100, 105, 1699999700⟩ [⟨"0xaa", 500, 8⟩]
      |>.setTable "0xd" ⟨7, 7, 0⟩ [⟨"0xaa", 500, 8⟩] |>.putHand hand
    let s' : Stage Recorder := s |>.setTable "0xa" ⟨100, 105, 1699999700⟩ [] |>.failHands "0xa"
    let dispute : Reconciliation := ⟨"0xa", .pending ⟨.handleDispute, 300⟩, [.handleDispute "0xa" 100 105]⟩
    let requests : Reconciliation :=
      ⟨"0xd", .settled 8 ⟨[], true, some 8⟩, [.timeout "0xd", .tableNettingRequest "0xd" 8]⟩
    (TablePass.run Stage.world m "0xa" s).1 = .ok dispute ∧ (TablePass.run Stage.world m "0xa" s').1 = .ok dispute ∧
      (∀ r ∈ (asked.conduct Stage.world m "0xa" .start s).log, r.IsCounter ∨ ∃ e, r = .publish e) ∧
      (TablePass.run Stage.world m "0xd" s).1 = .ok requests := by
  intro m hand s s' dispute requests
  have hw := s.steady (Recorder.judged none)
  have hw' := s'.steady (Recorder.judged none)
  have hcounts : (s.facts "0xa").Counts ⟨100, 105, 1699999700⟩ := ⟨rfl, rfl, rfl⟩
  obtain ⟨hpending, -, -, hdispute, hrun⟩ :=
    branches_exclude hw ⟨rfl, rfl⟩ (c := asked.conduct Stage.world m "0xa" .start s) rfl
  obtain ⟨-, -, -, -, hrun'⟩ :=
    branches_exclude hw' ⟨rfl, rfl⟩ (c := asked.conduct Stage.world m "0xa" .start s') rfl
  obtain ⟨-, -, -, hrequests, hrun''⟩ :=
    branches_exclude hw ⟨rfl, rfl⟩ (c := asked.conduct Stage.world m "0xd" .start s) rfl
  obtain ⟨hreads, -, hsame⟩ := hpending (Facts.not_settled_of_pending hcounts rfl)
  have hpass : PendingDecision.ofStatus ⟨100, 105, 1699999700⟩ m.now m.thresholds = .ok ⟨.handleDispute, 300⟩ := by
    decide
  have hsettled : (s.facts "0xd").Counts ⟨7, 7, 0⟩ := ⟨rfl, rfl, rfl⟩
  have hlast : (s.facts "0xd").hand = .ok (some hand) := rfl
  have hseats : (s.facts "0xd").lineup = .ok ⟨7, [⟨"0xaa", 500, 8⟩]⟩ := rfl
  have hdue : SettledDecision.ofTable ⟨7, 7, 0⟩ hand ⟨7, [⟨"0xaa", 500, 8⟩]⟩ m.now m.thresholds =
      .ok ⟨[], true, some 8⟩ := by decide
  have hresult := hdispute _ _ (.pending hcounts rfl hpass) fun _ _ => rfl
  have hresult' := hrequests _ _ (.settled hsettled rfl hlast hseats hdue) fun _ _ => rfl
  refine ⟨?_, ?_, hreads, ?_⟩
  · rw [hrun rfl]
    exact hresult
  · rw [hrun' rfl]
    exact (hsame hw' ⟨rfl, rfl⟩ ⟨rfl, rfl, rfl⟩).1.trans hresult
  · rw [hrun'' rfl]
    exact hresult'

end Order

end TableEscrow
