import TableEscrow.Proofs.Accounts
import TableEscrow.Proofs.RequestAges
/-!
# The course of a request

A request that stays as it is only grows older, and what it calls for follows the order of its verdicts:
nothing yet, then disputes, then the submission of the settlement, then nothing any more. `rank_due_le` is
this for two seconds, whatever the thresholds are. `TablePass.Reaches` is a pass with any answers,
`PassLog.calls` what such a pass has accepted of the request, and `PassLog.exists_phases` lifts both to
any number of passes.
-/

namespace TableEscrow

open Relation Exchange

/-! ## Verdicts in their order -/

namespace PendingVerdict

def rank : PendingVerdict → Nat
  | .tooEarly => 0
  | .handleDispute => 1
  | .progressNetting => 2
  | .lapsed => 3

/-- The verdict on an age, be it a word or not. -/
def due (t : Thresholds) (age : Int) : PendingVerdict :=
  if t.disputeWindow.toInt ≤ age then
    if age < t.settlementGrace.toInt then .progressNetting else .lapsed
  else if t.disputeReactAfter.toInt < age then .handleDispute
  else .tooEarly

variable {t : Thresholds}

theorem rank_inj {v v' : PendingVerdict} (h : v.rank = v'.rank) : v = v' := by
  cases v <;> cases v' <;> first | rfl | cases h

theorem rank_le (v : PendingVerdict) : v.rank ≤ 3 := by
  cases v <;> simp [rank]

theorem ofAge_eq_due (age : Int64) : ofAge t age = due t age.toInt := by
  simp only [ofAge, due, Int64.le_iff_toInt_le, Int64.lt_iff_toInt_lt]

/-- However the thresholds are ordered, an older request has no earlier verdict. -/
theorem rank_due_le {age age' : Int} (h : age ≤ age') : (due t age).rank ≤ (due t age').rank := by
  -- Past the window only the lapse can follow. Before it, what is past the delay stays past it.
  by_cases hclosed : t.disputeWindow.toInt ≤ age
  · have hclosed' : t.disputeWindow.toInt ≤ age' := Int.le_trans hclosed h
    rw [due, due, if_pos hclosed, if_pos hclosed']
    by_cases hlapsed' : age' < t.settlementGrace.toInt
    · rw [if_pos (Int.lt_of_le_of_lt h hlapsed'), if_pos hlapsed']
    · rw [if_neg hlapsed']
      split <;> simp [rank]
  · rw [due, if_neg hclosed]
    split
    · next hlate =>
      rw [due, if_pos (Int.lt_of_lt_of_le hlate h)]
      split
      · split <;> simp [rank]
      · exact Nat.le_refl _
    · exact Nat.zero_le _

end PendingVerdict

namespace PendingDecision

variable {t : Thresholds} {status : NettingStatus} {now : Int64} {d : PendingDecision}

theorem verdict_eq_due (h : ofStatus status now t = .ok d) :
    d.verdict = .due t (now.toInt - status.requestTime.toInt) := by
  obtain ⟨hage, hverdict⟩ := ofStatus_eq_ok_iff.1 h
  rw [hverdict, PendingVerdict.ofAge_eq_due, hage]

theorem exists_ofStatus_iff :
    (∃ d, ofStatus status now t = .ok d) ↔ Word.Signed (now.toInt - status.requestTime.toInt) := by
  rw [← Word.exists_difference_iff]
  unfold ofStatus NettingStatus.requestAge
  cases Word.difference now status.requestTime <;> simp

end PendingDecision

/-! ## Passes with any answers -/

/-- What a pass can come to, and what was asked and answered on the way, in any order of the answers. -/
inductive TablePass.Reaches (m : Moment) (table : String) : List Exchange → TablePass → Prop
  | start : Reaches m table [] .start
  | answer {log : List Exchange} {t : TablePass} {r : Request} (reply : r.Reply) (sofar : Reaches m table log t)
      (waits : r ∈ t.requests) : Reaches m table (log ++ [⟨table, r, reply⟩]) (t.answer m table r reply)

namespace TablePass

variable {m : Moment} {table : String} {log : List Exchange} {t : TablePass}

theorem Reaches.followed (h : Reaches m table log t) : Followed m table log t := by
  induction h with
  | start => exact followed_start
  | answer reply _ waits ih => exact followed_answer ih waits reply

/-- The passes of a scan are such passes, however their turns fall. -/
theorem reaches_of_turns {σ : Type} {w : World σ} {o : Order} {tables : List String} {s : σ} (hd : tables.Nodup)
    {u : Scan.Underway (σ × List Exchange)}
    (h : ReflTransGen (Scan.Turn w.observed m o) (.start tables (s, [])) u) :
    ∀ p ∈ u.passes, Reaches m p.1 (about p.1 u.world.2) p.2 :=
  (Scan.passwise (fun _ => .start) (fun reply hlog hwaits => .answer reply hlog hwaits) hd h).2

end TablePass

/-! ## What a pass does about a request -/

/-- A counter that was read is the one of `status`. -/
def Exchange.Tells (status : NettingStatus) : Exchange → Prop
  | ⟨_, .lastHandNetted, .ok netted⟩ => netted = status.lastHandNetted
  | ⟨_, .requestedHand, .ok requested⟩ => requested = status.requestedHand
  | ⟨_, .requestTime, .ok second⟩ => second = status.requestTime
  | _ => True

/-- The counters read one after the other. -/
def Exchange.counters (table : String) (status : NettingStatus) : List Exchange :=
  [⟨table, .lastHandNetted, .ok status.lastHandNetted⟩, ⟨table, .requestedHand, .ok status.requestedHand⟩,
    ⟨table, .requestTime, .ok status.requestTime⟩]

/-- Where no read failed, the counters are those of `status`. -/
theorem Exchange.exists_fits {log : List Exchange} {status : NettingStatus} (htold : ∃ f, Fits f log)
    (htells : ∀ x ∈ log, x.Tells status) (hread : ∀ x ∈ log, x.failure? = none) :
    ∃ f : Facts, Fits f log ∧ f.Counts status := by
  obtain ⟨f, hf⟩ := htold
  let f' : Facts := { f with
    netted := .ok status.lastHandNetted, requested := .ok status.requestedHand, requestTime := .ok status.requestTime }
  refine ⟨f', fun x hx => ?_, rfl, rfl, rfl⟩
  obtain ⟨judge, hjudge⟩ := hf x hx
  refine ⟨judge, ?_⟩
  have htell := htells x hx
  have hok := hread x hx
  obtain ⟨table, request, reply⟩ := x
  cases request with
  | lastHandNetted | requestedHand | requestTime =>
    cases reply with
    | ok n => exact congrArg Except.ok htell
    | error e => cases hok
  | lastHand | lineup | publish e => exact hjudge

/-- A pass over a table: the second it is held against, what was asked and answered, and what it has come to. -/
structure PassLog where
  now : Int64
  log : List Exchange
  pass : TablePass

namespace PassLog

/-- The events that were accepted. -/
def accepted (p : PassLog) : List ControlEvent := Attempt.accepted (attempts p.log)

/-- A pass of the program, all of whose reads of the counters that did not fail gave those of `status`. -/
structure Over (t : Thresholds) (table : String) (status : NettingStatus) (p : PassLog) : Prop where
  reaches : TablePass.Reaches ⟨t, p.now⟩ table p.log p.pass
  unchanged : ∀ x ∈ p.log, x.Tells status

/-- This verdict is due. The pass has accepted at most its event; if it came to its end, then just this event, and
the verdict is what it found. -/
structure Calls (t : Thresholds) (table : String) (status : NettingStatus) (v : PendingVerdict) (p : PassLog) :
    Prop where
  due : .due t (p.now.toInt - status.requestTime.toInt) = v
  accepted : p.accepted <+: (v.event? table status).toList
  found : ∀ r, p.pass = .ended (.ok r) → p.accepted = (v.event? table status).toList ∧ r.published = p.accepted ∧
    ∃ d, PendingDecision.ofStatus status p.now t = .ok d ∧ d.verdict = v ∧ r.outcome = .pending d

variable {t : Thresholds} {table : String} {status : NettingStatus} {p : PassLog}

theorem calls_of_nothing (hnone : p.accepted = []) (hgoing : ∀ r, p.pass ≠ .ended (.ok r)) :
    p.Calls t table status (.due t (p.now.toInt - status.requestTime.toInt)) where
  due := rfl
  accepted := by
    rw [hnone]
    exact List.nil_prefix
  found r hr := absurd hr (hgoing r)

/-- One pass: whatever it was answered and however far it got, it did what the age of the request calls for, or
less. -/
theorem calls (h : p.Over t table status) (hp : status.isPending = true) :
    p.Calls t table status (.due t (p.now.toInt - status.requestTime.toInt)) := by
  have hfollowed := h.reaches.followed
  by_cases hfailed : ∃ x ∈ p.log, ∃ e, x.failure? = some e
  · -- The read that failed ended the pass, before it published anything.
    obtain ⟨x, hx, e, he⟩ := hfailed
    obtain ⟨f, hf⟩ := hfollowed.told
    have hended := hfollowed.stopped x hx e he
    have haccounted := hfollowed.accounted f hf
    rw [hended] at haccounted
    refine calls_of_nothing ?_ fun r hr => ?_
    · rw [PassLog.accepted, haccounted.2]
      rfl
    · rw [hended] at hr
      cases hr
  · have hread : ∀ x ∈ p.log, x.failure? = none := by
      intro x hx
      rw [Option.eq_none_iff_forall_ne_some]
      intro e he
      exact hfailed ⟨x, hx, e, he⟩
    obtain ⟨f, hf, hcounts⟩ := Exchange.exists_fits hfollowed.told h.unchanged hread
    rcases TablePass.accepted_of_accounted (hfollowed.accounted f hf) with
      ⟨hnone, hgoing⟩ | ⟨outcome, events, hd, hbeginning, hall⟩
    · exact calls_of_nothing hnone hgoing
    · obtain ⟨d, hdecision, rfl, rfl⟩ := hd.pending_inv hcounts hp
      rw [← PendingDecision.verdict_eq_due hdecision]
      refine ⟨(PendingDecision.verdict_eq_due hdecision).symm, hbeginning, fun r hr => ?_⟩
      obtain ⟨houtcome, hpublished, haccepted⟩ := hall r hr
      exact ⟨haccepted, hpublished.trans haccepted.symm, d, hdecision, rfl, houtcome⟩

/-- A pass that is told the counters and whose event is accepted. -/
theorem over_published (hp : status.isPending = true) {now : Int64} {d : PendingDecision}
    (hd : PendingDecision.ofStatus status now t = .ok d) {e : ControlEvent}
    (he : d.verdict.event? table status = some e) :
    Over t table status ⟨now, counters table status ++ [⟨table, .publish e, .ok ()⟩],
      .ended (.ok ⟨table, .pending d, [e]⟩)⟩ where
  reaches := by
    obtain ⟨netted, requested, time⟩ := status
    have h₁ : TablePass.Reaches ⟨t, now⟩ table _ _ :=
      .answer (r := .lastHandNetted) (.ok netted) .start (by simp [TablePass.start, TablePass.requests])
    have h₂ : TablePass.Reaches ⟨t, now⟩ table _ _ :=
      .answer (r := .requestedHand) (.ok requested) h₁
        (by simp [TablePass.start, TablePass.requests, TablePass.answer, TablePass.counted])
    have h₃ : TablePass.Reaches ⟨t, now⟩ table _ _ :=
      .answer (r := .requestTime) (.ok time) h₂
        (by simp [TablePass.start, TablePass.requests, TablePass.answer, TablePass.counted])
    have hjudged : TablePass.Reaches ⟨t, now⟩ table (counters table ⟨netted, requested, time⟩)
        (.publishing (.pending d) [] e []) := by
      simpa [counters, TablePass.start, TablePass.answer, TablePass.counted, hp, TablePass.judgePending, hd, he,
        TablePass.publish] using h₃
    exact .answer (r := .publish e) (.ok ()) hjudged List.mem_cons_self
  unchanged := by simp [counters, Exchange.Tells]

/-! ## Any number of passes -/

/-- Where what holds of one held of all before it, it holds of the first ones and of no other. -/
theorem exists_split {α : Type} {holds : α → Prop} {l : List α} (h : l.Pairwise fun a b => holds b → holds a) :
    ∃ first rest, l = first ++ rest ∧ (∀ a ∈ first, holds a) ∧ ∀ b ∈ rest, ¬ holds b := by
  induction l with
  | nil => exact ⟨[], [], rfl, nofun, nofun⟩
  | cons a l ih =>
    obtain ⟨hbefore, htail⟩ := List.pairwise_cons.1 h
    by_cases ha : holds a
    · obtain ⟨first, rest, rfl, hfirst, hrest⟩ := ih htail
      exact ⟨a :: first, rest, rfl, List.forall_mem_cons.2 ⟨ha, hfirst⟩, hrest⟩
    · exact ⟨[], a :: l, rfl, nofun, List.forall_mem_cons.2 ⟨ha, fun b hb hholds => ha (hbefore b hb hholds)⟩⟩

variable {passes : List PassLog}

/-- Passes that may each have had one event accepted. -/
theorem exists_replicate {e : ControlEvent} (h : ∀ p ∈ passes, p.accepted <+: [e]) :
    ∃ n, passes.flatMap (·.accepted) = List.replicate n e := by
  refine ⟨_, List.eq_replicate_length.2 fun e' he' => ?_⟩
  obtain ⟨p, hp, he'⟩ := List.mem_flatMap.1 he'
  exact List.mem_singleton.1 ((h p hp).subset he')

theorem flatMap_accepted_eq_nil (h : ∀ p ∈ passes, p.accepted <+: []) : passes.flatMap (·.accepted) = [] :=
  List.flatMap_eq_nil_iff.2 fun p hp => List.prefix_nil.1 (h p hp)

/-- Passes one after the other fall into four phases, by what is due. -/
theorem exists_phases (hp : status.isPending = true) (hsorted : passes.Pairwise fun p q => p.now ≤ q.now)
    (hover : ∀ p ∈ passes, p.Over t table status) :
    ∃ early disputed progressed lapsed, passes = early ++ (disputed ++ (progressed ++ lapsed)) ∧
      (∀ p ∈ early, p.Calls t table status .tooEarly) ∧ (∀ p ∈ disputed, p.Calls t table status .handleDispute) ∧
      (∀ p ∈ progressed, p.Calls t table status .progressNetting) ∧ ∀ p ∈ lapsed, p.Calls t table status .lapsed := by
  -- The ranks of what is due ascend, so the passes can be cut after each rank.
  let rank (p : PassLog) : Nat := (PendingVerdict.due t (p.now.toInt - status.requestTime.toInt)).rank
  have hranks : passes.Pairwise fun p q => rank p ≤ rank q := hsorted.imp fun {p q} hle =>
    PendingVerdict.rank_due_le (Int.sub_le_sub_right (Int64.le_iff_toInt_le.1 hle) _)
  have hcut {l : List PassLog} (h : l.Pairwise fun p q => rank p ≤ rank q) (k : Nat) :
      l.Pairwise fun p q => rank q ≤ k → rank p ≤ k :=
    h.imp fun hpq hq => Nat.le_trans hpq hq
  have hcalls {v : PendingVerdict} {p : PassLog} (hmem : p ∈ passes) (hrank : rank p = v.rank) :
      p.Calls t table status v :=
    PendingVerdict.rank_inj hrank ▸ calls (hover p hmem) hp
  obtain ⟨early, later, rfl, hearly, hlater⟩ := exists_split (hcut hranks 0)
  have hlaters := (List.pairwise_append.1 hranks).2.1
  obtain ⟨disputed, closed, rfl, hdisputed, hclosed⟩ := exists_split (hcut hlaters 1)
  obtain ⟨progressed, lapsed, rfl, hprogressed, hlapsed⟩ := exists_split (hcut (List.pairwise_append.1 hlaters).2.1 2)
  refine ⟨early, disputed, progressed, lapsed, rfl, ?_, ?_, ?_, ?_⟩
  · intro p h
    have := hearly p h
    exact hcalls (by simp [h]) (show rank p = 0 by omega)
  · intro p h
    have := hdisputed p h
    have := hlater p (by simp [h])
    exact hcalls (by simp [h]) (show rank p = 1 by omega)
  · intro p h
    have := hprogressed p h
    have := hclosed p (by simp [h])
    exact hcalls (by simp [h]) (show rank p = 2 by omega)
  · intro p h
    have := hlapsed p h
    have : rank p ≤ 3 := PendingVerdict.rank_le _
    exact hcalls (by simp [h]) (show rank p = 3 by omega)

end PassLog

namespace PendingDecision

/-- Whatever the thresholds are, a request is decided on just where its age is a word, the decision carries
that age, and a later one is no earlier in its order. Valid thresholds give each verdict its ages. Passes one
after the other over a request that stays as it is have accepted disputes, then submissions, then nothing. -/
theorem moves_forward (status : NettingStatus) (t : Thresholds) :
    (∀ now, (∃ d, ofStatus status now t = .ok d) ↔ Word.Signed (now.toInt - status.requestTime.toInt)) ∧
      (∀ now d, ofStatus status now t = .ok d → d.age.toInt = now.toInt - status.requestTime.toInt) ∧
      (∀ now now' d d', now ≤ now' → ofStatus status now t = .ok d → ofStatus status now' t = .ok d' →
        d.verdict.rank ≤ d'.verdict.rank) ∧
      (t.validate = .ok () → ∀ now d, ofStatus status now t = .ok d →
        ∀ v, d.verdict = v ↔ v.HasAge t d.age.toInt) ∧
      (status.isPending = true → ∀ (table : String) (passes : List PassLog),
        passes.Pairwise (fun p q => p.now ≤ q.now) → (∀ p ∈ passes, p.Over t table status) →
          ∃ early disputed progressed lapsed, passes = early ++ (disputed ++ (progressed ++ lapsed)) ∧
            (∀ p ∈ early, p.Calls t table status .tooEarly) ∧
            (∀ p ∈ disputed, p.Calls t table status .handleDispute) ∧
            (∀ p ∈ progressed, p.Calls t table status .progressNetting) ∧
            (∀ p ∈ lapsed, p.Calls t table status .lapsed) ∧
            ∃ disputes submissions, passes.flatMap (·.accepted) =
              List.replicate disputes (.handleDispute table status.lastHandNetted status.requestedHand) ++
                List.replicate submissions (.progressNetting table)) := by
  refine ⟨fun _ => exists_ofStatus_iff, fun _ _ h => (ofStatus_eq_ok_iff.1 h).1, fun now now' d d' hle h h' => ?_,
    fun hv now d h v => ?_, fun hp table passes hsorted hover => ?_⟩
  · rw [verdict_eq_due h, verdict_eq_due h']
    exact PendingVerdict.rank_due_le (Int.sub_le_sub_right (Int64.le_iff_toInt_le.1 hle) _)
  · rw [(ofStatus_eq_ok_iff.1 h).2, PendingVerdict.ofAge_eq_iff hv]
  · obtain ⟨early, disputed, progressed, lapsed, hsplit, hearly, hdisputed, hprogressed, hlapsed⟩ :=
      PassLog.exists_phases hp hsorted hover
    obtain ⟨disputes, hdisputes⟩ := PassLog.exists_replicate fun p hmem => (hdisputed p hmem).accepted
    obtain ⟨submissions, hsubmissions⟩ := PassLog.exists_replicate fun p hmem => (hprogressed p hmem).accepted
    refine ⟨early, disputed, progressed, lapsed, hsplit, hearly, hdisputed, hprogressed, hlapsed, disputes,
      submissions, ?_⟩
    rw [hsplit, List.flatMap_append, List.flatMap_append, List.flatMap_append, hdisputes, hsubmissions,
      PassLog.flatMap_accepted_eq_nil fun p hmem => (hearly p hmem).accepted,
      PassLog.flatMap_accepted_eq_nil fun p hmem => (hlapsed p hmem).accepted, List.nil_append, List.append_nil]

/-- After 200 seconds the request is disputed, after 700 what was gathered is submitted. -/
theorem moves_forward_to_submission :
    let status : NettingStatus := ⟨100, 105, 1000⟩
    let passes : List PassLog :=
      [⟨1200, counters "0xa" status ++ [⟨"0xa", .publish (.handleDispute "0xa" 100 105), .ok ()⟩],
          .ended (.ok ⟨"0xa", .pending ⟨.handleDispute, 200⟩, [.handleDispute "0xa" 100 105]⟩)⟩,
        ⟨1700, counters "0xa" status ++ [⟨"0xa", .publish (.progressNetting "0xa"), .ok ()⟩],
          .ended (.ok ⟨"0xa", .pending ⟨.progressNetting, 700⟩, [.progressNetting "0xa"]⟩)⟩]
    status.isPending = true ∧ Thresholds.standard.validate = .ok () ∧
      (∀ v, PendingVerdict.handleDispute = v ↔ v.HasAge .standard 200) ∧
      PendingVerdict.handleDispute.rank ≤ PendingVerdict.progressNetting.rank ∧
      passes.Pairwise (fun p q => p.now ≤ q.now) ∧ (∀ p ∈ passes, p.Over .standard "0xa" status) ∧
      ∃ disputes submissions, passes.flatMap (·.accepted) =
        List.replicate disputes (.handleDispute "0xa" 100 105) ++
          List.replicate submissions (.progressNetting "0xa") := by
  intro status passes
  have hp : status.isPending = true := by decide
  have hv : Thresholds.standard.validate = .ok () := rfl
  have hdispute : ofStatus status 1200 .standard = .ok ⟨.handleDispute, 200⟩ := by decide
  have hsubmit : ofStatus status 1700 .standard = .ok ⟨.progressNetting, 700⟩ := by decide
  have hle : (1200 : Int64) ≤ 1700 := by decide
  have hsorted : passes.Pairwise (fun p q => p.now ≤ q.now) := List.pairwise_pair.2 hle
  have hover : ∀ p ∈ passes, p.Over .standard "0xa" status :=
    List.forall_mem_cons.2 ⟨PassLog.over_published hp hdispute rfl,
      List.forall_mem_singleton.2 (PassLog.over_published hp hsubmit rfl)⟩
  obtain ⟨-, -, hrank, hranges, hcourse⟩ := moves_forward status .standard
  obtain ⟨-, -, -, -, -, -, -, -, -, haccepted⟩ := hcourse hp "0xa" passes hsorted hover
  exact ⟨hp, hv, hranges hv 1200 _ hdispute, hrank 1200 1700 _ _ hle hdispute hsubmit, hsorted, hover, haccepted⟩

end PendingDecision

end TableEscrow
