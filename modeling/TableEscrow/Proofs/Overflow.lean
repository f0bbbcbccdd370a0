import TableEscrow.Proofs.Facts
/-!
# Overflows

The thresholds and the clock can never make a word too large or too small; two things a table may
say can. `Facts.Overflows` lists them. `informed_answer` is the invariant: a pass that is answered
from the facts ends in an overflow just where the facts overflow. So a scan gives a report unless
one of its tables overflows, and then it gives none (`Scan.reports_iff`).
-/

namespace TableEscrow

/-- Under these facts the pass over a table computes something that is no word. -/
inductive Facts.Overflows (m : Moment) (f : Facts) : Overflow → Prop
  /-- The outstanding request is too long ago for its age to be a word. -/
  | age {status : NettingStatus} (counts : f.Counts status)
      (pending : status.lastHandNetted < status.requestedHand)
      (old : 9223372036854775807 < m.now.toInt - status.requestTime.toInt) : Overflows m f .subtract
  /-- Somebody leaves a table in use, and the hand to settle next is no word. -/
  | number {status : NettingStatus} {hand : Hand} {lineup : ChainLineup} (counts : f.Counts status)
      (settled : status.requestedHand ≤ status.lastHandNetted)
      (dealt : f.hand = .ok (some hand)) (seated : f.lineup = .ok lineup)
      (recent : m.now.toInt - m.thresholds.handStaleAfter.toInt < hand.changed.toInt)
      (leaves : ∃ seat ∈ lineup.seats, 0 < seat.exitHand)
      (last : status.lastHandNetted.toNat = 18446744073709551615) : Overflows m f .add

theorem Facts.Counts.unique {f : Facts} {a b : NettingStatus} (ha : f.Counts a) (hb : f.Counts b) : a = b := by
  obtain ⟨a1, a2, a3⟩ := a
  obtain ⟨b1, b2, b3⟩ := b
  obtain ⟨h1, h2, h3⟩ := ha
  obtain ⟨h1', h2', h3'⟩ := hb
  cases h1.symm.trans h1'
  cases h2.symm.trans h2'
  cases h3.symm.trans h3'
  rfl

theorem Facts.Overflows.counts {m : Moment} {f : Facts} {o : Overflow} (h : f.Overflows m o) :
    ∃ status, f.Counts status := by
  cases h with
  | age counts => exact ⟨_, counts⟩
  | number counts => exact ⟨_, counts⟩

theorem Facts.Overflows.gathers {m : Moment} {f : Facts} {o : Overflow} (h : f.Overflows m o)
    {status : NettingStatus} (hc : f.Counts status) (hp : status.isPending = false) :
    ∃ hand lineup, f.hand = .ok (some hand) ∧ f.lineup = .ok lineup := by
  cases h with
  | age counts pending =>
    cases hc.unique counts
    exact absurd (decide_eq_true pending) (by simpa [NettingStatus.isPending] using hp)
  | number _ _ dealt seated => exact ⟨_, _, dealt, seated⟩

/-- The last request was not made before second 0, and there is a hand after the last settled one. -/
def Facts.Bounded (f : Facts) : Prop :=
  (∀ second, f.requestTime = .ok second → 0 ≤ second) ∧ ∀ n, f.netted = .ok n → n.toNat < 18446744073709551615

theorem Facts.Bounded.not_overflows {f : Facts} (h : f.Bounded) (m : Moment) (v : Overflow) : ¬ f.Overflows m v := by
  intro ho
  cases ho with
  | @age status counts _ old =>
    have hsecond := Int64.le_iff_toInt_le.1 (h.1 _ counts.2.2)
    have hnow := m.now.toInt_lt
    simp only [Int64.toInt_zero] at hsecond
    omega
  | @number status _ _ counts _ _ _ _ _ last =>
    have hlast := h.2 _ counts.1
    omega

/-! ## What the decisions compute -/

theorem NettingStatus.isPending_iff {s : NettingStatus} : s.isPending = true ↔ s.lastHandNetted < s.requestedHand :=
  decide_eq_true_iff

theorem ChainLineup.anyExitRequest_iff {l : ChainLineup} :
    l.anyExitRequest = true ↔ ∃ seat ∈ l.seats, 0 < seat.exitHand := by
  simp [ChainLineup.anyExitRequest, ChainSeat.hasExitRequest]

/-- From a second that is not negative no positive threshold leads below the words. -/
theorem signed_sub {now threshold : Int64} (hnow : 0 ≤ now) (ht : 0 < threshold) :
    Word.Signed (now.toInt - threshold.toInt) := by
  have h1 := Int64.le_iff_toInt_le.1 hnow
  have h2 := Int64.lt_iff_toInt_lt.1 ht
  have h3 := now.toInt_lt
  have h4 := threshold.toInt_lt
  simp only [Int64.toInt_zero] at h1 h2
  unfold Word.Signed
  omega

theorem difference_of_pos {now threshold : Int64} (hnow : 0 ≤ now) (ht : 0 < threshold) :
    ∃ d, Word.difference now threshold = .ok d ∧ d.toInt = now.toInt - threshold.toInt := by
  cases h : Word.difference now threshold with
  | ok d => exact ⟨d, rfl, Word.difference_eq_ok h⟩
  | error o => exact absurd (signed_sub hnow ht) (Word.difference_eq_error.1 h).2

theorem requestAge_eq_error {status : NettingStatus} {now : Int64} (hnow : 0 ≤ now) {o : Overflow} :
    status.requestAge now = .error o ↔
      o = .subtract ∧ 9223372036854775807 < now.toInt - status.requestTime.toInt := by
  have h1 := Int64.le_iff_toInt_le.1 hnow
  have h2 := status.requestTime.toInt_lt
  simp only [Int64.toInt_zero] at h1
  rw [NettingStatus.requestAge, Word.difference_eq_error]
  refine and_congr_right fun _ => ?_
  unfold Word.Signed
  omega

theorem ofStatus_eq_error {status : NettingStatus} {now : Int64} {t : Thresholds} {o : Overflow} :
    PendingDecision.ofStatus status now t = .error o ↔ status.requestAge now = .error o := by
  unfold PendingDecision.ofStatus
  cases status.requestAge now <;> simp

theorem ofTable_eq_error {status : NettingStatus} {hand : Hand} {lineup : ChainLineup} {now : Int64}
    {t : Thresholds} (hv : t.validate = .ok ()) (hnow : 0 ≤ now) {o : Overflow} :
    SettledDecision.ofTable status hand lineup now t = .error o ↔
      o = .add ∧ now.toInt - t.handStaleAfter.toInt < hand.changed.toInt ∧
        (∃ seat ∈ lineup.seats, 0 < seat.exitHand) ∧ status.lastHandNetted.toNat = 18446744073709551615 := by
  have hpos := Thresholds.pos_of_validate hv
  have hkick : 0 < t.kickAfter := hpos ("kick_after_secs", t.kickAfter) (by simp [Thresholds.named])
  have hkept : 0 < t.handStaleAfter := hpos ("hand_stale_after_secs", t.handStaleAfter) (by simp [Thresholds.named])
  obtain ⟨satOut, hsat, -⟩ := difference_of_pos hnow hkick
  obtain ⟨stale, hstale, hs⟩ := difference_of_pos hnow hkept
  have hrecent : stale < hand.changed ↔ now.toInt - t.handStaleAfter.toInt < hand.changed.toInt := by
    rw [Int64.lt_iff_toInt_lt, hs]
  rw [← hrecent, ← ChainLineup.anyExitRequest_iff]
  simp only [SettledDecision.ofTable, hsat, hstale, bind, Except.bind]
  by_cases hc : stale < hand.changed ∧ lineup.anyExitRequest = true
  · have hsucc : Word.successor status.lastHandNetted = .error o ↔
        o = .add ∧ status.lastHandNetted.toNat = 18446744073709551615 := Word.successor_eq_error
    rw [if_pos (by simp [hc])]
    cases h : Word.successor status.lastHandNetted <;> rw [h] at hsucc <;>
      simp_all [Except.map, pure, Except.pure]
  · rw [if_neg (by simpa using hc)]
    simp only [pure, Except.pure, reduceCtorEq, false_iff]
    exact fun h => hc ⟨h.2.1, h.2.2.1⟩

/-- What a decision on a settled table is computed from, and that nothing else can go wrong. -/
theorem ofTable_eq_ok_iff {status : NettingStatus} {hand : Hand} {lineup : ChainLineup} {now : Int64} {t : Thresholds}
    {d : SettledDecision} :
    SettledDecision.ofTable status hand lineup now t = .ok d ↔
      ∃ satOut stale, Word.difference now t.kickAfter = .ok satOut ∧ Word.difference now t.handStaleAfter = .ok stale ∧
        d.kick = SettledDecision.kicked satOut 0 hand.lineup ∧
        d.timeout = (decide (stale < hand.changed) && hand.hasPlayer) ∧
        if stale < hand.changed ∧ lineup.anyExitRequest = true
        then ∃ next, Word.successor status.lastHandNetted = .ok next ∧ d.nettingRequest = some next
        else d.nettingRequest = none := by
  obtain ⟨kick, timeout, request⟩ := d
  unfold SettledDecision.ofTable
  cases hkick : Word.difference now t.kickAfter with
  | error o => simp [bind, Except.bind]
  | ok satOut =>
    cases hstale : Word.difference now t.handStaleAfter with
    | error o => simp [bind, Except.bind]
    | ok stale =>
      simp only [bind, Except.bind, Except.ok.injEq, exists_and_left, exists_eq_left']
      by_cases hdue : stale < hand.changed ∧ lineup.anyExitRequest = true
      · rw [if_pos (by simp [hdue]), if_pos hdue]
        cases Word.successor status.lastHandNetted <;> simp [Except.map, pure, Except.pure, eq_comm]
      · rw [if_neg (by simpa using hdue), if_neg hdue]
        simp [pure, Except.pure, eq_comm]

theorem ofTable_eq_ok {status : NettingStatus} {hand : Hand} {lineup : ChainLineup} {now : Int64} {t : Thresholds}
    {d : SettledDecision} (h : SettledDecision.ofTable status hand lineup now t = .ok d) :
    ∃ satOut stale, Word.difference now t.kickAfter = .ok satOut ∧ Word.difference now t.handStaleAfter = .ok stale ∧
      d.kick = SettledDecision.kicked satOut 0 hand.lineup ∧
      d.timeout = (decide (stale < hand.changed) && hand.hasPlayer) ∧
      ∀ next, d.nettingRequest = some next ↔
        stale < hand.changed ∧ lineup.anyExitRequest = true ∧ Word.successor status.lastHandNetted = .ok next := by
  obtain ⟨satOut, stale, hkick, hstale, hpositions, htimeout, hrequest⟩ := ofTable_eq_ok_iff.1 h
  refine ⟨satOut, stale, hkick, hstale, hpositions, htimeout, fun next => ?_⟩
  by_cases hdue : stale < hand.changed ∧ lineup.anyExitRequest = true
  · rw [if_pos hdue] at hrequest
    obtain ⟨next', hnext, hsome⟩ := hrequest
    simp [hsome, hnext, hdue]
  · rw [if_neg hdue] at hrequest
    rw [hrequest]
    exact ⟨nofun, fun hnext => absurd ⟨hnext.1, hnext.2.1⟩ hdue⟩

/-! ## The events are about their own table -/

theorem PendingVerdict.table_of_event? {v : PendingVerdict} {table : String} {status : NettingStatus}
    {e : ControlEvent} (h : v.event? table status = some e) : e.table = table := by
  cases v <;> cases h <;> rfl

theorem SettledDecision.mem_events {d : SettledDecision} {table : String} {e : ControlEvent} :
    e ∈ d.events table ↔ (∃ position ∈ d.kick, .kick table position = e) ∨
      (d.timeout = true ∧ e = .timeout table) ∨
        ∃ hand, d.nettingRequest = some hand ∧ .tableNettingRequest table hand = e := by
  simp [SettledDecision.events]

theorem SettledDecision.table_of_mem_events {d : SettledDecision} {table : String} {e : ControlEvent}
    (h : e ∈ d.events table) : e.table = table := by
  rcases SettledDecision.mem_events.1 h with ⟨_, -, rfl⟩ | ⟨-, rfl⟩ | ⟨_, -, rfl⟩ <;> rfl

/-! ## What a pass has been told -/

namespace TablePass

/-- What a pass was told is so. It publishes only where nothing overflows, and about its own table;
it ends in an overflow just where one is due. -/
def Informed (m : Moment) (table : String) (f : Facts) : TablePass → Prop
  | .counting netted requested time _ =>
    (∀ n ∈ netted, f.netted = .ok n) ∧ (∀ n ∈ requested, f.requested = .ok n) ∧
      ∀ second ∈ time, f.requestTime = .ok second
  | .gathering status hand lineup _ =>
    f.Counts status ∧ status.isPending = false ∧ (∀ h ∈ hand, f.hand = .ok h) ∧
      ∀ l ∈ lineup, f.lineup = .ok l
  | .publishing _ _ next left => (∀ e ∈ next :: left, e.table = table) ∧ ∀ o, ¬ f.Overflows m o
  | .ended result => ∀ o, result = .error (.overflow o) ↔ f.Overflows m o

variable {m : Moment} {table : String} {f : Facts}

theorem informed_start : Informed m table f start := by
  simp [Informed, start]

theorem informed_publish (h : ∀ o, ¬ f.Overflows m o) (outcome : TableOutcome) (accepted : List ControlEvent)
    {events : List ControlEvent} (he : ∀ e ∈ events, e.table = table) :
    Informed m table f (publish table outcome accepted events) := by
  cases events with
  | nil => exact fun o => iff_of_false nofun (h o)
  | cons e left => exact ⟨he, h⟩

/-- A pass that a failed read ends has nothing to overflow: what would is not all there. -/
theorem informed_afterRead {α : Type} {goOn : α → TablePass} {reply : Except ReadError α}
    (hok : ∀ a, reply = .ok a → Informed m table f (goOn a))
    (hfail : ∀ e, reply = .error e → ∀ o, ¬ f.Overflows m o) : Informed m table f (afterRead goOn reply) := by
  cases reply with
  | ok a => exact hok a rfl
  | error e => exact fun o => iff_of_false nofun (hfail e rfl o)

theorem informed_judgePending (hnow : 0 ≤ m.now) {status : NettingStatus} (hc : f.Counts status)
    (hp : status.isPending = true) : Informed m table f (judgePending m table status) := by
  have hpending := NettingStatus.isPending_iff.1 hp
  have hiff (o : Overflow) :
      PendingDecision.ofStatus status m.now m.thresholds = .error o ↔ f.Overflows m o := by
    rw [ofStatus_eq_error, requestAge_eq_error hnow]
    constructor
    · rintro ⟨rfl, hold⟩
      exact .age hc hpending hold
    · intro h
      cases h with
      | age hc' _ old =>
        cases hc.unique hc'
        exact ⟨rfl, old⟩
      | number hc' settled =>
        cases hc.unique hc'
        exact absurd hpending (UInt64.not_lt.2 settled)
  unfold judgePending
  cases hd : PendingDecision.ofStatus status m.now m.thresholds with
  | ok d =>
    refine informed_publish (fun o ho => ?_) _ _ fun e he => ?_
    · cases hd.symm.trans ((hiff o).2 ho)
    · exact PendingVerdict.table_of_event? (Option.mem_toList.1 he)
  | error o =>
    intro o'
    rw [← hiff o', hd]
    simp

theorem informed_judgeSettled (hv : m.thresholds.validate = .ok ()) (hnow : 0 ≤ m.now) {status : NettingStatus}
    {hand : Hand} {lineup : ChainLineup} (hc : f.Counts status) (hp : status.isPending = false)
    (hh : f.hand = .ok (some hand)) (hl : f.lineup = .ok lineup) :
    Informed m table f (judgeSettled m table status hand lineup) := by
  have hsettled : status.requestedHand ≤ status.lastHandNetted :=
    UInt64.not_lt.1 fun h => absurd (NettingStatus.isPending_iff.2 h) (by simp [hp])
  have hiff (o : Overflow) :
      SettledDecision.ofTable status hand lineup m.now m.thresholds = .error o ↔ f.Overflows m o := by
    rw [ofTable_eq_error hv hnow]
    constructor
    · rintro ⟨rfl, hrecent, hleaves, hlast⟩
      exact .number hc hsettled hh hl hrecent hleaves hlast
    · intro h
      cases h with
      | age hc' pending =>
        cases hc.unique hc'
        exact absurd pending (UInt64.not_lt.2 hsettled)
      | number hc' _ hh' hl' recent leaves last =>
        cases hc.unique hc'
        cases hh.symm.trans hh'
        cases hl.symm.trans hl'
        exact ⟨rfl, recent, leaves, last⟩
  unfold judgeSettled
  cases hd : SettledDecision.ofTable status hand lineup m.now m.thresholds with
  | ok d =>
    refine informed_publish (fun o ho => ?_) _ _ fun e he => SettledDecision.table_of_mem_events he
    cases hd.symm.trans ((hiff o).2 ho)
  | error o =>
    intro o'
    rw [← hiff o', hd]
    simp

theorem informed_counted (hnow : 0 ≤ m.now) {netted requested : Option UInt64} {time : Option Int64}
    (hn : ∀ n ∈ netted, f.netted = .ok n) (hr : ∀ n ∈ requested, f.requested = .ok n)
    (ht : ∀ second ∈ time, f.requestTime = .ok second) :
    Informed m table f (counted m table netted requested time) := by
  unfold counted
  split
  · next netted requested time =>
    have hc : f.Counts ⟨netted, requested, time⟩ := ⟨hn _ rfl, hr _ rfl, ht _ rfl⟩
    by_cases hp : (NettingStatus.mk netted requested time).isPending = true
    · rw [if_pos hp]
      exact informed_judgePending hnow hc hp
    · rw [if_neg hp]
      exact ⟨hc, Bool.eq_false_iff.2 hp, by simp, by simp⟩
  all_goals exact ⟨hn, hr, ht⟩

theorem informed_gathered (hv : m.thresholds.validate = .ok ()) (hnow : 0 ≤ m.now) {status : NettingStatus}
    {hand : Option (Option Hand)} {lineup : Option ChainLineup} (hc : f.Counts status)
    (hp : status.isPending = false) (hh : ∀ h ∈ hand, f.hand = .ok h) (hl : ∀ l ∈ lineup, f.lineup = .ok l) :
    Informed m table f (gathered m table status hand lineup) := by
  unfold gathered
  split
  · refine fun o => iff_of_false nofun fun ho => ?_
    obtain ⟨_, _, hdealt, -⟩ := ho.gathers hc hp
    cases (hh _ rfl).symm.trans hdealt
  · exact informed_judgeSettled hv hnow hc hp (hh _ rfl) (hl _ rfl)
  all_goals exact ⟨hc, hp, hh, hl⟩

theorem informed_answer (hv : m.thresholds.validate = .ok ()) (hnow : 0 ≤ m.now) {t : TablePass} {r : Request}
    (hr : r ∈ t.requests) (h : Informed m table f t) (judge : Judge) :
    Informed m table f (t.answer m table r (f.reply judge r)) := by
  have uncounted {α : Type} {read : Except ReadError α} {e : ReadError} (he : read = .error e)
      (hread : ∀ status, f.Counts status → ∃ a, read = .ok a) (o : Overflow) : ¬ f.Overflows m o := by
    intro ho
    obtain ⟨status, hc⟩ := ho.counts
    obtain ⟨a, ha⟩ := hread status hc
    cases he.symm.trans ha
  -- A read gives what the facts say, so what it adds to the pass is so; if it fails, so do the facts.
  have ha := answered m table (f.reply judge r) hr
  generalize hreply : f.reply judge r = reply at ha ⊢
  generalize t.answer m table r reply = t' at ha ⊢
  cases ha with
  | netted =>
    obtain ⟨-, hrequested, htime⟩ := h
    refine informed_afterRead (fun n hn => informed_counted hnow ?_ hrequested htime) fun e he => ?_
    · rintro _ ⟨⟩
      exact hreply.trans hn
    · exact uncounted (hreply.trans he) fun _ hc => ⟨_, hc.1⟩
  | requested =>
    obtain ⟨hnetted, -, htime⟩ := h
    refine informed_afterRead (fun n hn => informed_counted hnow hnetted ?_ htime) fun e he => ?_
    · rintro _ ⟨⟩
      exact hreply.trans hn
    · exact uncounted (hreply.trans he) fun _ hc => ⟨_, hc.2.1⟩
  | time =>
    obtain ⟨hnetted, hrequested, -⟩ := h
    refine informed_afterRead (fun n hn => informed_counted hnow hnetted hrequested ?_) fun e he => ?_
    · rintro _ ⟨⟩
      exact hreply.trans hn
    · exact uncounted (hreply.trans he) fun _ hc => ⟨_, hc.2.2⟩
  | hand =>
    obtain ⟨hc, hp, -, hlineup⟩ := h
    refine informed_afterRead (fun hand hh => informed_gathered hv hnow hc hp ?_ hlineup) fun e he o ho => ?_
    · rintro _ ⟨⟩
      exact hreply.trans hh
    · obtain ⟨_, _, hdealt, -⟩ := ho.gathers hc hp
      cases (hreply.trans he).symm.trans hdealt
  | lineup =>
    obtain ⟨hc, hp, hhand, -⟩ := h
    refine informed_afterRead (fun lineup hl => informed_gathered hv hnow hc hp hhand ?_) fun e he o ho => ?_
    · rintro _ ⟨⟩
      exact hreply.trans hl
    · obtain ⟨_, _, -, hseated⟩ := ho.gathers hc hp
      cases (hreply.trans he).symm.trans hseated
  | accepted =>
    obtain ⟨hown, hno⟩ := h
    exact informed_publish hno _ _ fun e he => hown e (List.mem_cons_of_mem _ he)
  | refused =>
    obtain ⟨-, hno⟩ := h
    exact fun o => iff_of_false nofun (hno o)

variable {σ : Type} {w : World σ} {facts : String → Facts} {P : σ → Prop}

theorem informed_drive (hw : w.Tells facts P) (hv : m.thresholds.validate = .ok ()) (hnow : 0 ≤ m.now)
    (t : TablePass) (s : σ) (ht : Informed m table (facts table) t) (hs : P s) :
    (∀ o, (drive w m table t s).1 = .error (.overflow o) ↔ (facts table).Overflows m o) ∧
      P (drive w m table t s).2 := by
  induction t, s using drive.induct w m table with
  | case1 t s result hnext =>
    cases ended_of_next hnext
    rw [drive_ended]
    exact ⟨ht, hs⟩
  | case2 t s r hnext reply s' hreply ih =>
    obtain ⟨judge, hj⟩ := hw.answers hs table r
    have hs' := hw.stays hs table r
    rw [drive_next w m table hnext]
    rw [hreply] at hj hs' ⊢
    refine ih ?_ hs'
    rw [show reply = (facts table).reply judge r from hj]
    exact informed_answer hv hnow (List.mem_of_head? (requests_of_next hnext)) ht judge

theorem informed_run (hw : w.Tells facts P) (hv : m.thresholds.validate = .ok ()) (hnow : 0 ≤ m.now)
    (table : String) {s : σ} (hs : P s) :
    (∀ o, (run w m table s).1 = .error (.overflow o) ↔ (facts table).Overflows m o) ∧ P (run w m table s).2 :=
  informed_drive hw hv hnow start s informed_start hs

end TablePass

/-! ## Scans -/

namespace Scan

variable {σ : Type} {w : World σ} {m : Moment} {facts : String → Facts} {P : σ → Prop}

theorem lines_cons (w : World σ) (m : Moment) (table : String) (rest : List String) (s : σ) :
    (∃ o, (TablePass.run w m table s).1 = .error (.overflow o) ∧
        (lines w m (table :: rest) s).1 = .error (.overflow o)) ∨
      ((∀ o, (TablePass.run w m table s).1 ≠ .error (.overflow o)) ∧
        (lines w m (table :: rest) s).1 =
          (lines w m rest (TablePass.run w m table s).2).1.map (⟨table, (TablePass.run w m table s).1⟩ :: ·)) := by
  rw [lines]
  split
  · next o s' h => exact .inl ⟨o, by rw [h], rfl⟩
  · next result s' hno h =>
    refine .inr ⟨fun o ho => hno o ?_, ?_⟩
    · rw [h] at ho
      exact ho
    · rw [h]
      dsimp only
      split
      all_goals
        next hrest =>
          rw [hrest]
          rfl

/-- A line for each table, unless one overflows; and then there are no lines. -/
theorem lines_or_overflow (hw : w.Tells facts P) (hv : m.thresholds.validate = .ok ()) (hnow : 0 ≤ m.now)
    (tables : List String) {s : σ} (hs : P s) :
    (∃ ls, (lines w m tables s).1 = .ok ls ∧ ls.map (·.table) = tables ∧
        ∀ table ∈ tables, ∀ o, ¬ (facts table).Overflows m o) ∨
      ∃ table ∈ tables, ∃ o, (facts table).Overflows m o ∧ (lines w m tables s).1 = .error (.overflow o) := by
  induction tables generalizing s with
  | nil => exact .inl ⟨[], rfl, rfl, nofun⟩
  | cons table rest ih =>
    obtain ⟨hiff, hs'⟩ := TablePass.informed_run hw hv hnow table hs
    rcases lines_cons w m table rest s with ⟨o, hrun, hlines⟩ | ⟨hrun, hlines⟩
    · exact .inr ⟨table, List.mem_cons_self, o, (hiff o).1 hrun, hlines⟩
    · rcases ih hs' with ⟨ls, hls, hmap, hno⟩ | ⟨other, hother, o, hover, hls⟩
      · refine .inl ⟨⟨table, (TablePass.run w m table s).1⟩ :: ls, by rw [hlines, hls]; rfl, by simp [hmap], ?_⟩
        intro table' htable' o
        rcases List.mem_cons.1 htable' with rfl | hmem
        · exact mt (hiff o).2 (hrun o)
        · exact hno table' hmem o
      · exact .inr ⟨other, List.mem_cons_of_mem _ hother, o, hover, by rw [hlines, hls]; rfl⟩

theorem run_of_tables {s s' : σ} {tables : List String} (h : w.tables s = (.ok tables, s')) (startedAt : Instant) :
    (run w m startedAt s).1 = (lines w m tables s').1.map (⟨startedAt, m.now, ·⟩) := by
  rw [run, h]
  dsimp only
  split
  all_goals
    next hlines =>
      rw [hlines]
      rfl

theorem report_or_overflow (hw : w.Tells facts P) (hv : m.thresholds.validate = .ok ()) (hnow : 0 ≤ m.now)
    {s s' : σ} {tables : List String} (h : w.tables s = (.ok tables, s')) (hs : P s') (startedAt : Instant) :
    (∃ report, (run w m startedAt s).1 = .ok report ∧ report.tables.map (·.table) = tables ∧
        ∀ table ∈ tables, ∀ o, ¬ (facts table).Overflows m o) ∨
      ∃ table ∈ tables, ∃ o, (facts table).Overflows m o ∧ (run w m startedAt s).1 = .error (.overflow o) := by
  rw [run_of_tables h]
  rcases lines_or_overflow hw hv hnow tables hs with ⟨ls, hls, hmap, hno⟩ | ⟨table, hmem, o, hover, hls⟩
  · exact .inl ⟨⟨startedAt, m.now, ls⟩, by rw [hls]; rfl, hmap, hno⟩
  · exact .inr ⟨table, hmem, o, hover, by rw [hls]; rfl⟩

/-- With valid thresholds, a clock that is not negative and a registry that answers, a scan reports a
line for each table just if none of them overflows. If it does not, an overflow is why. -/
theorem reports_iff (hw : w.Tells facts P) (hv : m.thresholds.validate = .ok ()) (hnow : 0 ≤ m.now)
    {s s' : σ} {tables : List String} (h : w.tables s = (.ok tables, s')) (hs : P s') (startedAt : Instant) :
    ((∃ report, (run w m startedAt s).1 = .ok report ∧ report.tables.map (·.table) = tables) ↔
        ∀ table ∈ tables, ∀ o, ¬ (facts table).Overflows m o) ∧
      ∀ e, (run w m startedAt s).1 = .error e →
        ∃ table ∈ tables, ∃ o, (facts table).Overflows m o ∧ e = .overflow o := by
  rcases report_or_overflow hw hv hnow h hs startedAt with
    ⟨report, hreport, hmap, hno⟩ | ⟨table, hmem, o, hover, herror⟩
  · exact ⟨iff_of_true ⟨report, hreport, hmap⟩ hno, fun e he => by cases hreport.symm.trans he⟩
  · refine ⟨iff_of_false ?_ fun hno => hno table hmem o hover, fun e he => ?_⟩
    · rintro ⟨report, hreport, -⟩
      cases herror.symm.trans hreport
    · cases herror.symm.trans he
      exact ⟨table, hmem, o, hover, rfl⟩

/-- One table's request was made at the first second there is: there is no report, for the other
table either. -/
theorem first_second_aborts :
    ¬ ∀ (s : Stage Recorder) (m : Moment) (tables : List String) (startedAt : Instant),
      m.thresholds.validate = .ok () → 0 ≤ m.now → s.registryAnswer = .ok tables →
        ∃ report, (run Stage.world m startedAt s).1 = .ok report ∧ report.tables.map (·.table) = tables := by
  intro hall
  let m : Moment := ⟨.standard, 1700000000⟩
  let s : Stage Recorder := (Stage.empty ⟨⟨0, ⟨0, 0⟩⟩, .empty⟩)
    |>.setTable "0xa" ⟨100, 105, 1699999300⟩ [] |>.setTable "0xb" ⟨0, 1, -9223372036854775808⟩ []
  have hover : (s.facts "0xb").Overflows m .subtract :=
    .age (show (s.facts "0xb").Counts ⟨0, 1, -9223372036854775808⟩ from ⟨rfl, rfl, rfl⟩) (by decide) (by decide)
  obtain ⟨report, hreport, -⟩ := hall s m ["0xa", "0xb"] ⟨0, 0⟩ rfl (by decide) rfl
  rcases report_or_overflow s.tells (m := m) (s := s) rfl (by decide) rfl rfl ⟨0, 0⟩ with
    ⟨-, -, -, hno⟩ | ⟨_, _, _, _, herror⟩
  · exact hno "0xb" (by decide) .subtract hover
  · cases herror.symm.trans hreport

/-- A request as old as a word can say is reported, and so is a table past whose hands there is no
number, as long as nobody leaves it. -/
theorem reports_iff_extremes :
    let m : Moment := ⟨.standard, 1700000000⟩
    let s : Stage Recorder := (Stage.empty ⟨⟨0, ⟨0, 0⟩⟩, .empty⟩)
      |>.setTable "0xa" ⟨0, 1, -9223372035154775807⟩ []
      |>.setTable "0xb" ⟨18446744073709551615, 0, 0⟩ [⟨"0xaa", 500, 0⟩]
      |>.putHand (.start "0xb" 7 .river 1700000000)
    ∃ report, (run Stage.world m ⟨0, 0⟩ s).1 = .ok report ∧ report.tables.map (·.table) = ["0xa", "0xb"] := by
  intro m s
  have ha : (s.facts "0xa").Counts ⟨0, 1, -9223372035154775807⟩ := ⟨rfl, rfl, rfl⟩
  have hb : (s.facts "0xb").Counts ⟨18446744073709551615, 0, 0⟩ := ⟨rfl, rfl, rfl⟩
  refine (reports_iff s.tells (m := m) (s := s) rfl (by decide) rfl rfl ⟨0, 0⟩).1.2 fun table htable o ho => ?_
  rcases List.mem_cons.1 htable with rfl | htable
  · cases ho with
    | age counts pending old =>
      cases ha.unique counts
      exact absurd old (by decide)
    | number counts settled =>
      cases ha.unique counts
      exact absurd settled (by decide)
  · cases List.mem_singleton.1 htable
    cases ho with
    | age counts pending =>
      cases hb.unique counts
      exact absurd pending (by decide)
    | number counts settled dealt seated recent leaves =>
      cases seated
      exact absurd leaves (by decide)

end Scan

end TableEscrow
