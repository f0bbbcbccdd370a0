import TableEscrow.Proofs.Branches
import TableEscrow.Proofs.Exchanges
import TableEscrow.Proofs.SettledTables
/-!
# Accounts of what is published

The world may answer a read in any way, and a publisher may refuse any event at any time. `Followed` says
what a pass then keeps of the requests made for its table: they were answered from some facts, each read once,
and what was accepted is the beginning of what these facts call for. `Scan.accounts` is what the lines of
a report have to say about it.
-/

namespace TableEscrow

open Relation Exchange

/-! ## What a pass is told -/

namespace Facts

/-- The facts with the answer to a read among them. -/
def learn (f : Facts) : (r : Request) → r.Reply → Facts
  | .lastHandNetted, reply => { f with netted := reply }
  | .requestedHand, reply => { f with requested := reply }
  | .requestTime, reply => { f with requestTime := reply }
  | .lastHand, reply => { f with hand := reply }
  | .lineup, reply => { f with lineup := reply }
  | .publish _, _ => f

theorem exists_reply_learn (f : Facts) (r : Request) (reply : r.Reply) :
    ∃ judge, reply = (f.learn r reply).reply judge r := by
  cases r with
  | publish e => exact ⟨fun _ _ _ => reply, rfl⟩
  | lastHandNetted | requestedHand | requestTime | lastHand | lineup => exact ⟨fun _ _ _ => .ok (), rfl⟩

theorem reply_learn_other (f : Facts) {r q : Request} (h : q ≠ r) (reply : r.Reply) (judge : Judge) :
    (f.learn r reply).reply judge q = f.reply judge q := by
  cases r <;> cases q <;> first | rfl | exact absurd rfl h

theorem reply_read (f : Facts) {r : Request} (h : r.event? = none) (judge judge' : Judge) :
    f.reply judge r = f.reply judge' r := by
  cases r with
  | publish e => cases h
  | lastHandNetted | requestedHand | requestTime | lastHand | lineup => rfl

end Facts

namespace TablePass

/-- The reads a pass has yet to make. -/
def Unread : TablePass → Request → Prop
  | .counting netted requested time _, r =>
    (r = .lastHandNetted ∧ netted = none) ∨ (r = .requestedHand ∧ requested = none) ∨
      (r = .requestTime ∧ time = none) ∨ r = .lastHand ∨ r = .lineup
  | .gathering _ hand lineup _, r => (r = .lastHand ∧ hand = none) ∨ (r = .lineup ∧ lineup = none)
  | .publishing .., _ | .ended _, _ => False

variable {m : Moment} {table : String} {t : TablePass} {r q : Request}

theorem not_unread_publish {outcome : TableOutcome} {accepted left : List ControlEvent} :
    ¬ (publish table outcome accepted left).Unread q := by
  cases left <;> exact id

theorem unread_gathered {status : NettingStatus} {hand : Option (Option Hand)} {lineup : Option ChainLineup}
    (h : (gathered m table status hand lineup).Unread q) :
    (q = .lastHand ∧ hand = none) ∨ (q = .lineup ∧ lineup = none) := by
  unfold gathered at h
  split at h
  · exact absurd h id
  · unfold judgeSettled at h
    split at h
    · exact absurd h not_unread_publish
    · exact absurd h id
  all_goals exact h

theorem unread_counted {netted requested : Option UInt64} {time : Option Int64}
    (h : (counted m table netted requested time).Unread q) :
    (q = .lastHandNetted ∧ netted = none) ∨ (q = .requestedHand ∧ requested = none) ∨
      (q = .requestTime ∧ time = none) ∨ q = .lastHand ∨ q = .lineup := by
  unfold counted at h
  split at h
  · next netted requested time =>
    by_cases hp : (NettingStatus.mk netted requested time).isPending = true
    · rw [if_pos hp] at h
      unfold judgePending at h
      split at h
      · exact absurd h not_unread_publish
      · exact absurd h id
    · rw [if_neg hp] at h
      rcases h with ⟨h, -⟩ | ⟨h, -⟩ <;> simp [h]
  all_goals exact h

theorem unread_afterRead {α : Type} {goOn : α → TablePass} {reply : Except ReadError α}
    (h : (afterRead goOn reply).Unread q) : ∃ a, (goOn a).Unread q := by
  cases reply with
  | ok a => exact ⟨a, h⟩
  | error e => exact absurd h id

/-- What a pass has yet to read after an answer it had yet to read before, and it was not what was answered. -/
theorem unread_answer (hr : r ∈ t.requests) (reply : r.Reply) (h : (t.answer m table r reply).Unread q) :
    t.Unread q ∧ q ≠ r := by
  have ha := answered m table reply hr
  generalize t.answer m table r reply = t' at ha h
  cases ha with
  | netted | requested | time =>
    obtain ⟨a, ha⟩ := unread_afterRead h
    rcases unread_counted ha with ⟨rfl, hq⟩ | ⟨rfl, hq⟩ | ⟨rfl, hq⟩ | rfl | rfl <;> simp_all [Unread]
  | hand | lineup =>
    obtain ⟨a, ha⟩ := unread_afterRead h
    rcases unread_gathered ha with ⟨rfl, hq⟩ | ⟨rfl, hq⟩ <;> simp_all [Unread]
  | accepted => exact absurd h not_unread_publish
  | refused => exact absurd h id

theorem unread_of_answered {t' : TablePass} {reply : r.Reply} (ha : Answered m table t r reply t')
    (hread : r.event? = none) : t.Unread r := by
  cases ha with
  | netted | requested | time | hand | lineup => simp [Unread]
  | accepted | refused => cases hread

/-! ## What a pass keeps -/

/-- Accepts every event; a read is answered whatever becomes of events. -/
def accepting : Judge := fun _ _ _ => .ok ()

/-- What a pass has offered is the beginning of what the facts call for. All of it was accepted, but
for the one event whose refusal ended the pass. -/
def Accounted (m : Moment) (table : String) (f : Facts) (attempts : List Attempt) : TablePass → Prop
  | .counting netted requested time waits =>
    Faithful m accepting table f [] (.counting netted requested time waits) ∧ attempts = []
  | .gathering status hand lineup waits =>
    Faithful m accepting table f [] (.gathering status hand lineup waits) ∧ attempts = []
  | .publishing outcome accepted next left =>
    f.Decides m table outcome (accepted ++ next :: left) ∧ attempts = accepted.map (·, .ok ())
  | .ended (.ok r) =>
    r.table = table ∧ f.Decides m table r.outcome r.published ∧ attempts = r.published.map (·, .ok ())
  | .ended (.error (.publish refusal)) =>
    ∃ outcome accepted next left, f.Decides m table outcome (accepted ++ next :: left) ∧
      attempts = accepted.map (·, .ok ()) ++ [(next, .error refusal)]
  | .ended (.error (.read _)) | .ended (.error (.overflow _)) =>
    (∀ outcome events, ¬ f.Decides m table outcome events) ∧ attempts = []

variable {f : Facts} {attempts : List Attempt}

/-- A pass that has only read keeps what `Faithful` says of it. -/
theorem accounted_of_faithful {judge : Judge} {log : List Request} (h : t.Faithful m judge table f log)
    (ho : Request.offered log = []) : t.Accounted m table f [] := by
  match t, h with
  | .counting .., ⟨htold, _⟩ => exact ⟨⟨htold, rfl⟩, rfl⟩
  | .gathering .., ⟨htold, _⟩ => exact ⟨⟨htold, rfl⟩, rfl⟩
  | .publishing outcome accepted next left, ⟨hd, haccepted, _⟩ =>
    obtain rfl : accepted = [] := haccepted.symm.trans ho
    exact ⟨hd, rfl⟩
  | .ended (.ok r), ⟨htable, hd, hpublished, _⟩ =>
    have hnone : r.published = [] := hpublished.symm.trans ho
    exact ⟨htable, hd, by rw [hnone]; rfl⟩
  | .ended (.error (.publish refusal)), ⟨_, accepted, next, _, _, hoffered, _⟩ =>
    exact absurd (hoffered.symm.trans ho) (by simp)
  | .ended (.error (.read _)), ⟨_, hno⟩ => exact ⟨hno, rfl⟩
  | .ended (.error (.overflow _)), ⟨_, hno⟩ => exact ⟨hno, rfl⟩

theorem accounted_publish {outcome : TableOutcome} {accepted left : List ControlEvent}
    (hd : f.Decides m table outcome (accepted ++ left)) :
    (publish table outcome accepted left).Accounted m table f (accepted.map (·, .ok ())) := by
  cases left with
  | nil =>
    rw [List.append_nil] at hd
    exact ⟨rfl, hd, rfl⟩
  | cons next left => exact ⟨hd, rfl⟩

theorem accounted_answer (h : t.Accounted m table f attempts) (hr : r ∈ t.requests) {reply : r.Reply}
    (hreply : ∃ judge, reply = f.reply judge r) :
    (t.answer m table r reply).Accounted m table f (attempts ++ (Exchange.attempt? ⟨table, r, reply⟩).toList) := by
  -- A read is answered as in a world that accepts every event, where `traced_answer` has it.
  have hread (hfaithful : t.Faithful m accepting table f []) (hnone : r.event? = none) :
      (t.answer m table r reply).Accounted m table f [] := by
    obtain ⟨judge, rfl⟩ := hreply
    rw [f.reply_read hnone judge accepting]
    have htraced : Traced m accepting table f [] t := ⟨by simp, hfaithful⟩
    exact accounted_of_faithful (traced_answer htraced hr).faithful (Request.offered_read rfl hnone)
  have ha := answered m table reply hr
  generalize ht : t.answer m table r reply = t' at ha ⊢
  rw [ht] at hread
  cases ha with
  | netted | requested | time | hand | lineup =>
    obtain ⟨hfaithful, rfl⟩ := h
    exact hread hfaithful rfl
  | @accepted outcome accepted next left =>
    obtain ⟨hd, rfl⟩ := h
    have hmore : f.Decides m table outcome ((accepted ++ [next]) ++ left) := by rwa [List.append_assoc]
    have hpublish := accounted_publish hmore
    rwa [List.map_append] at hpublish
  | @refused outcome accepted next left refusal =>
    obtain ⟨hd, rfl⟩ := h
    exact ⟨outcome, accepted, next, left, hd, rfl⟩

/-- What a pass has had accepted is the beginning of what its facts call for, and all of it if it came to its end. -/
theorem accepted_of_accounted {f : Facts} {attempts : List Attempt} (h : t.Accounted m table f attempts) :
    (Attempt.accepted attempts = [] ∧ ∀ r, t ≠ .ended (.ok r)) ∨
      ∃ outcome events, f.Decides m table outcome events ∧ Attempt.accepted attempts <+: events ∧
        ∀ r, t = .ended (.ok r) → r.outcome = outcome ∧ r.published = events ∧ Attempt.accepted attempts = events := by
  match t, h with
  | .counting .., ⟨_, hnone⟩ | .gathering .., ⟨_, hnone⟩ | .ended (.error (.read _)), ⟨_, hnone⟩
  | .ended (.error (.overflow _)), ⟨_, hnone⟩ =>
    rw [hnone]
    exact .inl ⟨rfl, nofun⟩
  | .publishing outcome accepted next left, ⟨hd, hattempts⟩ =>
    rw [hattempts, Attempt.accepted_map_ok]
    exact .inr ⟨outcome, _, hd, List.prefix_append accepted _, nofun⟩
  | .ended (.error (.publish _)), ⟨outcome, accepted, next, left, hd, hattempts⟩ =>
    rw [hattempts, Attempt.accepted_refused]
    exact .inr ⟨outcome, _, hd, List.prefix_append accepted _, nofun⟩
  | .ended (.ok r), ⟨_, hd, hattempts⟩ =>
    rw [hattempts, Attempt.accepted_map_ok]
    refine .inr ⟨r.outcome, r.published, hd, List.prefix_rfl, ?_⟩
    rintro _ ⟨⟩
    exact ⟨rfl, rfl, rfl⟩

/-- A read that fails ends a pass at once. -/
theorem ended_of_failure (hr : r ∈ t.requests) {reply : r.Reply} {e : ReadError}
    (h : Exchange.failure? ⟨table, r, reply⟩ = some e) : t.answer m table r reply = .ended (.error (.read e)) := by
  have ha := answered m table reply hr
  generalize t.answer m table r reply = t' at ha
  cases ha with
  | netted reply | requested reply | time reply | hand reply | lineup reply =>
    cases reply with
    | ok a => cases h
    | error e' =>
      cases h
      rfl
  | accepted | refused => cases h

/-- What a pass keeps of the requests made for its table: one set of facts has all that it was told, nothing was
read twice, and a read that failed was the last. -/
structure Followed (m : Moment) (table : String) (log : List Exchange) (t : TablePass) : Prop where
  told : ∃ f, Fits f log
  once : ∀ x ∈ log, ¬ t.Unread x.request
  stopped : ∀ x ∈ log, ∀ e, x.failure? = some e → t = .ended (.error (.read e))
  accounted : ∀ f, Fits f log → t.Accounted m table f (Exchange.attempts log)

theorem followed_start : Followed m table [] start where
  told := ⟨⟨.ok 0, .ok 0, .ok 0, .ok none, .ok ⟨0, []⟩⟩, by simp [Fits]⟩
  once := by simp
  stopped := by simp
  accounted f _ := ⟨by simp [Faithful, Request.offered], rfl⟩

theorem followed_answer {log : List Exchange} (h : Followed m table log t) (hr : r ∈ t.requests) (reply : r.Reply) :
    Followed m table (log ++ [⟨table, r, reply⟩]) (t.answer m table r reply) where
  told := by
    obtain ⟨f, hf⟩ := h.told
    refine ⟨f.learn r reply, fun x hx => ?_⟩
    rcases List.mem_append.1 hx with hx | hx
    · obtain ⟨judge, hjudge⟩ := hf x hx
      refine ⟨judge, ?_⟩
      by_cases hread : r.event? = none
      · -- The pass had yet to read it, so no earlier answer is of this read.
        have hne : x.request ≠ r := fun he => h.once x hx (he ▸ unread_of_answered (answered m table reply hr) hread)
        rw [hjudge, f.reply_learn_other hne]
      · cases r with
        | publish e => exact hjudge
        | lastHandNetted | requestedHand | requestTime | lastHand | lineup => exact absurd rfl hread
    · cases List.mem_singleton.1 hx
      exact f.exists_reply_learn r reply
  once := by
    intro x hx hunread
    obtain ⟨hold, hne⟩ := unread_answer hr reply hunread
    rcases List.mem_append.1 hx with hx | hx
    · exact h.once x hx hold
    · cases List.mem_singleton.1 hx
      exact hne rfl
  stopped := by
    intro x hx e he
    rcases List.mem_append.1 hx with hx | hx
    · rw [h.stopped x hx e he] at hr
      cases hr
    · cases List.mem_singleton.1 hx
      exact ended_of_failure hr he
  accounted := by
    intro f hf
    rw [Exchange.attempts_concat]
    refine accounted_answer (h.accounted f fun x hx => hf x (List.mem_append_left _ hx)) hr ?_
    exact hf ⟨table, r, reply⟩ (List.mem_append_right _ List.mem_cons_self)

end TablePass

/-! ## The order of what is called for -/

/-- The one event that an outstanding request calls for; or kicks by ascending position, then a timeout, then a
request. -/
def InOrder (table : String) (events : List ControlEvent) : Prop :=
  (∃ netted requested, events = [.handleDispute table netted requested]) ∨ events = [.progressNetting table] ∨
    ∃ (positions : List Nat) (timeout : Bool) (request : Option UInt64), positions.Pairwise (· < ·) ∧
      events = positions.map (fun p => .kick table (.ofNat p)) ++ (if timeout then [.timeout table] else []) ++
        (request.map (.tableNettingRequest table)).toList

theorem Facts.Decides.inOrder {m : Moment} {table : String} {f : Facts} {outcome : TableOutcome}
    {events : List ControlEvent} (h : f.Decides m table outcome events) : InOrder table events := by
  have hnone : InOrder table [] := .inr (.inr ⟨[], false, none, .nil, rfl⟩)
  cases h with
  | @pending status d =>
    cases d.verdict with
    | tooEarly | lapsed => exact hnone
    | handleDispute => exact .inl ⟨_, _, rfl⟩
    | progressNetting => exact .inr (.inl rfl)
  | noHand => exact hnone
  | @settled status hand lineup d counts settled dealt seated decision =>
    obtain ⟨positions, hascending, hkick, -⟩ := (SettledDecision.exact_of_ofTable decision).kick
    refine .inr (.inr ⟨positions, d.timeout, d.nettingRequest, hascending, ?_⟩)
    rw [SettledDecision.events, hkick, List.map_map]
    rfl

/-! ## Lines -/

namespace TableLine

/-- What a line has to say of the requests made for its table. -/
structure Accounted (m : Moment) (log : List Exchange) (line : TableLine) : Prop where
  told : ∃ f, Fits f log
  /-- What is accepted is the beginning of what was decided on, and all of it just if there is an outcome. -/
  decided : ∀ {f outcome events}, Fits f log → f.Decides m line.table outcome events →
    InOrder line.table events ∧ Attempt.accepted (attempts log) <+: events ∧
      (Attempt.accepted (attempts log) = events ↔ ∃ r, line.result = .ok r)
  /-- A line with an outcome lists what was accepted. -/
  outcome : ∀ {r}, line.result = .ok r → line.published = Attempt.accepted (attempts log) ∧
    ∀ {f}, Fits f log → f.Decides m line.table r.outcome line.published
  /-- The first refusal is the last that was attempted, and all that the line has to say. -/
  refused : ∀ {e refusal}, (e, .error refusal) ∈ attempts log →
    line.result = .error (.publish refusal) ∧
    Pointer.child? line.encode "error" = some (.string refusal.message) ∧ line.published = [] ∧
    attempts log = (Attempt.accepted (attempts log)).map (·, .ok ()) ++ [(e, .error refusal)] ∧
    ∀ {f}, Fits f log → ∃ outcome events, f.Decides m line.table outcome events ∧
      Attempt.accepted (attempts log) ++ [e] <+: events
  /-- Nothing is attempted where a read failed. -/
  failed : ∀ {x e}, x ∈ log → x.failure? = some e → line.result = .error (.read e)
  unread : ∀ {e}, line.result = .error (.read e) → line.published = [] ∧ attempts log = []

variable {m : Moment} {log : List Exchange} {table : String}

theorem accounted_of_outcome {r : Reconciliation} (h : TablePass.Followed m table log (.ended (.ok r))) :
    Accounted m log ⟨table, .ok r⟩ := by
  obtain ⟨f₀, hf₀⟩ := h.told
  obtain ⟨-, -, hattempts⟩ := h.accounted f₀ hf₀
  have haccepted : Attempt.accepted (attempts log) = r.published := by rw [hattempts, Attempt.accepted_map_ok]
  refine ⟨h.told, fun {f outcome events} hf hd => ?_, ?_, fun {e refusal} he => ?_, fun {x e} hx he => ?_, nofun⟩
  · obtain ⟨-, hdecides, -⟩ := h.accounted f hf
    obtain ⟨-, rfl⟩ := hd.unique hdecides
    rw [haccepted]
    exact ⟨hd.inOrder, List.prefix_rfl, iff_of_true rfl ⟨r, rfl⟩⟩
  · rintro _ ⟨⟩
    exact ⟨haccepted.symm, fun {f} hf => (h.accounted f hf).2.1⟩
  · rw [hattempts] at he
    obtain ⟨_, -, he⟩ := List.mem_map.1 he
    cases he
  · cases h.stopped x hx e he

theorem accounted_of_refusal {refusal : PublishError}
    (h : TablePass.Followed m table log (.ended (.error (.publish refusal)))) :
    Accounted m log ⟨table, .error (.publish refusal)⟩ := by
  obtain ⟨f₀, hf₀⟩ := h.told
  obtain ⟨-, accepted, next, -, -, hattempts⟩ := h.accounted f₀ hf₀
  have haccepted : Attempt.accepted (attempts log) = accepted := by rw [hattempts, Attempt.accepted_refused]
  -- Whichever facts fit, the pass had got as far, and was refused the same event.
  have hdecides {f : Facts} (hf : Fits f log) :
      ∃ outcome left, f.Decides m table outcome (accepted ++ next :: left) := by
    obtain ⟨outcome, accepted', next', left, hd, hattempts'⟩ := h.accounted f hf
    have hsame := hattempts.symm.trans hattempts'
    obtain rfl : accepted = accepted' := by
      rw [← Attempt.accepted_refused accepted next, hsame, Attempt.accepted_refused]
    cases List.append_cancel_left hsame
    exact ⟨outcome, left, hd⟩
  refine ⟨h.told, fun {f outcome events} hf hd => ?_, nofun, fun {e refusal'} he => ?_, fun {x e} hx he => ?_, nofun⟩
  · obtain ⟨outcome', left, hd'⟩ := hdecides hf
    obtain ⟨-, rfl⟩ := hd.unique hd'
    rw [haccepted]
    refine ⟨hd.inOrder, List.prefix_append _ _, iff_of_false (fun hall => ?_) nofun⟩
    have hlength := congrArg List.length hall
    simp at hlength
  · rw [hattempts] at he
    rcases List.mem_append.1 he with he | he
    · obtain ⟨_, -, he⟩ := List.mem_map.1 he
      cases he
    · cases List.mem_singleton.1 he
      rw [haccepted]
      refine ⟨rfl, rfl, rfl, hattempts, fun hf => ?_⟩
      obtain ⟨outcome, left, hd⟩ := hdecides hf
      exact ⟨outcome, _, hd, by simp⟩
  · cases h.stopped x hx e he

theorem accounted_of_failure {e : ReadError} (h : TablePass.Followed m table log (.ended (.error (.read e)))) :
    Accounted m log ⟨table, .error (.read e)⟩ := by
  obtain ⟨f₀, hf₀⟩ := h.told
  obtain ⟨-, hattempts⟩ := h.accounted f₀ hf₀
  refine ⟨h.told, fun {f outcome events} hf hd => ?_, nofun, fun {e refusal} he => ?_, fun {x e'} hx he => ?_, ?_⟩
  · exact absurd hd ((h.accounted f hf).1 outcome events)
  · rw [hattempts] at he
    exact absurd he List.not_mem_nil
  · exact TablePass.ended.inj (h.stopped x hx e' he)
  · rintro _ ⟨⟩
    exact ⟨rfl, hattempts⟩

theorem accounted_of_followed {line : TableLine} (h : TablePass.Followed m line.table log (.ended line.result))
    (hno : ∀ v, line.result ≠ .error (.overflow v)) : line.Accounted m log := by
  obtain ⟨table, result⟩ := line
  match result, h, hno with
  | .ok r, h, _ => exact accounted_of_outcome h
  | .error (.publish refusal), h, _ => exact accounted_of_refusal h
  | .error (.read e), h, _ => exact accounted_of_failure h
  | .error (.overflow v), _, hno => exact absurd rfl (hno v)

/-- Its pass was refused an event. -/
def isRefused (l : TableLine) : Bool :=
  match l.result with
  | .error (.publish _) => true
  | _ => false

/-- What is accepted is listed, or it came before a refusal. -/
theorem Accounted.length_accepted {line : TableLine} (h : line.Accounted m log)
    (hno : ∀ v, line.result ≠ .error (.overflow v)) :
    (Attempt.accepted (attempts log)).length =
      line.published.length + if line.isRefused then (Attempt.accepted (attempts log)).length else 0 := by
  obtain ⟨table, result⟩ := line
  match result, h, hno with
  | .ok r, h, _ =>
    rw [(h.outcome rfl).1]
    rfl
  | .error (.publish refusal), _, _ => exact (Nat.zero_add _).symm
  | .error (.read e), h, _ =>
    rw [(h.unread rfl).2]
    rfl
  | .error (.overflow v), _, hno => exact absurd rfl (hno v)

end TableLine

/-! ## Counting -/

namespace Exchange

def isAccepted (x : Exchange) : Bool := !(x.request.accepted x.reply).isEmpty

theorem length_accepted (log : List Exchange) : (Attempt.accepted (attempts log)).length = log.countP isAccepted := by
  induction log with
  | nil => rfl
  | cons x rest ih =>
    obtain ⟨table, request, reply⟩ := x
    cases request with
    | publish e =>
      cases reply with
      | ok _ => exact (congrArg (· + 1) ih).trans (List.countP_cons_of_pos rfl).symm
      | error _ => exact ih
    | lastHandNetted | requestedHand | requestTime | lastHand | lineup => exact ih

/-- Every request was made for one of the tables. -/
theorem sum_countP_about (p : Exchange → Bool) {tables : List String} (hd : tables.Nodup) {log : List Exchange}
    (h : ∀ x ∈ log, x.table ∈ tables) : (tables.map fun table => (about table log).countP p).sum = log.countP p := by
  induction tables generalizing log with
  | nil =>
    have hnone : log = [] := List.eq_nil_iff_forall_not_mem.2 fun x hx => absurd (h x hx) List.not_mem_nil
    rw [hnone]
    rfl
  | cons table rest ih =>
    obtain ⟨hout, hrest⟩ := List.nodup_cons.1 hd
    have hothers : ∀ x ∈ log.filter fun x => !decide (x.table = table), x.table ∈ rest := by
      intro x hx
      obtain ⟨hx, hne⟩ := List.mem_filter.1 hx
      exact (List.mem_cons.1 (h x hx)).resolve_left (by simpa using hne)
    have habout : ∀ other ∈ rest, about other (log.filter fun x => !decide (x.table = table)) = about other log := by
      intro other hother
      have hne : other ≠ table := fun he => hout (he ▸ hother)
      rw [about, about, List.filter_filter]
      refine List.filter_congr fun x _ => ?_
      by_cases hx : x.table = other <;> simp [hx, hne]
    rw [List.map_cons, List.sum_cons, List.countP_eq_countP_filter_add log p fun x => x.table = table]
    rw [← ih hrest hothers]
    refine congrArg (_ + List.sum ·) (List.map_congr_left fun other hother => ?_)
    rw [habout other hother]

end Exchange

namespace Scan

variable {σ : Type} {m : Moment} {o : Order}

theorem sum_lines (count : TableLine → Nat) {lines : List TableLine}
    (h : ∀ l ∈ lines, count l = l.published.length + if l.isRefused then count l else 0) :
    (lines.map count).sum = (lines.flatMap (·.published)).length + ((lines.filter TableLine.isRefused).map count).sum := by
  induction lines with
  | nil => rfl
  | cons l rest ih =>
    have hl := h l List.mem_cons_self
    have hrest := ih fun l' hl' => h l' (List.mem_cons_of_mem _ hl')
    rw [List.map_cons, List.sum_cons, List.flatMap_cons, List.length_append, hrest]
    cases hrefused : l.isRefused with
    | true =>
      rw [hrefused, if_pos rfl] at hl
      rw [List.filter_cons_of_pos hrefused, List.map_cons, List.sum_cons]
      omega
    | false =>
      rw [hrefused, if_neg Bool.false_ne_true] at hl
      rw [List.filter_cons_of_neg (by simp [hrefused])]
      omega

/-- What is accepted is counted by the report, but for what came before a refusal. -/
theorem length_accepted {log : List Exchange} {lines : List TableLine} (hd : (lines.map (·.table)).Nodup)
    (hwithin : ∀ x ∈ log, x.table ∈ lines.map (·.table))
    (hlines : ∀ line ∈ lines, line.Accounted m (about line.table log) ∧ ∀ v, line.result ≠ .error (.overflow v)) :
    (Attempt.accepted (attempts log)).length = (lines.flatMap (·.published)).length +
      ((lines.filter TableLine.isRefused).map fun l => (Attempt.accepted (attempts (about l.table log))).length).sum := by
  rw [← sum_lines (fun l => (Attempt.accepted (attempts (about l.table log))).length) fun l hl =>
    (hlines l hl).1.length_accepted (hlines l hl).2]
  rw [Exchange.length_accepted, ← Exchange.sum_countP_about _ hd hwithin, List.map_map]
  exact congrArg List.sum (List.map_congr_left fun l _ => (Exchange.length_accepted _).symm)

/-- However the turns of a scan fall, whatever its reads are answered and whatever of its events is refused, its
report has a line for each table in the order of the registry, and each line says what became of the events
decided on. What was accepted is counted, but for what came before a refusal. The scan that takes one table after
the other is such a scan, and every scan comes to a report, to an overflow, or to a registry that fails. -/
theorem accounts (w : World σ) (m : Moment) (o : Order) (startedAt : Instant) (s : σ)
    (hd : ∀ tables, (w.tables s).1 = .ok tables → tables.Nodup) :
    (∃ result events, Yields w m o startedAt s result events) ∧
    (∀ report, (run w m startedAt s).1 = .ok report → ∃ events, Yields w m .asked startedAt s (.ok report) events) ∧
    ∀ report events, Yields w m o startedAt s (.ok report) events →
      ∃ tables s' log, (w.tables s).1 = .ok tables ∧ report.tables.map (·.table) = tables ∧
        ReflTransGen (Turn w.observed m o) (.start tables ((w.tables s).2, []))
          ⟨report.tables.map fun l => (l.table, .ended l.result), (s', log), events⟩ ∧
        events = Attempt.accepted (attempts log) ∧
        (∀ line ∈ report.tables, line.Accounted m (about line.table log)) ∧
        events.length = report.publishedCount + ((report.tables.filter TableLine.isRefused).map fun l =>
          (Attempt.accepted (attempts (about l.table log))).length).sum := by
  refine ⟨exists_result w m o startedAt s, fun report h => yields_of_run h, fun report events hy => ?_⟩
  cases hy with
  | @report tables u lines h hturns hno hlines =>
    obtain ⟨log, hobserved⟩ := observed_of_turns hturns
    rw [hlines] at hobserved
    obtain ⟨htables, haccepted, hwithin⟩ := kept_of_turns hobserved
    obtain ⟨-, hfollowed⟩ := passwise (m := m) (Q := TablePass.Followed m) (fun _ => TablePass.followed_start)
      (fun reply hq hr => TablePass.followed_answer hq hr reply) (hd tables h) hobserved
    simp only at htables haccepted hwithin hfollowed
    rw [List.map_map] at htables
    have hnames : lines.map (·.table) = tables := htables
    have hover : ∀ l ∈ lines, ∀ v, l.result ≠ .error (.overflow v) := by
      intro l hl v hv
      exact hno v ⟨(l.table, .ended l.result), hlines ▸ List.mem_map.2 ⟨l, hl, rfl⟩, congrArg TablePass.ended hv⟩
    have hall : ∀ l ∈ lines, l.Accounted m (about l.table log) := fun l hl =>
      TableLine.accounted_of_followed (hfollowed _ (List.mem_map.2 ⟨l, hl, rfl⟩)) (hover l hl)
    refine ⟨tables, u.world, log, h, hnames, hobserved, haccepted, hall, ?_⟩
    rw [haccepted]
    exact length_accepted (hnames ▸ hd tables h) (hnames ▸ hwithin) fun l hl => ⟨hall l hl, hover l hl⟩

/-- A kick is accepted and the timeout after it is refused, beside a dispute and a contract that reverts. -/
theorem accounts_three_tables :
    let m : Moment := ⟨.standard, 1700000000⟩
    let idle : Seat := { Seat.ofAddress "0xbb" 500 with sitout := some 1699990000 }
    let hand : Hand := { Hand.start "0xd" 8 .river 1699999999 with lineup := [.ofAddress "0xaa" 500, idle] }
    let s : Stage Recorder := (Stage.empty ⟨⟨0, ⟨0, 0⟩⟩, Recorder.empty.refuse .timeout⟩)
      |>.setTable "0xa" ⟨100, 105, 1699999700⟩ [] |>.setTable "0xb" ⟨0, 1, 0⟩ [] |>.failChain "0xb"
      |>.setTable "0xd" ⟨7, 7, 0⟩ [] |>.putHand hand
    (∀ tables, (Stage.world.tables s).1 = .ok tables → tables.Nodup) ∧
    (s.facts "0xd").Decides m "0xd" (.settled 8 ⟨[1], true, none⟩) [.kick "0xd" 1, .timeout "0xd"] ∧
    ∃ report events log, Yields Stage.world m .asked ⟨0, 0⟩ s (.ok report) events ∧
      report.tables.map (·.table) = ["0xa", "0xb", "0xd"] ∧ events = Attempt.accepted (attempts log) ∧
      ∀ line ∈ report.tables, line.Accounted m (about line.table log) := by
  intro m idle hand s
  have hnames : (Stage.world.tables s).1 = .ok ["0xa", "0xb", "0xd"] := rfl
  have hdistinct : ∀ tables, (Stage.world.tables s).1 = .ok tables → tables.Nodup := by
    rintro _ ⟨⟩
    decide
  have hbounded : ∀ table ∈ ["0xa", "0xb", "0xd"], ∀ v, ¬ (s.facts table).Overflows m v := by
    intro table htable
    refine Facts.Bounded.not_overflows ?_ m
    simp only [List.mem_cons, List.not_mem_nil, or_false] at htable
    rcases htable with rfl | rfl | rfl <;> constructor <;> rintro _ ⟨⟩ <;> decide
  have hcounts : (s.facts "0xd").Counts ⟨7, 7, 0⟩ := ⟨rfl, rfl, rfl⟩
  have hdue : SettledDecision.ofTable ⟨7, 7, 0⟩ hand ⟨7, []⟩ m.now m.thresholds = .ok ⟨[1], true, none⟩ := by decide
  refine ⟨hdistinct, .settled hcounts rfl rfl rfl hdue, ?_⟩
  let S := Stage.setting (Recorder.judged (some .timeout)) s rfl
  obtain ⟨result, events, hy⟩ := exists_yields S (m := m) (o := .asked) rfl (by decide) hnames hbounded ⟨0, 0⟩
  obtain ⟨report, rfl⟩ := report_of_yields S rfl (by decide) hnames hbounded hy
  obtain ⟨tables, -, log, htables, hreport, -, hevents, hlines, -⟩ :=
    (accounts Stage.world m .asked ⟨0, 0⟩ s hdistinct).2.2 report events hy
  cases hnames.symm.trans htables
  exact ⟨report, events, log, hy, hreport, hevents, hlines⟩

end Scan

end TableEscrow
