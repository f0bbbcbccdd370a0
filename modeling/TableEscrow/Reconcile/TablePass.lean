import TableEscrow.Reconcile.Decision
import TableEscrow.Reconcile.Request
/-!
# The pass over one table

A pass first reads the three counters. An outstanding request is judged by its age alone. Without
one, the last hand and the contract's seats are read and the seats are judged. Then the events
decided on are published one by one, and the first refusal ends the pass.

A pass is a value that waits for answers: `requests` are the answers it can take now, in any order,
and `answer` takes one. `run` answers
the first of them until none is left.
-/

namespace TableEscrow

/-- What a pass found. -/
inductive TableOutcome where
  | pending (decision : PendingDecision)
  /-- No hand was ever dealt. -/
  | noHand
  | settled (hand : UInt64) (decision : SettledDecision)
  deriving DecidableEq

namespace TableOutcome

def name : TableOutcome → String
  | .pending d =>
    match d.verdict with
    | .tooEarly => "dispute_too_early"
    | .handleDispute => "dispute_open"
    | .progressNetting => "progress_netting"
    | .lapsed => "netting_window_lapsed"
  | .noHand => "no_hand"
  | .settled _ _ => "settled"

def isLapsed : TableOutcome → Bool
  | .pending d => d.verdict == .lapsed
  | _ => false

def encode (o : TableOutcome) : Json :=
  .object <| ("outcome", .string o.name) ::
    match o with
    | .pending d => [("age_secs", .integer d.age)]
    | .noHand => []
    | .settled hand d =>
      [("hand_id", .natural hand), ("kicked", .array (d.kick.map .natural)),
        ("timeout", .bool d.timeout), ("netting_request", Json.orNull .natural d.nettingRequest)]

end TableOutcome

/-- A pass that came to its end: what it found and the events that were accepted. -/
structure Reconciliation where
  table : String
  outcome : TableOutcome
  published : List ControlEvent
  deriving DecidableEq

namespace Reconciliation

def encode (r : Reconciliation) : Json :=
  .object [("table_addr", .string r.table), ("outcome", r.outcome.encode),
    ("published", .array (r.published.map ControlEvent.encode))]

end Reconciliation

/-- Why a pass stopped short. -/
inductive PassError where
  | read (e : ReadError)
  | publish (e : PublishError)
  | overflow (o : Overflow)
  deriving DecidableEq

namespace PassError

def message : PassError → String
  | .read e => e.message
  | .publish e => e.message
  | .overflow o => o.message

end PassError

inductive TablePass where
  /-- Waits for the counters that are not there yet. -/
  | counting (netted requested : Option UInt64) (time : Option Int64)
      (waits : netted = none ∨ requested = none ∨ time = none)
  /-- Waits for the last hand, the contract's seats, or both. -/
  | gathering (status : NettingStatus) (hand : Option (Option Hand)) (lineup : Option ChainLineup)
      (waits : hand = none ∨ lineup = none)
  /-- Publishes an event, and then what is left of the events decided on. -/
  | publishing (outcome : TableOutcome) (accepted : List ControlEvent) (next : ControlEvent)
      (left : List ControlEvent)
  | ended (result : Except PassError Reconciliation)

/-- What every pass of one scan is held against. -/
structure Moment where
  thresholds : Thresholds
  now : Int64

namespace TablePass

def start : TablePass := .counting none none none (.inl rfl)

def failed (e : ReadError) : TablePass := .ended (.error (.read e))

def publish (table : String) (outcome : TableOutcome) (accepted : List ControlEvent) :
    List ControlEvent → TablePass
  | [] => .ended (.ok ⟨table, outcome, accepted⟩)
  | e :: left => .publishing outcome accepted e left

/-- Judges a table with an outstanding request. -/
def judgePending (m : Moment) (table : String) (status : NettingStatus) : TablePass :=
  match PendingDecision.ofStatus status m.now m.thresholds with
  | .ok d => publish table (.pending d) [] (d.verdict.event? table status).toList
  | .error o => .ended (.error (.overflow o))

/-- Judges the seats of a table that is settled. -/
def judgeSettled (m : Moment) (table : String) (status : NettingStatus) (hand : Hand)
    (lineup : ChainLineup) : TablePass :=
  match SettledDecision.ofTable status hand lineup m.now m.thresholds with
  | .ok d => publish table (.settled hand.id d) [] (d.events table)
  | .error o => .ended (.error (.overflow o))

/-- Goes on once all three counters are there. -/
def counted (m : Moment) (table : String) (netted requested : Option UInt64) (time : Option Int64) :
    TablePass :=
  match netted, requested, time with
  | some netted, some requested, some time =>
    let status : NettingStatus := ⟨netted, requested, time⟩
    if status.isPending then judgePending m table status else .gathering status none none (.inl rfl)
  | none, requested, time => .counting none requested time (.inl rfl)
  | some netted, none, time => .counting (some netted) none time (.inr (.inl rfl))
  | some netted, some requested, none =>
    .counting (some netted) (some requested) none (.inr (.inr rfl))

/-- Goes on once the hand and the seats are there. -/
def gathered (m : Moment) (table : String) (status : NettingStatus) (hand : Option (Option Hand))
    (lineup : Option ChainLineup) : TablePass :=
  match hand, lineup with
  | some none, some _ => .ended (.ok ⟨table, .noHand, []⟩)
  | some (some hand), some lineup => judgeSettled m table status hand lineup
  | none, lineup => .gathering status none lineup (.inl rfl)
  | some hand, none => .gathering status (some hand) none (.inr rfl)

/-- The requests that wait for an answer. -/
def requests : TablePass → List Request
  | .counting netted requested time _ =>
    (if netted.isNone then [.lastHandNetted] else []) ++
      (if requested.isNone then [.requestedHand] else []) ++
      (if time.isNone then [.requestTime] else [])
  | .gathering _ hand lineup _ =>
    (if hand.isNone then [.lastHand] else []) ++ (if lineup.isNone then [.lineup] else [])
  | .publishing _ _ next _ => [.publish next]
  | .ended _ => []

/-- Takes the answer to a request; an answer nobody waits for changes nothing. -/
def answer (m : Moment) (table : String) (t : TablePass) (r : Request) (reply : r.Reply) : TablePass :=
  match t, r, reply with
  | .counting none requested time _, .lastHandNetted, .ok n => counted m table (some n) requested time
  | .counting none _ _ _, .lastHandNetted, .error e => failed e
  | .counting netted none time _, .requestedHand, .ok n => counted m table netted (some n) time
  | .counting _ none _ _, .requestedHand, .error e => failed e
  | .counting netted requested none _, .requestTime, .ok n => counted m table netted requested (some n)
  | .counting _ _ none _, .requestTime, .error e => failed e
  | .gathering status none lineup _, .lastHand, .ok hand => gathered m table status (some hand) lineup
  | .gathering _ none _ _, .lastHand, .error e => failed e
  | .gathering status hand none _, .lineup, .ok lineup => gathered m table status hand (some lineup)
  | .gathering _ _ none _, .lineup, .error e => failed e
  | .publishing outcome accepted next left, .publish _, .ok _ =>
    publish table outcome (accepted ++ [next]) left
  | .publishing _ _ _ _, .publish _, .error refusal => .ended (.error (.publish refusal))
  | t, _, _ => t

/-! ## What an answer makes of a pass -/

/-- A read that fails ends the pass. -/
def afterRead {α : Type} (goOn : α → TablePass) : Except ReadError α → TablePass
  | .ok a => goOn a
  | .error e => failed e

/-- What the answer to a request that waits makes of a pass. -/
inductive Answered (m : Moment) (table : String) : TablePass → (r : Request) → r.Reply → TablePass → Prop
  | netted {requested time waits} (reply : Except ReadError UInt64) :
    Answered m table (.counting none requested time waits) .lastHandNetted reply
      (afterRead (fun n => counted m table (some n) requested time) reply)
  | requested {netted time waits} (reply : Except ReadError UInt64) :
    Answered m table (.counting netted none time waits) .requestedHand reply
      (afterRead (fun n => counted m table netted (some n) time) reply)
  | time {netted requested waits} (reply : Except ReadError Int64) :
    Answered m table (.counting netted requested none waits) .requestTime reply
      (afterRead (fun n => counted m table netted requested (some n)) reply)
  | hand {status lineup waits} (reply : Except ReadError (Option Hand)) :
    Answered m table (.gathering status none lineup waits) .lastHand reply
      (afterRead (fun hand => gathered m table status (some hand) lineup) reply)
  | lineup {status hand waits} (reply : Except ReadError ChainLineup) :
    Answered m table (.gathering status hand none waits) .lineup reply
      (afterRead (fun lineup => gathered m table status hand (some lineup)) reply)
  | accepted {outcome accepted next left} :
    Answered m table (.publishing outcome accepted next left) (.publish next) (.ok ())
      (publish table outcome (accepted ++ [next]) left)
  | refused {outcome accepted next left} (refusal : PublishError) :
    Answered m table (.publishing outcome accepted next left) (.publish next) (.error refusal)
      (.ended (.error (.publish refusal)))

/-- The one thing to know of `answer`: every later fact about it goes by these cases. -/
theorem answered (m : Moment) (table : String) {t : TablePass} {r : Request} (reply : r.Reply)
    (h : r ∈ t.requests) : Answered m table t r reply (t.answer m table r reply) := by
  cases t with
  | counting netted requested time waits =>
    have hr : (netted = none ∧ r = .lastHandNetted) ∨ (requested = none ∧ r = .requestedHand) ∨
        (time = none ∧ r = .requestTime) := by
      cases netted <;> cases requested <;> cases time <;> simp_all [requests]
    rcases hr with ⟨rfl, rfl⟩ | ⟨rfl, rfl⟩ | ⟨rfl, rfl⟩
    · cases reply <;> exact .netted _
    · cases netted <;> cases reply <;> exact .requested _
    · cases netted <;> cases requested <;> cases reply <;> exact .time _
  | gathering status hand lineup waits =>
    have hr : (hand = none ∧ r = .lastHand) ∨ (lineup = none ∧ r = .lineup) := by
      cases hand <;> cases lineup <;> simp_all [requests]
    rcases hr with ⟨rfl, rfl⟩ | ⟨rfl, rfl⟩
    · cases reply <;> exact .hand _
    · cases hand <;> cases reply <;> exact .lineup _
  | publishing outcome accepted next left =>
    cases List.mem_singleton.1 h
    cases reply with
    | ok u => exact .accepted
    | error refusal => exact .refused refusal
  | ended result => cases h

/-! ## Passes end -/

/-- The reads a pass can still make, and the events it has yet to publish. -/
def size : TablePass → Nat × Nat
  | .counting netted requested time _ =>
    (2 + (if netted.isNone then 1 else 0) + (if requested.isNone then 1 else 0) +
      (if time.isNone then 1 else 0), 0)
  | .gathering _ hand lineup _ =>
    ((if hand.isNone then 1 else 0) + (if lineup.isNone then 1 else 0), 0)
  | .publishing _ _ _ left => (0, left.length + 1)
  | .ended _ => (0, 0)

theorem size_publish_fst (table : String) (outcome : TableOutcome) (accepted left : List ControlEvent) :
    (publish table outcome accepted left).size.1 = 0 := by
  cases left <;> rfl

theorem size_publish_snd (table : String) (outcome : TableOutcome) (accepted left : List ControlEvent) :
    (publish table outcome accepted left).size.2 = left.length := by
  cases left <;> rfl

theorem size_judgePending (m : Moment) (table : String) (status : NettingStatus) :
    (judgePending m table status).size.1 = 0 := by
  unfold judgePending
  split
  · exact size_publish_fst ..
  · rfl

theorem size_judgeSettled (m : Moment) (table : String) (status : NettingStatus) (hand : Hand)
    (lineup : ChainLineup) : (judgeSettled m table status hand lineup).size.1 = 0 := by
  unfold judgeSettled
  split
  · exact size_publish_fst ..
  · rfl

theorem size_counted_le (m : Moment) (table : String) (netted requested : Option UInt64)
    (time : Option Int64) :
    (counted m table netted requested time).size.1 ≤
      2 + (if netted.isNone then 1 else 0) + (if requested.isNone then 1 else 0) +
        (if time.isNone then 1 else 0) := by
  unfold counted
  split
  · next netted requested time =>
    by_cases hp : (NettingStatus.mk netted requested time).isPending = true
    · simp [hp, size_judgePending]
    · simp [hp, size]
  all_goals simp [size]

theorem size_gathered_le (m : Moment) (table : String) (status : NettingStatus)
    (hand : Option (Option Hand)) (lineup : Option ChainLineup) :
    (gathered m table status hand lineup).size.1 ≤
      (if hand.isNone then 1 else 0) + (if lineup.isNone then 1 else 0) := by
  unfold gathered
  split
  · simp [size]
  · rw [size_judgeSettled]; omega
  all_goals simp [size]

theorem size_afterRead_lt {α : Type} {goOn : α → TablePass} {n : Nat} (h : ∀ a, (goOn a).size.1 < n)
    (hn : 0 < n) (reply : Except ReadError α) : (afterRead goOn reply).size.1 < n := by
  cases reply with
  | ok a => exact h a
  | error e => exact hn

/-- Every answer brings a pass nearer to its end. -/
theorem size_answer_lt (m : Moment) (table : String) {t : TablePass} {r : Request} (reply : r.Reply)
    (h : r ∈ t.requests) : Prod.Lex (· < ·) (· < ·) (t.answer m table r reply).size t.size := by
  have fewer {a b : Nat × Nat} (h : a.1 < b.1) : Prod.Lex (· < ·) (· < ·) a b :=
    Prod.Lex.left _ _ h
  generalize ht : t.answer m table r reply = t'
  have ha := answered m table reply h
  rw [ht] at ha
  cases ha with
  | netted reply | requested reply | time reply =>
    refine fewer (size_afterRead_lt (fun n => Nat.lt_of_le_of_lt (size_counted_le ..) ?_) ?_ reply) <;>
      simp +arith [size]
  | hand reply | lineup reply =>
    refine fewer (size_afterRead_lt (fun n => Nat.lt_of_le_of_lt (size_gathered_le ..) ?_) ?_ reply) <;>
      simp +arith [size]
  | @accepted outcome accepted next left =>
    have hsize : (publish table outcome (accepted ++ [next]) left).size = (0, left.length) :=
      Prod.ext (size_publish_fst ..) (size_publish_snd ..)
    rw [hsize]
    exact Prod.Lex.right _ (Nat.lt_succ_self _)
  | refused refusal => exact Prod.Lex.right _ (Nat.succ_pos _)

/-! ## Running a pass to its end -/

/-- The first of the requests, or the result once there is none. -/
def next : TablePass → Except PassError Reconciliation ⊕ Request
  | .counting none _ _ _ => .inr .lastHandNetted
  | .counting (some _) none _ _ => .inr .requestedHand
  | .counting (some _) (some _) none _ => .inr .requestTime
  | .counting (some _) (some _) (some _) waits => absurd waits (by simp)
  | .gathering _ none _ _ => .inr .lastHand
  | .gathering _ (some _) none _ => .inr .lineup
  | .gathering _ (some _) (some _) waits => absurd waits (by simp)
  | .publishing _ _ next _ => .inr (.publish next)
  | .ended result => .inl result

theorem requests_of_next {t : TablePass} {r : Request} (h : t.next = .inr r) :
    t.requests.head? = some r := by
  cases t with
  | counting netted requested time waits =>
    cases netted <;> cases requested <;> cases time <;> first | (cases h; rfl) | simp at waits
  | gathering status hand lineup waits =>
    cases hand <;> cases lineup <;> first | (cases h; rfl) | simp at waits
  | publishing outcome accepted next left => cases h; rfl
  | ended result => cases h

theorem ended_of_next {t : TablePass} {result : Except PassError Reconciliation} (h : t.next = .inl result) :
    t = .ended result := by
  cases t with
  | counting netted requested time waits =>
    cases netted <;> cases requested <;> cases time <;> first | cases h | simp at waits
  | gathering status hand lineup waits =>
    cases hand <;> cases lineup <;> first | cases h | simp at waits
  | publishing outcome accepted next left => cases h
  | ended result => cases h; rfl

/-- Answers the first request until there is none. -/
def drive {σ : Type} (w : World σ) (m : Moment) (table : String) (t : TablePass) (s : σ) :
    Except PassError Reconciliation × σ :=
  match _h : t.next with
  | .inl result => (result, s)
  | .inr r =>
    let (reply, s) := w.reply table r s
    drive w m table (answer m table t r reply) s
termination_by t.size
decreasing_by exact size_answer_lt m table reply (List.mem_of_head? (requests_of_next _h))

theorem drive_ended {σ : Type} (w : World σ) (m : Moment) (table : String)
    (result : Except PassError Reconciliation) (s : σ) : drive w m table (.ended result) s = (result, s) := by
  rw [drive]
  rfl

theorem drive_next {σ : Type} (w : World σ) (m : Moment) (table : String) {t : TablePass} {r : Request}
    (h : t.next = .inr r) (s : σ) :
    drive w m table t s = drive w m table (t.answer m table r (w.reply table r s).1) (w.reply table r s).2 := by
  rw [drive]
  split
  · next result hr => rw [hr] at h; cases h
  · next r' hr =>
    rw [hr] at h
    cases h
    rfl

def run {σ : Type} (w : World σ) (m : Moment) (table : String) (s : σ) :
    Except PassError Reconciliation × σ :=
  drive w m table start s

end TablePass

end TableEscrow
