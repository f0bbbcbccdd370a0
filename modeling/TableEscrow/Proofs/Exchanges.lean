import TableEscrow.Proofs.Interleaving
/-!
# All that a scan asks

`World.observed` is a world that keeps every request with its answer. Whatever it keeps, a scan goes
in it as it goes without (`Scan.observed_of_turns`), and what every pass keeps of its own requests, all
passes of a scan keep, however their turns fall (`Scan.passwise`). One pass after the other is one way
the turns can fall (`Scan.yields_of_run`).
-/

namespace TableEscrow

open Relation

/-- A request that was made for a table, and its answer. -/
structure Exchange where
  table : String
  request : Request
  reply : request.Reply

/-- An event that was offered, and what became of it. -/
@[reducible]
def Attempt : Type := ControlEvent × Except PublishError Unit

namespace Exchange

def attempt? : Exchange → Option Attempt
  | ⟨_, .publish e, reply⟩ => some (e, reply)
  | _ => none

/-- Why a read failed. -/
def failure? : Exchange → Option ReadError
  | ⟨_, .lastHandNetted, .error e⟩ | ⟨_, .requestedHand, .error e⟩ | ⟨_, .requestTime, .error e⟩
  | ⟨_, .lastHand, .error e⟩ | ⟨_, .lineup, .error e⟩ => some e
  | _ => none

/-- What was asked for one table. -/
def about (table : String) (log : List Exchange) : List Exchange := log.filter (·.table = table)

def attempts (log : List Exchange) : List Attempt := log.filterMap attempt?

/-- The reads were answered from these facts. -/
def Fits (f : Facts) (log : List Exchange) : Prop := ∀ x ∈ log, ∃ judge, x.reply = f.reply judge x.request

variable {log : List Exchange} {x : Exchange} {f : Facts}

theorem about_concat_self {table : String} (h : x.table = table) (log : List Exchange) :
    about table (log ++ [x]) = about table log ++ [x] := by
  simp [about, h]

theorem about_concat_other {table : String} (h : x.table ≠ table) (log : List Exchange) :
    about table (log ++ [x]) = about table log := by
  simp [about, h]

theorem attempts_concat (log : List Exchange) (x : Exchange) : attempts (log ++ [x]) = attempts log ++ x.attempt?.toList := by
  rw [attempts, List.filterMap_append, List.filterMap_cons]
  cases x.attempt? <;> rfl

end Exchange

namespace Attempt

/-- The events that were accepted. -/
def accepted (attempts : List Attempt) : List ControlEvent :=
  attempts.filterMap fun a =>
    match a.2 with
    | .ok _ => some a.1
    | .error _ => none

theorem accepted_append (first second : List Attempt) : accepted (first ++ second) = accepted first ++ accepted second :=
  List.filterMap_append

theorem accepted_map_ok (events : List ControlEvent) : accepted (events.map (·, .ok ())) = events := by
  induction events with
  | nil => rfl
  | cons e rest ih => exact congrArg (e :: ·) ih

/-- A refusal adds nothing to what was accepted before. -/
theorem accepted_refused (events : List ControlEvent) (last : ControlEvent) (refusal : PublishError) :
    accepted (events.map (·, .ok ()) ++ [(last, .error refusal)]) = events := by
  rw [accepted_append, accepted_map_ok]
  exact List.append_nil events

theorem accepted_attempt? (x : Exchange) : accepted x.attempt?.toList = x.request.accepted x.reply := by
  obtain ⟨table, request, reply⟩ := x
  cases request with
  | publish e => cases reply <;> rfl
  | lastHandNetted | requestedHand | requestTime | lastHand | lineup => rfl

end Attempt

/-- The same world, keeping all that it is asked. -/
def World.observed {σ : Type} (w : World σ) : World (σ × List Exchange) where
  tables s := ((w.tables s.1).1, (w.tables s.1).2, s.2)
  reply table r s := ((w.reply table r s.1).1, (w.reply table r s.1).2, s.2 ++ [⟨table, r, (w.reply table r s.1).1⟩])

namespace Scan

variable {σ : Type} {w : World σ} {m : Moment} {o : Order} {tables : List String} {s : σ}

/-! ## Whatever is kept of a scan -/

/-- A scan goes on in a world that keeps what it is asked as it does in the world itself. -/
theorem observed_of_turns {u : Underway σ} (h : ReflTransGen (Turn w m o) (.start tables s) u) :
    ∃ log, ReflTransGen (Turn w.observed m o) (.start tables (s, [])) ⟨u.passes, (u.world, log), u.accepted⟩ := by
  induction h with
  | refl => exact ⟨[], .refl⟩
  | tail _ hturn ih =>
    obtain ⟨log, hlog⟩ := ih
    cases hturn with
    | @answer before after table t r s accepted going hnext =>
      have hturn : Turn w.observed m o ⟨before ++ (table, t) :: after, (s, log), accepted⟩
          ⟨before ++ (table, t.answer m table r (w.reply table r s).1) :: after,
            ((w.reply table r s).2, log ++ [⟨table, r, (w.reply table r s).1⟩]),
            accepted ++ r.accepted (w.reply table r s).1⟩ := .answer going hnext
      exact ⟨_, hlog.tail hturn⟩

/-- What every answer keeps of a pass and what was asked for its table, every pass of a scan keeps. -/
theorem passwise {Q : String → List Exchange → TablePass → Prop} (hstart : ∀ table, Q table [] .start)
    (hstep : ∀ {table log t r} (reply : r.Reply), Q table log t → r ∈ t.requests →
      Q table (log ++ [⟨table, r, reply⟩]) (t.answer m table r reply))
    (hd : tables.Nodup) {u : Underway (σ × List Exchange)}
    (h : ReflTransGen (Turn w.observed m o) (.start tables (s, [])) u) :
    u.passes.map (·.1) = tables ∧ ∀ p ∈ u.passes, Q p.1 (Exchange.about p.1 u.world.2) p.2 := by
  induction h with
  | refl =>
    refine ⟨by simp [Underway.start, Function.comp_def], fun p hp => ?_⟩
    obtain ⟨table, -, rfl⟩ := List.mem_map.1 hp
    exact hstart table
  | tail _ hturn ih =>
    obtain ⟨htables, hall⟩ := ih
    cases hturn with
    | @answer before after table t r s accepted going hnext =>
      have hothers : ∀ p ∈ before ++ after, p.1 ≠ table := table_ne_of_nodup (htables ▸ hd)
      refine ⟨by rw [← htables]; simp, fun p hp => ?_⟩
      rcases mem_middle.1 hp with rfl | hp
      · have hlog : Exchange.about table (s.2 ++ [⟨table, r, (w.reply table r s.1).1⟩]) =
            Exchange.about table s.2 ++ [⟨table, r, (w.reply table r s.1).1⟩] := Exchange.about_concat_self (by rfl) s.2
        have hown := hstep (w.reply table r s.1).1 (hall (table, t) (mem_middle.2 (.inl rfl))) (o.waits hnext)
        exact hlog ▸ hown
      · have hlog : Exchange.about p.1 (s.2 ++ [⟨table, r, (w.reply table r s.1).1⟩]) = Exchange.about p.1 s.2 :=
          Exchange.about_concat_other (hothers p hp).symm s.2
        have hother := hall p (mem_middle.2 (.inr hp))
        exact hlog ▸ hother

/-- What was accepted is what the log has as accepted, and nothing was asked for other tables. -/
theorem kept_of_turns {u : Underway (σ × List Exchange)}
    (h : ReflTransGen (Turn w.observed m o) (.start tables (s, [])) u) :
    u.passes.map (·.1) = tables ∧ u.accepted = Attempt.accepted (Exchange.attempts u.world.2) ∧
      ∀ x ∈ u.world.2, x.table ∈ tables := by
  induction h with
  | refl => exact ⟨by simp [Underway.start, Function.comp_def], rfl, fun x hx => absurd hx List.not_mem_nil⟩
  | tail _ hturn ih =>
    obtain ⟨htables, haccepted, hwithin⟩ := ih
    cases hturn with
    | @answer before after table t r s accepted going hnext =>
      simp only at htables haccepted hwithin
      refine ⟨by rw [← htables]; simp, ?_, fun x hx => ?_⟩
      · simp only [World.observed]
        rw [Exchange.attempts_concat, Attempt.accepted_append, Attempt.accepted_attempt?, ← haccepted]
      · rcases List.mem_append.1 hx with hx | hx
        · exact hwithin x hx
        · rw [List.mem_singleton.1 hx, ← htables]
          simp

/-! ## What a scan comes to -/

/-- However the turns fall, a scan comes to something. -/
theorem exists_result (w : World σ) (m : Moment) (o : Order) (startedAt : Instant) (s : σ) :
    ∃ result events, Yields w m o startedAt s result events := by
  cases h : (w.tables s).1 with
  | error e => exact ⟨_, _, .unregistered h⟩
  | ok tables =>
    obtain ⟨u, hturns, hlast⟩ := (turns_end w m o).has_min
      {u | ReflTransGen (Turn w m o) (.start tables (w.tables s).2) u} ⟨_, .refl⟩
    by_cases hover : ∃ v, u.Overflowed v
    · obtain ⟨v, hv⟩ := hover
      exact ⟨_, _, .overflow h hturns hv⟩
    · have hno : ∀ v, ¬ u.Overflowed v := not_exists.1 hover
      obtain ⟨lines, hlines⟩ := lines_of_no_turn hno fun u' hu' => hlast u' (hturns.tail hu') hu'
      exact ⟨_, _, .report h hturns hno hlines⟩

/-! ## One pass after the other -/

/-- No pass among these ended in an overflow. -/
def Sound (passes : List (String × TablePass)) : Prop := ∀ p ∈ passes, ∀ v, p.2 ≠ .ended (.error (.overflow v))

theorem sound_nil : Sound [] := fun _ hp => absurd hp List.not_mem_nil

theorem turns_of_drive {before after : List (String × TablePass)} (hbefore : Sound before) (hafter : Sound after)
    (table : String) (t : TablePass) (s : σ) (accepted : List ControlEvent) :
    ∃ accepted', ReflTransGen (Turn w m .asked) ⟨before ++ (table, t) :: after, s, accepted⟩
      ⟨before ++ (table, .ended (TablePass.drive w m table t s).1) :: after, (TablePass.drive w m table t s).2,
        accepted'⟩ := by
  induction t, s using TablePass.drive.induct w m table generalizing accepted with
  | case1 t s result hnext =>
    cases TablePass.ended_of_next hnext
    rw [TablePass.drive_ended]
    exact ⟨accepted, .refl⟩
  | case2 t s r hnext reply s' hreply ih =>
    have going : ∀ v, ¬ Underway.Overflowed ⟨before ++ (table, t) :: after, s, accepted⟩ v := by
      rintro v ⟨p, hp, hv⟩
      rcases mem_middle.1 hp with rfl | hp
      · rw [show t = .ended (.error (.overflow v)) from hv] at hnext
        cases hnext
      · rcases List.mem_append.1 hp with hp | hp
        · exact hbefore p hp v hv
        · exact hafter p hp v hv
    obtain ⟨accepted', hturns⟩ := ih (accepted ++ r.accepted reply)
    have hturn : Turn w m .asked ⟨before ++ (table, t) :: after, s, accepted⟩ _ := .answer going hnext
    rw [hreply] at hturn
    rw [TablePass.drive_next w m table hnext, hreply]
    exact ⟨accepted', hturns.head hturn⟩

theorem turns_of_lines {before : List (String × TablePass)} (hbefore : Sound before) (tables : List String) {s : σ}
    (accepted : List ControlEvent) {ls : List TableLine} (h : (lines w m tables s).1 = .ok ls) :
    ∃ s' accepted', ReflTransGen (Turn w m .asked) ⟨before ++ tables.map (·, .start), s, accepted⟩
        ⟨before ++ ls.map fun l => (l.table, .ended l.result), s', accepted'⟩ ∧
      ls.map (·.table) = tables ∧ Sound (before ++ ls.map fun l => (l.table, .ended l.result)) := by
  induction tables generalizing before s accepted ls with
  | nil =>
    cases h
    exact ⟨s, accepted, .refl, rfl, by simpa using hbefore⟩
  | cons table rest ih =>
    have hrest : Sound (rest.map ((·, TablePass.start) : String → String × TablePass)) := by
      intro p hp v hv
      obtain ⟨_, -, rfl⟩ := List.mem_map.1 hp
      cases hv
    rcases lines_cons w m table rest s with ⟨v, -, hlines⟩ | ⟨hno, hlines⟩
    · cases hlines.symm.trans h
    · rw [hlines] at h
      cases htail : (lines w m rest (TablePass.run w m table s).2).1 with
      | error e =>
        rw [htail] at h
        cases h
      | ok tail =>
        rw [htail] at h
        cases h
        obtain ⟨accepted₁, hfirst⟩ := turns_of_drive (w := w) (m := m) hbefore hrest table .start s accepted
        have hbefore' : Sound (before ++ [(table, .ended (TablePass.run w m table s).1)]) := by
          intro p hp v hv
          rcases List.mem_append.1 hp with hp | hp
          · exact hbefore p hp v hv
          · cases List.mem_singleton.1 hp
            exact hno v (TablePass.ended.inj hv)
        obtain ⟨s', accepted₂, hturns, htables, hsound⟩ := ih hbefore' accepted₁ htail
        simp only [List.append_assoc, List.singleton_append] at hturns hsound
        exact ⟨s', accepted₂, hfirst.trans hturns, congrArg (table :: ·) htables, hsound⟩

/-- The scan that takes one table after the other is a scan whose turns fall so. -/
theorem yields_of_run {startedAt : Instant} {report : ScanReport} (h : (run w m startedAt s).1 = .ok report) :
    ∃ events, Yields w m .asked startedAt s (.ok report) events := by
  cases htables : (w.tables s).1 with
  | error e =>
    have hrun : run w m startedAt s = (.error (.read e), (w.tables s).2) := by
      rw [run, show w.tables s = (.error e, (w.tables s).2) from Prod.ext htables rfl]
    rw [hrun] at h
    cases h
  | ok tables =>
    rw [run_of_tables (Prod.ext htables rfl)] at h
    cases hlines : (lines w m tables (w.tables s).2).1 with
    | error e =>
      rw [hlines] at h
      cases h
    | ok ls =>
      rw [hlines] at h
      cases h
      obtain ⟨s', accepted, hturns, -, hsound⟩ := turns_of_lines sound_nil tables [] hlines
      refine ⟨accepted, .report htables hturns (fun v hv => ?_) rfl⟩
      obtain ⟨p, hp, hv⟩ := hv
      exact hsound p hp v hv

end Scan

end TableEscrow
