import Mathlib.Logic.Hydra
import Mathlib.Logic.Relation
import TableEscrow.Json.Pointer
import TableEscrow.Proofs.Overflow
/-!
# Passes that take turns

The passes of a scan go on side by side: each time one of them takes one answer. `Yields` says what
a scan may give when the turns fall in any way. In a steady world the turns do not matter
(`Consistent.turn`): every pass comes to what it comes to by itself, so a line and the events
accepted for its table depend on nothing that is said of another table (`Scan.isolates`).
-/

namespace TableEscrow

open Relation

/-- Which of its requests a pass has answered next; one that waits is always answered. No pass comes
to the same point twice, so the reads of each table may be answered in any order at all. -/
structure Order where
  next : String → TablePass → Except PassError Reconciliation ⊕ Request
  waits : ∀ {table t r}, next table t = .inr r → r ∈ t.requests
  ended : ∀ {table t result}, next table t = .inl result → t = .ended result

/-- The events an answer accepts. -/
def Request.accepted : (r : Request) → r.Reply → List ControlEvent
  | .publish e, .ok _ => [e]
  | _, _ => []

namespace Order

/-- The order in which a pass asks. -/
def asked : Order where
  next _ := TablePass.next
  waits h := List.mem_of_head? (TablePass.requests_of_next h)
  ended := TablePass.ended_of_next

theorem next_ended (o : Order) (table : String) (result : Except PassError Reconciliation) :
    o.next table (.ended result) = .inl result := by
  cases h : o.next table (.ended result) with
  | inl result' =>
    cases o.ended h
    rfl
  | inr r => exact absurd (o.waits h) List.not_mem_nil

/-- What a pass comes to by itself and the events accepted on the way, if reads answer the facts and
events fare as judged. -/
def settle (o : Order) (m : Moment) (judge : Judge) (table : String) (f : Facts) (t : TablePass) :
    Except PassError Reconciliation × List ControlEvent :=
  match _h : o.next table t with
  | .inl result => (result, [])
  | .inr r =>
    let (result, events) := settle o m judge table f (t.answer m table r (f.reply judge r))
    (result, r.accepted (f.reply judge r) ++ events)
termination_by t.size
decreasing_by exact TablePass.size_answer_lt m table _ (o.waits _h)

variable (o : Order) (m : Moment) (judge : Judge) (table : String) (f : Facts)

theorem settle_ended (result : Except PassError Reconciliation) :
    o.settle m judge table f (.ended result) = (result, []) := by
  rw [settle]
  split
  · next result' h =>
    rw [next_ended] at h
    cases h
    rfl
  · next r h =>
    rw [next_ended] at h
    cases h

theorem settle_next {t : TablePass} {r : Request} (h : o.next table t = .inr r) :
    o.settle m judge table f t =
      ((o.settle m judge table f (t.answer m table r (f.reply judge r))).1,
        r.accepted (f.reply judge r) ++ (o.settle m judge table f (t.answer m table r (f.reply judge r))).2) := by
  rw [settle]
  split
  · next result hr => rw [hr] at h; cases h
  · next r' hr =>
    rw [hr] at h
    cases h
    rfl

end Order

namespace TablePass

variable {σ : Type} {w : World σ} {facts : String → Facts} {judge : Judge} {P : σ → Prop}

/-- Run by itself in a steady world, a pass comes to what the facts of its table make of it. -/
theorem drive_eq (hw : w.Steady facts judge P) (m : Moment) (table : String) (t : TablePass) (s : σ) (hs : P s) :
    (drive w m table t s).1 = (Order.asked.settle m judge table (facts table) t).1 ∧ P (drive w m table t s).2 := by
  induction t, s using drive.induct w m table with
  | case1 t s result hnext =>
    cases ended_of_next hnext
    rw [drive_ended, Order.settle_ended]
    exact ⟨rfl, hs⟩
  | case2 t s r hnext reply s' hreply ih =>
    have hj := hw.answers hs table r
    have hs' := hw.stays hs table r
    rw [drive_next w m table hnext, Order.settle_next _ m judge table _ hnext]
    rw [hreply] at hj hs' ⊢
    rw [← show reply = (facts table).reply judge r from hj]
    exact ih hs'

theorem run_eq (hw : w.Steady facts judge P) (m : Moment) (table : String) {s : σ} (hs : P s) :
    (run w m table s).1 = (Order.asked.settle m judge table (facts table) start).1 ∧ P (run w m table s).2 :=
  drive_eq hw m table start s hs

end TablePass

namespace Scan

variable {σ : Type}

/-! ## Turns -/

/-- A scan on its way: the pass of each table, the world, and the events accepted so far. -/
structure Underway (σ : Type) where
  passes : List (String × TablePass)
  world : σ
  accepted : List ControlEvent

namespace Underway

def start (tables : List String) (s : σ) : Underway σ := ⟨tables.map (·, .start), s, []⟩

/-- A pass ended in an overflow, which ends the whole scan. -/
def Overflowed (u : Underway σ) (v : Overflow) : Prop := ∃ p ∈ u.passes, p.2 = .ended (.error (.overflow v))

end Underway

/-- It is some pass's turn, and it takes an answer. -/
inductive Turn (w : World σ) (m : Moment) (o : Order) : Underway σ → Underway σ → Prop
  | answer {before after : List (String × TablePass)} {table : String} {t : TablePass} {r : Request} {s : σ}
      {accepted : List ControlEvent}
      (going : ∀ v, ¬ Underway.Overflowed ⟨before ++ (table, t) :: after, s, accepted⟩ v)
      (h : o.next table t = .inr r) :
    Turn w m o ⟨before ++ (table, t) :: after, s, accepted⟩
      ⟨before ++ (table, t.answer m table r (w.reply table r s).1) :: after, (w.reply table r s).2,
        accepted ++ r.accepted (w.reply table r s).1⟩

/-- What a scan may give, and the events accepted until then. -/
inductive Yields (w : World σ) (m : Moment) (o : Order) (startedAt : Instant) (s : σ) :
    Except ScanError ScanReport → List ControlEvent → Prop
  | unregistered {e : ReadError} (h : (w.tables s).1 = .error e) : Yields w m o startedAt s (.error (.read e)) []
  | overflow {tables : List String} {u : Underway σ} {v : Overflow} (h : (w.tables s).1 = .ok tables)
      (turns : ReflTransGen (Turn w m o) (.start tables (w.tables s).2) u) (hv : u.Overflowed v) :
    Yields w m o startedAt s (.error (.overflow v)) u.accepted
  | report {tables : List String} {u : Underway σ} {lines : List TableLine} (h : (w.tables s).1 = .ok tables)
      (turns : ReflTransGen (Turn w m o) (.start tables (w.tables s).2) u) (hno : ∀ v, ¬ u.Overflowed v)
      (hlines : u.passes = lines.map fun l => (l.table, .ended l.result)) :
    Yields w m o startedAt s (.ok ⟨startedAt, m.now, lines⟩) u.accepted

/-- However the turns fall, they come to an end: the pass whose turn it is comes nearer to its own. -/
theorem turns_end (w : World σ) (m : Moment) (o : Order) : WellFounded fun u' u => Turn w m o u u' := by
  have hsizes : WellFounded (Prod.Lex (· < ·) (· < ·) : Nat × Nat → Nat × Nat → Prop) :=
    WellFounded.prod_lex wellFounded_lt wellFounded_lt
  refine Subrelation.wf (fun {u' u} h => ?_)
    (InvImage.wf (fun u : Underway σ => (u.passes.map (·.2.size) : Multiset (Nat × Nat))) hsizes.cutExpand)
  cases h with
  | @answer before after table t r s accepted _ h =>
    -- One size is taken out and a smaller one put in its place.
    refine ⟨{(t.answer m table r (w.reply table r s).1).size}, t.size, ?_, ?_⟩
    · intro size hsize
      rw [Multiset.mem_singleton.1 hsize]
      exact TablePass.size_answer_lt m table _ (o.waits h)
    · simp only [List.map_append, List.map_cons, ← Multiset.coe_add, ← Multiset.cons_coe, ← Multiset.singleton_add]
      ac_rfl

/-! ## No turn touches another table -/

/-- The world is as it was, every pass knows only what is so, and together with the events accepted
for its table so far it comes to what it comes to by itself. -/
structure Consistent (m : Moment) (o : Order) (judge : Judge) (facts : String → Facts) (P : σ → Prop)
    (tables : List String) (u : Underway σ) : Prop where
  world : P u.world
  tables : u.passes.map (·.1) = tables
  informed : ∀ p ∈ u.passes, p.2.Informed m p.1 (facts p.1)
  alone : ∀ p ∈ u.passes, o.settle m judge p.1 (facts p.1) .start =
    ((o.settle m judge p.1 (facts p.1) p.2).1,
      u.accepted.filter (·.table = p.1) ++ (o.settle m judge p.1 (facts p.1) p.2).2)

variable {w : World σ} {m : Moment} {o : Order} {judge : Judge} {facts : String → Facts} {P : σ → Prop}
  {tables : List String}

theorem Consistent.start {s : σ} (hs : P s) : Consistent m o judge facts P tables (.start tables s) where
  world := hs
  tables := by simp [Underway.start, Function.comp_def]
  informed p hp := by
    obtain ⟨table, -, rfl⟩ := List.mem_map.1 hp
    exact TablePass.informed_start
  alone p hp := by
    obtain ⟨table, -, rfl⟩ := List.mem_map.1 hp
    rfl

/-- A pass has only events about its own table accepted. -/
theorem table_of_accepted {table : String} {f : Facts} {t : TablePass} {r : Request} (hr : r ∈ t.requests)
    (h : t.Informed m table f) (reply : r.Reply) : ∀ e ∈ r.accepted reply, e.table = table := by
  have ha := TablePass.answered m table reply hr
  generalize t.answer m table r reply = t' at ha
  intro e he
  cases ha with
  | accepted =>
    cases List.mem_singleton.1 he
    exact h.1 _ List.mem_cons_self
  | netted | requested | time | hand | lineup | refused => cases he

theorem mem_middle {α : Type} {a b : α} {before after : List α} :
    a ∈ before ++ b :: after ↔ a = b ∨ a ∈ before ++ after := by
  simp [or_left_comm]

theorem table_ne_of_nodup {before after : List (String × TablePass)} {table : String} {t : TablePass}
    (h : ((before ++ (table, t) :: after).map (·.1)).Nodup) : ∀ p ∈ before ++ after, p.1 ≠ table := by
  rw [List.map_append, List.map_cons, List.nodup_middle, List.nodup_cons, ← List.map_append] at h
  intro p hp he
  exact h.1 (List.mem_map.2 ⟨p, hp, he⟩)

theorem Consistent.turn (hw : w.Steady facts judge P) (hv : m.thresholds.validate = .ok ()) (hnow : 0 ≤ m.now)
    (hd : tables.Nodup) {u u' : Underway σ} (h : Turn w m o u u') (hu : Consistent m o judge facts P tables u) :
    Consistent m o judge facts P tables u' := by
  cases h with
  | @answer before after table t r s accepted _ h =>
    have hinformed := hu.informed (table, t) (mem_middle.2 (.inl rfl))
    have hown := table_of_accepted (o.waits h) hinformed ((facts table).reply judge r)
    have hothers : ∀ p ∈ before ++ after, p.1 ≠ table := table_ne_of_nodup (hu.tables ▸ hd)
    rw [hw.answers hu.world table r]
    refine ⟨hw.stays hu.world table r, ?_, fun p hp => ?_, fun p hp => ?_⟩
    · rw [← hu.tables]
      simp
    · rcases mem_middle.1 hp with rfl | hp
      · exact TablePass.informed_answer hv hnow (o.waits h) hinformed judge
      · exact hu.informed p (mem_middle.2 (.inr hp))
    · rcases mem_middle.1 hp with rfl | hp
      · -- The events this turn has accepted are the first of those that were to come.
        have hfilter : (r.accepted ((facts table).reply judge r)).filter (·.table = table) =
            r.accepted ((facts table).reply judge r) := List.filter_eq_self.2 fun e he => by simpa using hown e he
        rw [hu.alone (table, t) (mem_middle.2 (.inl rfl)), o.settle_next m judge table _ h, List.filter_append,
          hfilter, List.append_assoc]
      · -- They are about the table whose turn it is, and this is another one.
        have hfilter : (r.accepted ((facts table).reply judge r)).filter (·.table = p.1) = [] :=
          List.filter_eq_nil_iff.2 fun e he => by simpa [hown e he] using (hothers p hp).symm
        rw [hu.alone p (mem_middle.2 (.inr hp)), List.filter_append, hfilter, List.append_nil]

theorem Consistent.turns (hw : w.Steady facts judge P) (hv : m.thresholds.validate = .ok ()) (hnow : 0 ≤ m.now)
    (hd : tables.Nodup) {s : σ} (hs : P s) {u : Underway σ}
    (h : ReflTransGen (Turn w m o) (.start tables s) u) : Consistent m o judge facts P tables u := by
  induction h with
  | refl => exact .start hs
  | tail _ hturn ih => exact ih.turn hw hv hnow hd hturn

/-! ## What a scan gives -/

/-- The line of a table by itself. -/
def lineAlone (m : Moment) (o : Order) (judge : Judge) (facts : String → Facts) (table : String) : TableLine :=
  ⟨table, (o.settle m judge table (facts table) .start).1⟩

theorem Consistent.not_overflowed {u : Underway σ} (hu : Consistent m o judge facts P tables u)
    (hno : ∀ table ∈ tables, ∀ v, ¬ (facts table).Overflows m v) (v : Overflow) : ¬ u.Overflowed v := by
  rintro ⟨p, hp, hv⟩
  have hmem : p.1 ∈ tables := hu.tables ▸ List.mem_map_of_mem hp
  have hinformed := hu.informed p hp
  rw [hv] at hinformed
  exact hno _ hmem v ((hinformed v).1 rfl)

theorem Consistent.ended {u : Underway σ} (hu : Consistent m o judge facts P tables u) {p : String × TablePass}
    (hp : p ∈ u.passes) {result : Except PassError Reconciliation} (he : p.2 = .ended result) :
    o.settle m judge p.1 (facts p.1) .start = (result, u.accepted.filter (·.table = p.1)) := by
  rw [hu.alone p hp, he, Order.settle_ended, List.append_nil]

/-- The lines and the events of a scan that is over are those of its tables by themselves. -/
theorem Consistent.over {u : Underway σ} (hu : Consistent m o judge facts P tables u) {lines : List TableLine}
    (hlines : u.passes = lines.map fun l => (l.table, .ended l.result)) :
    lines = tables.map (lineAlone m o judge facts) ∧
      ∀ table ∈ tables, u.accepted.filter (·.table = table) = (o.settle m judge table (facts table) .start).2 := by
  have htables : tables = lines.map (·.table) := by
    rw [← hu.tables, hlines, List.map_map]
    rfl
  have hended (l : TableLine) (hl : l ∈ lines) :
      o.settle m judge l.table (facts l.table) .start = (l.result, u.accepted.filter (·.table = l.table)) :=
    hu.ended (p := (l.table, .ended l.result)) (hlines ▸ List.mem_map.2 ⟨l, hl, rfl⟩) rfl
  constructor
  · rw [htables, List.map_map]
    refine (List.map_id lines).symm.trans (List.map_congr_left fun l hl => ?_)
    simp [lineAlone, hended l hl]
  · intro table htable
    rw [htables] at htable
    obtain ⟨l, hl, rfl⟩ := List.mem_map.1 htable
    rw [hended l hl]

/-- Where nobody can take a turn and nothing has overflowed, every pass has come to its end. -/
theorem lines_of_no_turn {u : Underway σ} (hno : ∀ v, ¬ u.Overflowed v) (h : ∀ u', ¬ Turn w m o u u') :
    ∃ lines : List TableLine, u.passes = lines.map fun l => (l.table, .ended l.result) := by
  obtain ⟨passes, s, accepted⟩ := u
  have hended : ∀ p ∈ passes, ∃ result, p.2 = .ended result := by
    intro p hp
    obtain ⟨before, after, rfl⟩ := List.append_of_mem hp
    cases hnext : o.next p.1 p.2 with
    | inl result => exact ⟨result, o.ended hnext⟩
    | inr r => exact absurd (.answer hno hnext) (h _)
  clear hno h
  induction passes with
  | nil => exact ⟨[], rfl⟩
  | cons p rest ih =>
    obtain ⟨result, hresult⟩ := hended p List.mem_cons_self
    obtain ⟨lines, hlines⟩ := ih fun q hq => hended q (List.mem_cons_of_mem _ hq)
    exact ⟨⟨p.1, result⟩ :: lines, by rw [List.map_cons, ← hlines, ← hresult]⟩

section

variable (S : Setting judge σ) (hv : m.thresholds.validate = .ok ()) (hnow : 0 ≤ m.now)
  (h : (S.world.tables S.state).1 = .ok tables)

include hv hnow h

theorem consistent_of_turns {u : Underway σ}
    (hturns : ReflTransGen (Turn S.world m o) (.start tables (S.world.tables S.state).2) u) :
    Consistent m o judge S.facts S.states tables u :=
  Consistent.turns S.steady hv hnow (S.distinct h) S.begun hturns

theorem exists_yields (hno : ∀ table ∈ tables, ∀ v, ¬ (S.facts table).Overflows m v) (startedAt : Instant) :
    ∃ result events, Yields S.world m o startedAt S.state result events := by
  obtain ⟨u, hturns, hlast⟩ := (turns_end S.world m o).has_min
    {u | ReflTransGen (Turn S.world m o) (.start tables (S.world.tables S.state).2) u} ⟨_, .refl⟩
  have hover := (consistent_of_turns S hv hnow h hturns).not_overflowed hno
  obtain ⟨lines, hlines⟩ := lines_of_no_turn hover fun u' hu' => hlast u' (hturns.tail hu') hu'
  exact ⟨_, _, .report h hturns hover hlines⟩

theorem report_of_yields (hno : ∀ table ∈ tables, ∀ v, ¬ (S.facts table).Overflows m v) {startedAt : Instant}
    {result : Except ScanError ScanReport} {events : List ControlEvent}
    (hy : Yields S.world m o startedAt S.state result events) : ∃ report, result = .ok report := by
  cases hy with
  | unregistered h' => cases h.symm.trans h'
  | overflow h' hturns hv' =>
    cases h.symm.trans h'
    exact absurd hv' ((consistent_of_turns S hv hnow h hturns).not_overflowed hno _)
  | report => exact ⟨_, rfl⟩

theorem report_eq {startedAt : Instant} {report : ScanReport} {events : List ControlEvent}
    (hy : Yields S.world m o startedAt S.state (.ok report) events) :
    report = ⟨startedAt, m.now, tables.map (lineAlone m o judge S.facts)⟩ ∧
      ∀ table ∈ tables, events.filter (·.table = table) = (o.settle m judge table (S.facts table) .start).2 := by
  cases hy with
  | report h' hturns _ hlines =>
    cases h.symm.trans h'
    obtain ⟨rfl, hevents⟩ := (consistent_of_turns S hv hnow h hturns).over hlines
    exact ⟨rfl, hevents⟩

end

/-- One pass after the other, the tables give the same lines. -/
theorem lines_eq (hw : w.Steady facts judge P) (hv : m.thresholds.validate = .ok ()) (hnow : 0 ≤ m.now)
    (hno : ∀ table ∈ tables, ∀ v, ¬ (facts table).Overflows m v) {s : σ} (hs : P s) :
    (lines w m tables s).1 = .ok (tables.map (lineAlone m .asked judge facts)) := by
  induction tables generalizing s with
  | nil => rfl
  | cons table rest ih =>
    obtain ⟨hrun, hs'⟩ := TablePass.run_eq hw m table hs
    rcases lines_cons w m table rest s with ⟨v, hover, -⟩ | ⟨-, hlines⟩
    · have hiff := (TablePass.informed_run hw.tells hv hnow table hs).1 v
      exact absurd (hiff.1 hover) (hno table List.mem_cons_self v)
    · rw [hlines, ih (fun other hother => hno other (List.mem_cons_of_mem _ hother)) hs', hrun]
      rfl

end Scan

/-! ## Isolation -/

/-- A line, and the events accepted along with it, that owe nothing to any other table. -/
structure Setting.Isolated {judge : Judge} {σ : Type} (S : Setting judge σ) (m : Moment) (o : Order)
    (events : List ControlEvent) (line : TableLine) : Prop where
  /-- There is an outcome or an error, and not both. -/
  oneOf : (Pointer.child? line.encode "outcome").isSome = !(Pointer.child? line.encode "error").isSome
  /-- It is the line of the pass over this table alone. -/
  alone : ∀ {s u result}, S.states s → ReflTransGen (Scan.Turn S.world m o) (.start [line.table] s) u →
    u.passes = [(line.table, .ended result)] → result = line.result
  /-- A pass whose requests are answered as it asks is what `TablePass.run` runs. -/
  run : o = .asked → ∀ {s}, S.states s → (TablePass.run S.world m line.table s).1 = line.result
  /-- Every scan that is told the same of this table has this line for it, whatever its other tables
  and its world, and has the same events accepted for it. -/
  undisturbed : ∀ {τ : Type} (S' : Setting judge τ), S'.facts line.table = S.facts line.table →
    ∀ {startedAt report' events'}, Scan.Yields S'.world m o startedAt S'.state (.ok report') events' →
      ∀ line' ∈ report'.tables, line'.table = line.table →
        line' = line ∧ events'.filter (·.table = line.table) = events.filter (·.table = line.table)

namespace Scan

theorem outcome_or_error (l : TableLine) :
    (Pointer.child? l.encode "outcome").isSome = !(Pointer.child? l.encode "error").isSome := by
  obtain ⟨table, result⟩ := l
  cases result with
  | ok r => cases hr : r.published.isEmpty <;> simp [TableLine.encode, Pointer.child?, List.lookup_cons, hr]
  | error e => rfl

/-- A registry that fails is all a scan asks. -/
theorem unregistered_iff {σ : Type} {w : World σ} {m : Moment} {o : Order} {s : σ} {e : ReadError}
    (h : (w.tables s).1 = .error e) {startedAt : Instant} {result : Except ScanError ScanReport}
    {events : List ControlEvent} :
    Yields w m o startedAt s result events ↔ result = .error (.read e) ∧ events = [] := by
  constructor
  · intro hy
    cases hy with
    | unregistered h' =>
      cases h.symm.trans h'
      exact ⟨rfl, rfl⟩
    | overflow h' => cases h.symm.trans h'
    | report h' => cases h.symm.trans h'
  · rintro ⟨rfl, rfl⟩
    exact .unregistered h

theorem isolated {judge : Judge} {σ : Type} (S : Setting judge σ) {m : Moment} {o : Order}
    (hv : m.thresholds.validate = .ok ()) (hnow : 0 ≤ m.now) {tables : List String}
    (h : (S.world.tables S.state).1 = .ok tables) {startedAt : Instant} {report : ScanReport}
    {events : List ControlEvent} (hy : Yields S.world m o startedAt S.state (.ok report) events) :
    ∀ line ∈ report.tables, S.Isolated m o events line := by
  obtain ⟨rfl, hevents⟩ := report_eq S hv hnow h hy
  intro line hline
  obtain ⟨table, htable, rfl⟩ := List.mem_map.1 hline
  refine ⟨outcome_or_error _, ?_, ?_, ?_⟩
  · intro s u result hs hturns hended
    have hu := Consistent.turns S.steady hv hnow (List.nodup_singleton table) hs hturns
    have hpasses : u.passes = [TableLine.mk table result].map fun l => (l.table, .ended l.result) := hended
    cases (hu.over hpasses).1
    rfl
  · rintro rfl s hs
    exact (TablePass.run_eq S.steady m table hs).1
  · intro τ S' hfacts startedAt' report' events' hy' line' hline' htable'
    have h' : ∃ tables', (S'.world.tables S'.state).1 = .ok tables' := by
      cases hy' with
      | report h' => exact ⟨_, h'⟩
    obtain ⟨tables', h'⟩ := h'
    obtain ⟨rfl, hevents'⟩ := report_eq S' hv hnow h' hy'
    obtain ⟨_, hmem, rfl⟩ := List.mem_map.1 hline'
    cases htable'
    have hsame : S'.facts table = S.facts table := hfacts
    refine ⟨by simp only [lineAlone, hsame], (hevents' _ hmem).trans ?_⟩
    rw [hsame]
    exact (hevents _ htable).symm

/-- A registry that fails ends the scan before anything else is asked. Otherwise, with valid
thresholds, a clock that is not negative and bounded tables, the turns come to an end however they
fall, and the report has one line for each table, in the order of the registry, that owes nothing to
the others. -/
theorem isolates {judge : Judge} {σ : Type} (S : Setting judge σ) (m : Moment) (o : Order) (startedAt : Instant)
    (hv : m.thresholds.validate = .ok ()) (hnow : 0 ≤ m.now)
    (hb : ∀ tables, (S.world.tables S.state).1 = .ok tables → ∀ table ∈ tables, (S.facts table).Bounded) :
    (∀ e, (S.world.tables S.state).1 = .error e →
      (∀ result events, Yields S.world m o startedAt S.state result events ↔ result = .error (.read e) ∧ events = []) ∧
      ∀ reply, run { S.world with reply } m startedAt S.state = (.error (.read e), (S.world.tables S.state).2)) ∧
    ∀ tables, (S.world.tables S.state).1 = .ok tables →
      (WellFounded fun u' u => Turn S.world m o u u') ∧
      (∃ result events, Yields S.world m o startedAt S.state result events) ∧
      ∀ result events, Yields S.world m o startedAt S.state result events →
        ∃ report, result = .ok report ∧ report.tables.map (·.table) = tables ∧
          (o = .asked → (run S.world m startedAt S.state).1 = .ok report) ∧
          ∀ line ∈ report.tables, S.Isolated m o events line := by
  constructor
  · intro e he
    refine ⟨fun result events => unregistered_iff he, fun reply => ?_⟩
    generalize hs : S.world.tables S.state = answer at he
    obtain ⟨_, s⟩ := answer
    cases he
    simp [run, hs]
  · intro tables h
    have hno : ∀ table ∈ tables, ∀ v, ¬ (S.facts table).Overflows m v :=
      fun table htable => (hb tables h table htable).not_overflows m
    refine ⟨turns_end .., exists_yields S hv hnow h hno startedAt, ?_⟩
    intro result events hy
    obtain ⟨report, rfl⟩ := report_of_yields S hv hnow h hno hy
    have hreport := (report_eq S hv hnow h hy).1
    refine ⟨report, rfl, ?_, ?_, isolated S hv hnow h hy⟩
    · rw [hreport, List.map_map]
      exact List.map_id tables
    · rintro rfl
      rw [run_of_tables (Prod.ext h rfl), lines_eq S.steady hv hnow hno S.begun, hreport]
      rfl

/-- A request that is due, beside a contract that reverts, a store that is down and a timeout that is
refused. With other counters, other failures and another hand beside it, the request has the same line. -/
theorem isolates_four_tables :
    let m : Moment := ⟨.standard, 1700000000⟩
    let hand : Hand := { Hand.start "0xd" 8 .river 1699999999 with lineup := [.ofAddress "0xbb" 500] }
    let s : Stage Recorder := (Stage.empty ⟨⟨0, ⟨0, 0⟩⟩, Recorder.empty.refuse .timeout⟩)
      |>.setTable "0xa" ⟨100, 105, 1699999300⟩ [] |>.setTable "0xb" ⟨0, 1, 0⟩ [] |>.failChain "0xb"
      |>.setTable "0xc" ⟨7, 7, 0⟩ [⟨"0xaa", 500, 8⟩] |>.failHands "0xc" |>.setTable "0xd" ⟨7, 7, 0⟩ []
      |>.putHand hand
    let s' : Stage Recorder := s
      |>.setTable "0xb" ⟨3, 9, 1699999999⟩ [] |>.failChain "0xc" |>.putHand { hand with lineup := [] }
    let S := Stage.setting (Recorder.judged (some .timeout)) s rfl
    ∃ report events, Yields Stage.world m .asked ⟨0, 0⟩ s (.ok report) events ∧
      report.tables.map (·.table) = ["0xa", "0xb", "0xc", "0xd"] ∧
      (∀ line ∈ report.tables, S.Isolated m .asked events line) ∧
      ∀ report' events', Yields Stage.world m .asked ⟨5, 0⟩ s' (.ok report') events' →
        ∀ line ∈ report.tables, ∀ line' ∈ report'.tables, line.table = "0xa" → line'.table = "0xa" → line' = line := by
  intro m hand s s' S
  have hb : ∀ tables, (S.world.tables S.state).1 = .ok tables → ∀ table ∈ tables, (S.facts table).Bounded := by
    intro tables htables table htable
    have hnames : (S.world.tables S.state).1 = .ok ["0xa", "0xb", "0xc", "0xd"] := rfl
    cases hnames.symm.trans htables
    simp only [List.mem_cons, List.not_mem_nil, or_false] at htable
    rcases htable with rfl | rfl | rfl | rfl <;> constructor <;> rintro _ ⟨⟩ <;> decide
  obtain ⟨-, ⟨result, events, hy⟩, hall⟩ := (isolates S m .asked ⟨0, 0⟩ rfl (by decide) hb).2 _ rfl
  obtain ⟨report, rfl, htables, -, hlines⟩ := hall result events hy
  refine ⟨report, events, hy, htables, hlines, ?_⟩
  intro report' events' hy' line hline line' hline' ha ha'
  have hsame : s'.facts line.table = s.facts line.table := by
    rw [ha]
    exact Stage.facts_congr rfl rfl rfl rfl
  let S' := Stage.setting (Recorder.judged (some .timeout)) s' rfl
  exact ((hlines line hline).undisturbed S' hsame hy' line' hline' (ha'.trans ha.symm)).1

end Scan

end TableEscrow
