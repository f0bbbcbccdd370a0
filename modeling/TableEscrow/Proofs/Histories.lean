import Mathlib.Data.List.Basic
import TableEscrow.Daemon.Route
import TableEscrow.Daemon.Timer
import TableEscrow.Deployment
import TableEscrow.Proofs.Overflow
import TableEscrow.Rehearsal.Backend
/-!
# The daemon's history

A daemon takes turns: it answers a request, runs a background task, or waits while the world around it
changes. A turn ends in a finding for the status, and the status is the fold of the findings
(`Status.foldl_record`). `Effect` has what one turn can do. From it, `Episode.Faithful` says what a turn
answers and what it leaves on the bus, and `Site.status_folds_history` says what a status tells of the
turns before it.
-/

namespace TableEscrow

/-- A dispatch as listeners receive it. -/
def Message.ofDispatch : Dispatch → Message
  | .control envelope => .control envelope
  | .live update => .live update

namespace Bus

/-- Sends some messages, one after the other. -/
def sendAll (ms : List Message) (b : Bus) : Bus := ms.foldl (fun b m => b.send m) b

theorem sendAll_append (ms ns : List Message) (b : Bus) :
    b.sendAll (ms ++ ns) = (b.sendAll ms).sendAll ns :=
  List.foldl_append

theorem offer_eq (d : Dispatch) (b : Bus) : Sink.offer d b = (.ok (), b.send (.ofDispatch d)) := by
  cases d <;> rfl

end Bus

namespace Sink

variable {τ : Type} [Sink τ]

/-- The bus behind a sink receives a dispatch or nothing. -/
theorem bus_offer (d : Dispatch) (s : τ × Bus) :
    (offer d s).2.2 = s.2 ∨ (offer d s).2.2 = s.2.send (.ofDispatch d) := by
  rcases hfirst : offer d s.1 with ⟨_ | _, first⟩
  · exact .inl (by simp only [offer, hfirst])
  · have hbus : (offer d s).2.2 = (offer d s.2).2 := by simp only [offer, hfirst]
    exact .inr (by rw [hbus, Bus.offer_eq])

end Sink

/-! ## Where a pass leaves the world -/

/-- A registry that does not answer fails as a registry. -/
def World.RegistryTells {σ : Type} (w : World σ) : Prop :=
  ∀ s e, (w.tables s).1 = .error e → ∃ reason, e = .registry reason

theorem Gateway.Contract.registry_of_readTables {reply : Except CallError Reply} {e : ReadError}
    (h : readTables reply = .error e) : ∃ reason, e = .registry reason := by
  rw [readTables] at h
  cases hread : read decodeTables reply with
  | ok tables =>
    rw [hread] at h
    cases h
  | error failure =>
    rw [hread] at h
    cases h
    exact ⟨_, rfl⟩

theorem Deployment.registry_tells {σ : Type} (d : Deployment σ) : d.world.RegistryTells := by
  intro p e h
  simp only [world, behind, Gateway.Contract.tables] at h
  exact Gateway.Contract.registry_of_readTables h

namespace Scan

variable {σ : Type} (w : World σ) (m : Moment)

theorem lines_state (table : String) (rest : List String) (s : σ) :
    (lines w m (table :: rest) s).2 = (TablePass.run w m table s).2 ∨
      (lines w m (table :: rest) s).2 = (lines w m rest (TablePass.run w m table s).2).2 := by
  rw [lines]
  split
  · next h => exact .inl (by rw [h])
  · next h =>
    refine .inr ?_
    rw [h]
    split
    all_goals
      next hrest => rw [hrest]

/-- No line is missing but for an overflow. -/
theorem overflow_of_lines {tables : List String} {s : σ} {e : ScanError} (h : (lines w m tables s).1 = .error e) :
    ∃ o, e = .overflow o := by
  induction tables generalizing s with
  | nil => cases h
  | cons table rest ih =>
    rcases lines_cons w m table rest s with ⟨o, -, hlines⟩ | ⟨-, hlines⟩ <;> rw [hlines] at h
    · cases h
      exact ⟨o, rfl⟩
    · cases hrest : (lines w m rest (TablePass.run w m table s).2).1 with
      | ok ls => rw [hrest] at h; cases h
      | error e' =>
        rw [hrest] at h
        cases h
        exact ih hrest

/-- Only the registry decides whether there is a report. -/
theorem run_read_iff (startedAt : Instant) (s : σ) (e : ReadError) :
    (run w m startedAt s).1 = .error (.read e) ↔ (w.tables s).1 = .error e := by
  rcases htables : w.tables s with ⟨e' | tables, s'⟩
  · simp [run, htables]
  · rw [run_of_tables htables]
    refine ⟨fun h => ?_, fun h => by cases h⟩
    cases hlines : (lines w m tables s').1 with
    | ok ls => rw [hlines] at h; cases h
    | error e' =>
      obtain ⟨o, rfl⟩ := overflow_of_lines w m hlines
      rw [hlines] at h
      cases h

/-- A pass that fails to read the registry goes no further. -/
theorem state_of_read {startedAt : Instant} {s : σ} {e : ReadError} (h : (run w m startedAt s).1 = .error (.read e)) :
    (run w m startedAt s).2 = (w.tables s).2 := by
  have htables := (run_read_iff w m startedAt s e).1 h
  rcases hw : w.tables s with ⟨result, s'⟩
  rw [hw] at htables
  cases htables
  rw [run, hw]

theorem run_state (startedAt : Instant) (s : σ) :
    (run w m startedAt s).2 = (w.tables s).2 ∨
      ∃ tables, (run w m startedAt s).2 = (lines w m tables (w.tables s).2).2 := by
  rcases htables : w.tables s with ⟨e | tables, s'⟩
  · exact .inl (by rw [run, htables])
  · refine .inr ⟨tables, ?_⟩
    rw [run, htables]
    dsimp only
    split
    all_goals
      next hlines => rw [hlines]

end Scan

/-! ## The status as a fold -/

namespace Daemon

/-- The tables of a report whose request lapsed, in its order. -/
def lapsedTables (report : ScanReport) : List String := report.tables.filterMap fun line =>
  match line.result with
  | .ok ⟨_, .pending ⟨.lapsed, _⟩, _⟩ => some line.table
  | _ => none

/-- A report in short: how many tables it has, how many events were accepted for them, how many of them failed, and
which have lapsed. -/
def summaryOf (report : ScanReport) : ScanSummary where
  startedAt := report.startedAt
  tables := report.tables.length
  published := ((report.tables.filterMap (·.result.toOption)).flatMap (·.published)).length
  errors := report.tables.countP fun line => !line.result.isOk
  lapsed := lapsedTables report

theorem lapsed_eq (report : ScanReport) : report.lapsed = lapsedTables report := by
  rw [ScanReport.lapsed, lapsedTables]
  induction report.tables with
  | nil => rfl
  | cons line rest ih =>
    rw [List.filterMap_cons, List.filter_cons, ← ih]
    rcases line with ⟨table, _ | ⟨_, ⟨_ | _, _⟩ | _ | _, _⟩⟩ <;> rfl

theorem publishedCount_eq (report : ScanReport) : report.publishedCount = (summaryOf report).published := by
  rw [ScanReport.publishedCount, summaryOf]
  induction report.tables with
  | nil => rfl
  | cons line rest ih =>
    obtain ⟨table, _ | r⟩ := line
    · exact ih
    · simpa [TableLine.published, Except.toOption] using ih

theorem errorCount_eq (report : ScanReport) : report.errorCount = (summaryOf report).errors := by
  refine List.countP_congr fun line _ => ?_
  rcases line with ⟨table, _ | _⟩ <;> exact Iff.rfl

theorem ofReport_eq (report : ScanReport) : ScanSummary.ofReport report = summaryOf report := by
  rw [ScanSummary.ofReport, publishedCount_eq, errorCount_eq, lapsed_eq]
  rfl

/-- What a turn found out, as far as the status is concerned. -/
inductive Finding where
  | nothing
  | scanned (result : Except ReadError ScanReport)
  | changed (result : Except PublishError Reaction.Outcome)

namespace Finding

/-- What a pass found out; an overflow leaves nothing to record. -/
def ofRun : Except ScanError ScanReport → Finding
  | .ok report => .scanned (.ok report)
  | .error (.read e) => .scanned (.error e)
  | .error (.overflow _) => .nothing

def isReport : Finding → Bool
  | .scanned (.ok _) => true
  | _ => false

def isFailedScan : Finding → Bool
  | .scanned (.error _) => true
  | _ => false

/-- A pass fails where its registry does not answer, and nowhere else. -/
theorem isFailedScan_ofRun {σ : Type} (w : World σ) (m : Moment) (startedAt : Instant) (s : σ) :
    (ofRun (Scan.run w m startedAt s).1).isFailedScan = !(w.tables s).1.isOk := by
  have hiff := Scan.run_read_iff w m startedAt s
  rcases htables : (w.tables s).1 with e | tables
  · rw [(hiff e).2 htables]
    rfl
  · rw [htables] at hiff
    rcases hrun : (Scan.run w m startedAt s).1 with ⟨e | o⟩ | report
    · exact absurd ((hiff e).1 hrun) nofun
    · rfl
    · rfl

def isProcessed : Finding → Bool
  | .changed (.ok _) => true
  | _ => false

def isFailedChange : Finding → Bool
  | .changed (.error _) => true
  | _ => false

def summary? : Finding → Option ScanSummary
  | .scanned (.ok report) => some (summaryOf report)
  | _ => none

def error? : Finding → Option String
  | .scanned (.error e) => some e.message
  | .changed (.error e) => some e.message
  | _ => none

end Finding

namespace Status

def record (s : Status) : Finding → Status
  | .nothing => s
  | .scanned result => s.afterScan result
  | .changed result => s.afterChange result

/-- What some findings come to: how many there are of each kind, the latest summary and the latest error. -/
def ofFindings (configHash : Option String) (fs : List Finding) : Status :=
  ⟨configHash, fs.countP (·.isReport), fs.countP (·.isFailedScan), fs.countP (·.isProcessed),
    fs.countP (·.isFailedChange), (fs.filterMap Finding.summary?).getLast?, (fs.filterMap Finding.error?).getLast?⟩

theorem record_ofFindings (configHash : Option String) (fs : List Finding) (f : Finding) :
    (ofFindings configHash fs).record f = ofFindings configHash (fs ++ [f]) := by
  rcases f with _ | ⟨_ | _⟩ | ⟨_ | _⟩ <;>
    simp [record, afterScan, afterChange, ofFindings, List.countP_append, List.filterMap_append, Finding.isReport,
      Finding.isFailedScan, Finding.isProcessed, Finding.isFailedChange, Finding.summary?, Finding.error?, ofReport_eq]

/-- The status is the fold of the findings. -/
theorem foldl_record (configHash : Option String) (fs gs : List Finding) :
    gs.foldl record (ofFindings configHash fs) = ofFindings configHash (fs ++ gs) := by
  induction gs generalizing fs with
  | nil => simp
  | cons g gs ih => rw [List.foldl_cons, record_ofFindings, ih, List.append_assoc, List.singleton_append]

end Status

theorem countP_add_countP {α : Type} {p q r : α → Bool} {l : List α}
    (h : ∀ a ∈ l, (p a).toNat + (q a).toNat = (r a).toNat) : l.countP p + l.countP q = l.countP r := by
  induction l with
  | nil => rfl
  | cons a l ih =>
    obtain ⟨ha, hl⟩ := List.forall_mem_cons.1 h
    rw [List.countP_cons, List.countP_cons, List.countP_cons, ← ih hl]
    revert ha
    cases p a <;> cases q a <;> cases r a <;> simp <;> omega

/-! ## Turns -/

/-- What a daemon works on, and the bus in it that listeners read. Whatever the world answers, it puts no
line on the bus; nor does a reaction. -/
structure Site (σ : Type) where
  backend : Backend σ
  bus : σ → Bus
  bus_onBus (f : Bus → Bus) (s : σ) : bus (backend.onBus f s) = f (bus s)
  bus_tables (s : σ) : bus (backend.world.tables s).2 = bus s
  bus_reply (table : String) (r : Request) (s : σ) :
    ∃ envelopes : List ControlEnvelope, bus (backend.world.reply table r s).2 = (bus s).sendAll (envelopes.map .control)
  bus_react (c : HandChange) (s : σ) :
    ∃ dispatches : List Dispatch, bus (backend.react c s).2 = (bus s).sendAll (dispatches.map .ofDispatch)
  registry_tells : backend.world.RegistryTells

/-- The times a turn is taken at, each from a clock of its own. -/
structure Clock where
  moment : Moment
  startedAt : Instant
  uptime : Nat
  millis : Int64

variable {σ : Type} {site : Site σ}

/-- What happens next to a daemon. -/
inductive Turn (site : Site σ) where
  | request (r : HttpRequest) (clock : Clock)
  | tick (task : Task) (clock : Clock)
  /-- The world changes, but not the bus. -/
  | outside (f : σ → σ) (h : ∀ s, site.bus (f s) = site.bus s)

namespace Turn

/-- The clock of a pass, if a turn is one. -/
def scan? : Turn site → Option Clock
  | .request r clock =>
    match Route.ofRequest r with
    | .scan => some clock
    | _ => none
  | .tick .scan clock => some clock
  | _ => none

/-- The change a turn reports, if it is well formed. -/
def change? : Turn site → Option HandChange
  | .request r _ =>
    match Route.ofRequest r with
    | .change c => some c
    | _ => none
  | _ => none

/-- A response goes to whoever made a request. -/
def reply (response : HttpResponse) : Turn site → Option HttpResponse
  | .request _ _ => some response
  | _ => none

def finding (t : Turn site) (s : Service σ) : Finding :=
  match t.scan?, t.change? with
  | some clock, _ => .ofRun (Scan.run site.backend.world clock.moment clock.startedAt s.state).1
  | none, some c => .changed (site.backend.react c s.state).1
  | none, none => .nothing

variable {t : Turn site} {s : Service σ}

/-- A request is not both a pass and a change. -/
theorem change?_of_scan {clock : Clock} (h : t.scan? = some clock) : t.change? = none := by
  cases t with
  | request r _ => cases hroute : Route.ofRequest r <;> simp_all [scan?, change?]
  | tick | outside => rfl

theorem finding_scan {clock : Clock} (h : t.scan? = some clock) :
    t.finding s = .ofRun (Scan.run site.backend.world clock.moment clock.startedAt s.state).1 := by
  simp only [finding, h]

theorem finding_change {c : HandChange} (hscan : t.scan? = none) (h : t.change? = some c) :
    t.finding s = .changed (site.backend.react c s.state).1 := by
  simp only [finding, hscan, h]

theorem finding_neither (hscan : t.scan? = none) (hchange : t.change? = none) : t.finding s = .nothing := by
  simp only [finding, hscan, hchange]

/-- The passes that fail are those whose registry does not answer. -/
theorem isFailedScan_finding (t : Turn site) (s : Service σ) :
    (t.finding s).isFailedScan = (t.scan?.isSome && !(site.backend.world.tables s.state).1.isOk) := by
  unfold finding
  split
  · next hscan =>
    rw [Finding.isFailedScan_ofRun, hscan]
    rfl
  all_goals
    next hscan _ =>
      rw [hscan]
      rfl

/-- A change is processed or fails. -/
theorem change_count (t : Turn site) (s : Service σ) :
    (t.finding s).isProcessed.toNat + (t.finding s).isFailedChange.toNat = t.change?.isSome.toNat := by
  unfold finding
  split
  · next hscan =>
    rw [change?_of_scan hscan]
    rcases (Scan.run site.backend.world _ _ s.state).1 with ⟨_ | _⟩ | _ <;> rfl
  · next c _ hchange =>
    rw [hchange]
    cases (site.backend.react c s.state).1 <;> rfl
  · next _ hchange =>
    rw [hchange]
    rfl

end Turn

/-- A turn that was taken. -/
structure Episode (site : Site σ) where
  turn : Turn site
  before : Service σ
  answer : Option HttpResponse
  /-- Whether it came to its end; an overflow ends a turn early. -/
  returned : Bool
  after : Service σ

def Turn.take (t : Turn site) (s : Service σ) : Episode site :=
  match t with
  | .request r clock =>
    let (answer, after) := s.respond site.backend clock.moment clock.startedAt clock.uptime (.ofRequest r)
    ⟨t, s, answer.toOption, answer.isOk, after⟩
  | .tick task clock =>
    let (returned, after) := Schedule.runTask site.backend clock.moment clock.startedAt clock.millis task s
    ⟨t, s, none, returned, after⟩
  | .outside f _ => ⟨t, s, none, true, { s with state := f s.state }⟩

theorem Turn.turn_take (t : Turn site) (s : Service σ) : (t.take s).turn = t := by
  cases t <;> rfl

theorem Turn.before_take (t : Turn site) (s : Service σ) : (t.take s).before = s := by
  cases t <;> rfl

/-- The episodes of some turns, and the service after them. -/
def Site.run (site : Site σ) : List (Turn site) → Service σ → List (Episode site) × Service σ
  | [], s => ([], s)
  | t :: rest, s =>
    let e := t.take s
    let (history, s) := site.run rest e.after
    (e :: history, s)

/-- The line that an operator is to see to a table. -/
def warning (table : String) : Message :=
  .logLine "WARN" ("netting request for table " ++ table ++
    " outlived the settlement grace window; manual intervention required")

theorem Service.logScan_ok (b : Bus) (report : ScanReport) :
    logScan b (.ok report) = b.sendAll ((lapsedTables report).map warning) := by
  rw [logScan, Bus.sendAll, List.foldl_map, lapsed_eq]
  rfl

/-! ## What one turn does -/

/-- What a change is answered. -/
def changeResponse : Except PublishError Reaction.Outcome → HttpResponse
  | .ok outcome => ⟨200, some outcome.encode⟩
  | .error e => ⟨502, some (.object [("error", .string e.message), ("kind", .string "publish")])⟩

/-- Everything a turn can do. -/
inductive Effect : Episode site → Prop
  | read {r clock s response} (hscan : (Turn.request r clock : Turn site).scan? = none)
      (hchange : (Turn.request r clock : Turn site).change? = none)
      (hstatus : Route.ofRequest r = .status → response = ⟨200, some (s.status.encode clock.uptime)⟩) :
    Effect ⟨.request r clock, s, some response, true, s⟩
  | reported {t : Turn site} {s clock report state} (ht : t.scan? = some clock)
      (hrun : Scan.run site.backend.world clock.moment clock.startedAt s.state = (.ok report, state)) :
    Effect ⟨t, s, t.reply ⟨200, some report.encode⟩, true,
      .recordScan site.backend (.ok report) { s with state }⟩
  | failed {t : Turn site} {s clock e state} (ht : t.scan? = some clock)
      (hrun : Scan.run site.backend.world clock.moment clock.startedAt s.state = (.error (.read e), state)) :
    Effect ⟨t, s, t.reply ⟨502, some (errorBody e.message (scanErrorKind e))⟩, true,
      .recordScan site.backend (.error e) { s with state }⟩
  | overflowed {t : Turn site} {s clock o state} (ht : t.scan? = some clock)
      (hrun : Scan.run site.backend.world clock.moment clock.startedAt s.state = (.error (.overflow o), state)) :
    Effect ⟨t, s, none, false, { s with state }⟩
  | changed {t : Turn site} {s c} (hscan : t.scan? = none) (hchange : t.change? = some c) :
    Effect ⟨t, s, some (changeResponse (site.backend.react c s.state).1), true,
      ⟨(site.backend.react c s.state).2, s.status.afterChange (site.backend.react c s.state).1⟩⟩
  | beat {clock s} :
    Effect ⟨.tick .heartbeat clock, s, none, true,
      { s with state := site.backend.onBus (·.send (.heartbeat clock.millis)) s.state }⟩
  | waited {f h s} : Effect ⟨.outside f h, s, none, true, { s with state := f s.state }⟩

/-- A pass goes the same way whether a request or a task starts it. -/
theorem Turn.take_scan {t : Turn site} {clock : Clock} (ht : t.scan? = some clock) (s : Service σ) : t.take s =
    match Scan.run site.backend.world clock.moment clock.startedAt s.state with
    | (.ok report, state) =>
      ⟨t, s, t.reply ⟨200, some report.encode⟩, true, .recordScan site.backend (.ok report) { s with state }⟩
    | (.error (.read e), state) =>
      ⟨t, s, t.reply ⟨502, some (errorBody e.message (scanErrorKind e))⟩, true,
        .recordScan site.backend (.error e) { s with state }⟩
    | (.error (.overflow _), state) => ⟨t, s, none, false, { s with state }⟩ := by
  cases t with
  | request r _ =>
    cases hroute : Route.ofRequest r with
    | scan =>
      simp only [scan?, hroute, Option.some_inj] at ht
      subst ht
      simp only [take, Service.respond, hroute, Service.scan]
      rcases Scan.run _ _ _ s.state with ⟨⟨e | o⟩ | report, state⟩ <;> rfl
    | _ => simp [scan?, hroute] at ht
  | tick task _ =>
    cases task with
    | heartbeat => cases ht
    | scan =>
      cases ht
      simp only [take, Schedule.runTask, Service.scan]
      rcases Scan.run _ _ _ s.state with ⟨⟨e | o⟩ | report, state⟩ <;> rfl
  | outside => cases ht

theorem effect_scan {t : Turn site} {clock : Clock} (ht : t.scan? = some clock) (s : Service σ) :
    Effect (t.take s) := by
  rw [Turn.take_scan ht]
  rcases hrun : Scan.run site.backend.world clock.moment clock.startedAt s.state with ⟨⟨e | o⟩ | report, state⟩
  · exact .failed ht hrun
  · exact .overflowed ht hrun
  · exact .reported ht hrun

theorem effect_take (t : Turn site) (s : Service σ) : Effect (t.take s) := by
  cases t with
  | outside f h => exact .waited
  | tick task clock =>
    cases task with
    | heartbeat => exact .beat
    | scan => exact effect_scan rfl s
  | request r clock =>
    cases hroute : Route.ofRequest r with
    | scan =>
      have ht : (Turn.request r clock : Turn site).scan? = some clock := by simp only [Turn.scan?, hroute]
      exact effect_scan ht s
    | change c =>
      have hscan : (Turn.request r clock : Turn site).scan? = none := by simp only [Turn.scan?, hroute]
      have hchange : (Turn.request r clock : Turn site).change? = some c := by simp only [Turn.change?, hroute]
      have heffect := Effect.changed (s := s) hscan hchange
      rcases hreact : site.backend.react c s.state with ⟨e | outcome, state⟩ <;> rw [hreact] at heffect <;>
        simp only [Turn.take, Service.respond, hroute, Service.change, hreact] <;> exact heffect
    | health | status | stream table | refused code =>
      simp only [Turn.take, Service.respond, hroute]
      exact .read (by simp only [Turn.scan?, hroute]) (by simp only [Turn.change?, hroute]) (by simp [hroute])

/-! ## What a pass leaves on the bus -/

namespace Site

/-- The bus received envelopes and nothing else. -/
def Announced (site : Site σ) (s s' : σ) : Prop :=
  ∃ envelopes : List ControlEnvelope, site.bus s' = (site.bus s).sendAll (envelopes.map .control)

theorem Announced.trans {s s' s'' : σ} (h : site.Announced s s') (h' : site.Announced s' s'') :
    site.Announced s s'' := by
  obtain ⟨first, hfirst⟩ := h
  obtain ⟨second, hsecond⟩ := h'
  exact ⟨first ++ second, by rw [hsecond, hfirst, List.map_append, Bus.sendAll_append]⟩

theorem announced_drive (m : Moment) (table : String) (t : TablePass) (s : σ) :
    site.Announced s (TablePass.drive site.backend.world m table t s).2 := by
  induction t, s using TablePass.drive.induct site.backend.world m table with
  | case1 t s result hnext =>
    rw [TablePass.ended_of_next hnext, TablePass.drive_ended]
    exact ⟨[], rfl⟩
  | case2 t s r hnext reply s' hreply ih =>
    have hstep := site.bus_reply table r s
    rw [TablePass.drive_next _ m table hnext, hreply]
    rw [hreply] at hstep
    exact Announced.trans hstep ih

theorem announced_lines (m : Moment) (tables : List String) (s : σ) :
    site.Announced s (Scan.lines site.backend.world m tables s).2 := by
  induction tables generalizing s with
  | nil => exact ⟨[], rfl⟩
  | cons table rest ih =>
    have hpass : site.Announced s (TablePass.run site.backend.world m table s).2 := announced_drive m table .start s
    rcases Scan.lines_state site.backend.world m table rest s with hlines | hlines <;> rw [hlines]
    · exact hpass
    · exact hpass.trans (ih _)

theorem announced_run (m : Moment) (startedAt : Instant) (s : σ) :
    site.Announced s (Scan.run site.backend.world m startedAt s).2 := by
  have htables : site.Announced s (site.backend.world.tables s).2 := ⟨[], site.bus_tables s⟩
  rcases Scan.run_state site.backend.world m startedAt s with hrun | ⟨tables, hrun⟩ <;> rw [hrun]
  · exact htables
  · exact htables.trans (announced_lines m tables _)

end Site

/-! ## What an episode tells -/

namespace Episode

def finding (e : Episode site) : Finding := e.turn.finding e.before

def isPass (e : Episode site) : Bool := e.turn.scan?.isSome

/-- Whether the registry does not answer what a pass would ask it first. -/
def registryFails (e : Episode site) : Bool := !(site.backend.world.tables e.before.state).1.isOk

/-- How an episode with some finding is answered, and what it leaves on the bus. A report leaves a line for
each lapsed table, after the envelopes of the pass; a failed pass leaves one line and nothing else; a change
leaves no line. -/
def Tells (e : Episode site) : Finding → Prop
  | .nothing => True
  | .scanned (.ok report) =>
    e.answer = e.turn.reply ⟨200, some report.encode⟩ ∧
    ∃ envelopes : List ControlEnvelope, site.bus e.after.state = (site.bus e.before.state).sendAll
      (envelopes.map .control ++ (lapsedTables report).map warning)
  | .scanned (.error error) =>
    e.answer = e.turn.reply ⟨502, some (.object [("error", .string error.message), ("kind", .string "registry")])⟩ ∧
    site.bus e.after.state =
      (site.bus e.before.state).send (.logLine "ERROR" ("reconcile scan failed: " ++ error.message))
  | .changed result =>
    e.answer = some (changeResponse result) ∧
    ∃ dispatches : List Dispatch,
      site.bus e.after.state = (site.bus e.before.state).sendAll (dispatches.map .ofDispatch)

structure Faithful (e : Episode site) : Prop where
  /-- A request that is refused or only reads changes nothing. -/
  unchanged : ∀ r clock, e.turn = .request r clock → e.turn.scan? = none → e.turn.change? = none → e.after = e.before
  /-- The status is told as it is. -/
  told : ∀ r clock, e.turn = .request r clock → Route.ofRequest r = .status →
    e.answer = some ⟨200, some (e.before.status.encode clock.uptime)⟩
  finding : e.Tells e.finding

end Episode

namespace Effect

variable {e : Episode site}

theorem status (h : Effect e) : e.after.status = e.before.status.record e.finding := by
  cases h with
  | read hscan hchange =>
    rw [Episode.finding, Turn.finding_neither hscan hchange]
    rfl
  | reported ht hrun | failed ht hrun | overflowed ht hrun =>
    rw [Episode.finding, Turn.finding_scan ht, hrun]
    rfl
  | changed hscan hchange =>
    rw [Episode.finding, Turn.finding_change hscan hchange]
    rfl
  | beat | waited => rfl

/-- A pass that came to its end has a report or failed, and no other turn has or does. -/
theorem scan_count (h : Effect e) :
    e.finding.isReport.toNat + e.finding.isFailedScan.toNat = (e.isPass && e.returned).toNat := by
  cases h with
  | read hscan hchange =>
    rw [Episode.isPass, Episode.finding, Turn.finding_neither hscan hchange, hscan]
    rfl
  | reported ht hrun | failed ht hrun | overflowed ht hrun =>
    rw [Episode.isPass, Episode.finding, Turn.finding_scan ht, hrun, ht]
    rfl
  | changed hscan hchange =>
    rw [Episode.isPass, Episode.finding, Turn.finding_change hscan hchange, hscan]
    rfl
  | beat | waited => rfl

theorem unchanged (h : Effect e) {r : HttpRequest} {clock : Clock} (hturn : e.turn = .request r clock)
    (hscan : e.turn.scan? = none) (hchange : e.turn.change? = none) : e.after = e.before := by
  cases h with
  | read => rfl
  | reported ht | failed ht | overflowed ht => rw [ht] at hscan; cases hscan
  | changed _ ht => rw [ht] at hchange; cases hchange
  | beat | waited => cases hturn

theorem told (h : Effect e) {r : HttpRequest} {clock : Clock} (hturn : e.turn = .request r clock)
    (hroute : Route.ofRequest r = .status) : e.answer = some ⟨200, some (e.before.status.encode clock.uptime)⟩ := by
  cases h with
  | read _ _ hstatus =>
    cases hturn
    rw [hstatus hroute]
  | reported ht | failed ht | overflowed ht =>
    subst hturn
    simp [Turn.scan?, hroute] at ht
  | changed _ ht =>
    subst hturn
    simp [Turn.change?, hroute] at ht
  | beat | waited => cases hturn

theorem tells (h : Effect e) : e.Tells e.finding := by
  cases h with
  | read hscan hchange =>
    rw [Episode.finding, Turn.finding_neither hscan hchange]
    trivial
  | @reported t s clock report state ht hrun =>
    obtain ⟨envelopes, hbus⟩ := site.announced_run clock.moment clock.startedAt s.state
    rw [hrun] at hbus
    rw [Episode.finding, Turn.finding_scan ht, hrun]
    refine ⟨rfl, envelopes, ?_⟩
    rw [Service.recordScan, site.bus_onBus, hbus, Bus.sendAll_append, Service.logScan_ok]
  | @failed t s clock error state ht hrun =>
    have hread : (Scan.run site.backend.world clock.moment clock.startedAt s.state).1 = .error (.read error) := by
      rw [hrun]
    have hstate : state = (site.backend.world.tables s.state).2 := by rw [← Scan.state_of_read _ _ hread, hrun]
    obtain ⟨reason, rfl⟩ := site.registry_tells s.state error ((Scan.run_read_iff ..).1 hread)
    rw [Episode.finding, Turn.finding_scan ht, hrun]
    refine ⟨rfl, ?_⟩
    rw [Service.recordScan, site.bus_onBus, hstate, site.bus_tables]
    rfl
  | overflowed ht hrun =>
    rw [Episode.finding, Turn.finding_scan ht, hrun]
    trivial
  | @changed t s c hscan hchange =>
    rw [Episode.finding, Turn.finding_change hscan hchange]
    exact ⟨rfl, site.bus_react c s.state⟩
  | beat | waited => trivial

theorem faithful (h : Effect e) : e.Faithful :=
  ⟨fun _ _ => h.unchanged, fun _ _ => h.told, h.tells⟩

end Effect

/-! ## A whole history -/

namespace Site

variable (site : Site σ) (turns : List (Turn site)) (s : Service σ)

theorem run_cons (t : Turn site) (rest : List (Turn site)) :
    site.run (t :: rest) s =
      (t.take s :: (site.run rest (t.take s).after).1, (site.run rest (t.take s).after).2) := rfl

theorem effect_run : ∀ e ∈ (site.run turns s).1, Effect e := by
  induction turns generalizing s with
  | nil => exact List.forall_mem_nil _
  | cons t rest ih =>
    rw [run_cons]
    exact List.forall_mem_cons.2 ⟨effect_take t s, ih _⟩

theorem turns_run : (site.run turns s).1.map (·.turn) = turns := by
  induction turns generalizing s with
  | nil => rfl
  | cons t rest ih => rw [run_cons, List.map_cons, ih, Turn.turn_take]

/-- The status after some turns is the status before them, and their findings folded into it. -/
theorem status_run :
    (site.run turns s).2.status = ((site.run turns s).1.map (·.finding)).foldl Status.record s.status := by
  induction turns generalizing s with
  | nil => rfl
  | cons t rest ih =>
    have hstep := (effect_take t s).status
    rw [Turn.before_take] at hstep
    rw [run_cons, List.map_cons, List.foldl_cons, ← hstep]
    exact ih _

/-- The status is the fold of its history: it counts passes and changes, and holds the latest summary and the
latest error. A pass fails just where the registry does not answer it. What each turn answers and leaves on the
bus agrees with what it found out. -/
theorem status_folds_history (configHash : Option String) (state : σ) :
    let history := (site.run turns ⟨state, .initial configHash⟩).1
    let status := (site.run turns ⟨state, .initial configHash⟩).2.status
    history.map (·.turn) = turns ∧
    status.scansCompleted + status.scansFailed = history.countP (fun e => e.isPass && e.returned) ∧
    status.changesProcessed + status.changesFailed = turns.countP (·.change?.isSome) ∧
    status.scansFailed = history.countP (fun e => e.isPass && e.registryFails) ∧
    status.lastScan = (history.filterMap (·.finding.summary?)).getLast? ∧
    status.lastError = (history.filterMap (·.finding.error?)).getLast? ∧
    status.configHash = configHash ∧
    ∀ e ∈ history, e.Faithful := by
  intro history status
  have heffect : ∀ e ∈ history, Effect e := site.effect_run turns _
  have hturns : history.map (·.turn) = turns := site.turns_run turns _
  have hstatus : status = .ofFindings configHash (history.map (·.finding)) :=
    (site.status_run turns _).trans (Status.foldl_record configHash [] _)
  rw [hstatus]
  refine ⟨hturns, ?_, ?_, ?_, ?_, ?_, rfl, fun e he => (heffect e he).faithful⟩
  · simp only [Status.ofFindings, List.countP_map]
    exact countP_add_countP fun e he => (heffect e he).scan_count
  · rw [show turns.countP _ = history.countP _ from (congrArg (List.countP _) hturns).symm.trans List.countP_map]
    simp only [Status.ofFindings, List.countP_map]
    exact countP_add_countP fun e _ => e.turn.change_count e.before
  · simp only [Status.ofFindings, List.countP_map]
    exact List.countP_congr fun e _ => iff_of_eq (congrArg (· = true) (e.turn.isFailedScan_finding e.before))
  · exact congrArg List.getLast? List.filterMap_map
  · exact congrArg List.getLast? List.filterMap_map

end Site

end Daemon

/-! ## A daemon on the stage -/

namespace TablePass

variable {σ : Type} {w : World σ} {m : Moment} {table : String} {s s₁ s₂ s₃ : σ} {netted requested : UInt64}
  {time : Int64}

/-- A pass reads the three counters first, one after the other. -/
theorem run_counters (hnetted : w.reply table .lastHandNetted s = (.ok netted, s₁))
    (hrequested : w.reply table .requestedHand s₁ = (.ok requested, s₂))
    (htime : w.reply table .requestTime s₂ = (.ok time, s₃)) :
    run w m table s = drive w m table (counted m table (some netted) (some requested) (some time)) s₃ := by
  rw [run, drive_next (r := .lastHandNetted) w m table rfl s, hnetted,
    drive_next (r := .requestedHand) w m table rfl s₁, hrequested,
    drive_next (r := .requestTime) w m table rfl s₂, htime]
  rfl

/-- A pass whose request calls for no event ends on the counters. -/
theorem run_silent {d : PendingDecision} (hnetted : w.reply table .lastHandNetted s = (.ok netted, s₁))
    (hrequested : w.reply table .requestedHand s₁ = (.ok requested, s₂))
    (htime : w.reply table .requestTime s₂ = (.ok time, s₃))
    (hpending : (NettingStatus.mk netted requested time).isPending = true)
    (hdecision : PendingDecision.ofStatus ⟨netted, requested, time⟩ m.now m.thresholds = .ok d)
    (hsilent : d.verdict.event? table ⟨netted, requested, time⟩ = none) :
    run w m table s = (.ok ⟨table, .pending d, []⟩, s₃) := by
  have hcounted : counted m table (some netted) (some requested) (some time) =
      .ended (.ok ⟨table, .pending d, []⟩) := by
    simp only [counted, if_pos hpending, judgePending, hdecision, hsilent]
    rfl
  rw [run_counters hnetted hrequested htime, hcounted, drive_ended]

end TablePass

namespace Publisher

variable {τ : Type} {p p' p'' : Publisher (τ × Bus)}

/-- The bus of a publisher received some dispatches and nothing else. -/
def Dispatched (p p' : Publisher (τ × Bus)) : Prop :=
  ∃ ds : List Dispatch, p'.sink.2 = p.sink.2.sendAll (ds.map .ofDispatch)

theorem Dispatched.trans (h : p.Dispatched p') (h' : p'.Dispatched p'') : p.Dispatched p'' := by
  obtain ⟨first, hfirst⟩ := h
  obtain ⟨second, hsecond⟩ := h'
  exact ⟨first ++ second, by rw [hsecond, hfirst, List.map_append, Bus.sendAll_append]⟩

variable [Sink τ]

theorem dispatched_offer (d : Dispatch) (p : Publisher (τ × Bus)) : p.Dispatched (p.offer d).2 := by
  rcases Sink.bus_offer d p.sink with hbus | hbus
  · exact ⟨[], hbus⟩
  · exact ⟨[d], hbus⟩

theorem dispatched_publish (e : ControlEvent) (p : Publisher (τ × Bus)) : p.Dispatched (p.publish e).2 := by
  rcases Sink.bus_offer (.control (p.stamper.stamp e).1) p.sink with hbus | hbus
  · exact ⟨[], hbus⟩
  · exact ⟨[.control (p.stamper.stamp e).1], hbus⟩

theorem dispatched_publishEach (first : Except PublishError Unit) (events : List ControlEvent)
    (p : Publisher (τ × Bus)) : p.Dispatched (Reaction.publishEach first events p).2 := by
  induction events generalizing first p with
  | nil => exact ⟨[], rfl⟩
  | cons e rest ih => exact (dispatched_publish e p).trans (ih _ _)

theorem dispatched_send (r : Reaction) (p : Publisher (τ × Bus)) : p.Dispatched (r.send p).2 := by
  obtain ⟨_ | update, events⟩ := r
  · exact dispatched_publishEach _ _ _
  · exact (dispatched_offer (.live update) p).trans (dispatched_publishEach _ _ _)

theorem dispatched_run (oracle : Oracle) (c : HandChange) (p : Publisher (τ × Bus)) :
    p.Dispatched (Reaction.run oracle c p).2 := by
  unfold Reaction.run
  split
  · exact dispatched_send _ _
  · exact dispatched_send _ _

end Publisher

namespace Stage

variable {τ : Type} [Sink τ]

/-- The stage as what a daemon works on, with any sink in front of its bus. -/
def site (oracle : Oracle) : Daemon.Site (Stage (τ × Bus)) where
  backend := backend oracle
  bus s := s.publisher.sink.2
  bus_onBus _ _ := rfl
  bus_tables _ := rfl
  bus_reply table r s := by
    cases r with
    | publish e =>
      rcases Sink.bus_offer (.control (s.publisher.stamper.stamp e).1) s.publisher.sink with hbus | hbus
      · exact ⟨[], hbus⟩
      · exact ⟨[(s.publisher.stamper.stamp e).1], hbus⟩
    | lastHandNetted | requestedHand | requestTime | lastHand | lineup => exact ⟨[], rfl⟩
  bus_react c s := Publisher.dispatched_run oracle c s.publisher
  registry_tells s e h := by
    change s.registryAnswer = .error e at h
    unfold registryAnswer at h
    split at h
    · cases h
      exact ⟨_, rfl⟩
    · cases h

open Daemon in
/-- A pass over a table whose request lapsed, a change that comes to nothing, one whose view is refused, a pass that
the registry does not answer, and a change that cannot be read. The summary of the first pass and the error of the
second are both told, each change is counted once, and the bus has a line of each pass and none of a change. -/
theorem status_folds_history_registry_down :
    let clock : Clock := ⟨⟨.standard, 4000⟩, ⟨4000, 0⟩, 0, 0⟩
    let here : Site (Stage (DeafRecorder × Bus)) :=
      site ⟨fun _ _ _ => .ok false, fun _ _ => .ok 0, fun _ => .ok .null⟩
    let scan : Turn here := .request ⟨"POST", "/v1/scan", none, ""⟩ clock
    let change (body : String) : Turn here :=
      .request ⟨"POST", "/v1/hands/changes", some "application/json", body⟩ clock
    let turns : List (Turn here) :=
      [scan, change "[\"REMOVE\",\"0xa\",7]", change "[\"INSERT\",\"0xa\",8,null,[\"0xa\",8,\"flop\",0,0,[],1]]",
        .outside takeRegistryDown fun _ => rfl, scan, change "["]
    let state : Stage (DeafRecorder × Bus) :=
      setTable "0xa" ⟨100, 105, 100⟩ [] (.empty ⟨⟨0, ⟨0, 0⟩⟩, ⟨.empty⟩, .ofCapacity 4⟩)
    let history := (here.run turns ⟨state, .initial none⟩).1
    let s := (here.run turns ⟨state, .initial none⟩).2
    s.status = ⟨none, 1, 1, 1, 1, some ⟨⟨4000, 0⟩, 1, 0, 0, ["0xa"]⟩,
        some "table registry unavailable: factory call reverted"⟩ ∧
      s.state.publisher.sink.2.kept =
        [.logLine "WARN"
            "netting request for table 0xa outlived the settlement grace window; manual intervention required",
          .logLine "ERROR" "reconcile scan failed: table registry unavailable: factory call reverted"] ∧
      history.map (fun e => e.answer.map (·.code)) = [some 200, some 200, some 502, none, some 502, some 400] ∧
      s.status.changesProcessed + s.status.changesFailed = turns.countP (·.change?.isSome) ∧
      s.status.scansFailed = history.countP (fun e => e.isPass && e.registryFails) ∧
      (∃ e ∈ history, e.answer = some ⟨502, some (.object [("error", .string "bus transport error: closed"),
        ("kind", .string "publish")])⟩ ∧ e.Faithful) ∧
      ∃ e ∈ history, e.answer = some ⟨502, some (.object
        [("error", .string "table registry unavailable: factory call reverted"), ("kind", .string "registry")])⟩ ∧
          e.Faithful := by
  intro clock here scan change turns state history s
  obtain ⟨-, -, hchanges, hfailed, -, -, -, hfaithful⟩ := here.status_folds_history turns none state
  -- The first pass reads three counters and is too late for anything, which leaves the other turns to compute.
  let read : Stage (DeafRecorder × Bus) := { state with reads := 3 }
  let report : ScanReport := ⟨⟨4000, 0⟩, 4000, [⟨"0xa", .ok ⟨"0xa", .pending ⟨.lapsed, 3900⟩, []⟩⟩]⟩
  let recorded : Service (Stage (DeafRecorder × Bus)) := .recordScan here.backend (.ok report) ⟨read, .initial none⟩
  have hpass : TablePass.run here.backend.world clock.moment "0xa" state =
      (.ok ⟨"0xa", .pending ⟨.lapsed, 3900⟩, []⟩, read) := by
    have hnetted : here.backend.world.reply "0xa" .lastHandNetted state =
        (.ok 100, { state with reads := 1 }) := rfl
    have hrequested : here.backend.world.reply "0xa" .requestedHand { state with reads := 1 } =
        (.ok 105, { state with reads := 2 }) := rfl
    have htime : here.backend.world.reply "0xa" .requestTime { state with reads := 2 } = (.ok 100, read) := rfl
    exact TablePass.run_silent hnetted hrequested htime (by decide) (by decide) rfl
  have hscan : Scan.run here.backend.world clock.moment clock.startedAt state = (.ok report, read) := by
    have htables : here.backend.world.tables state = (.ok ["0xa"], state) := rfl
    rw [Scan.run, htables]
    dsimp only
    rw [Scan.lines, hpass]
    rfl
  have htake : scan.take ⟨state, .initial none⟩ =
      ⟨scan, ⟨state, .initial none⟩, some ⟨200, some report.encode⟩, true, recorded⟩ := by
    rw [Turn.take_scan (show scan.scan? = some clock from rfl), hscan]
    rfl
  have hs : s = (here.run turns.tail recorded).2 := by
    change (here.run turns.tail (scan.take _).after).2 = _
    rw [htake]
  have hanswers : history.map (·.answer) =
      some ⟨200, some report.encode⟩ :: (here.run turns.tail recorded).1.map (·.answer) := by
    change (scan.take _).answer :: (here.run turns.tail (scan.take _).after).1.map (·.answer) = _
    rw [htake]
  have hcodes : history.map (fun e => e.answer.map (·.code)) = (history.map (·.answer)).map (Option.map (·.code)) := by
    rw [List.map_map]
    rfl
  have hlater (r : HttpResponse) (hr : some r ∈ (here.run turns.tail recorded).1.map (·.answer)) :
      ∃ e ∈ history, e.answer = some r ∧ e.Faithful := by
    have hmem : some r ∈ history.map (·.answer) := by
      rw [hanswers]
      exact List.mem_cons_of_mem _ hr
    obtain ⟨e, he, hanswer⟩ := List.mem_map.1 hmem
    exact ⟨e, he, hanswer, hfaithful e he⟩
  refine ⟨by rw [hs]; decide +kernel, by rw [hs]; decide +kernel, ?_, hchanges, hfailed,
    hlater _ (by decide +kernel), hlater _ (by decide +kernel)⟩
  rw [hcodes, hanswers]
  decide +kernel

end Stage

end TableEscrow
