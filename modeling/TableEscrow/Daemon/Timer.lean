import TableEscrow.Daemon.Service
/-!
# Timers

The daemon's two background tasks. A heartbeat makes up for every tick it missed; a pass does not:
one that is more than five milliseconds late counts its interval from when it ran.
-/

namespace TableEscrow.Daemon

inductive Task where
  | heartbeat
  | scan
  deriving DecidableEq, Repr

/-- A task that runs at intervals; times are in milliseconds. -/
structure Timer where
  task : Task
  interval : Nat
  deadline : Nat
  deriving DecidableEq, Repr

namespace Timer

/-- How late a tick may be without being a missed one. -/
def tolerance : Nat := 5

/-- The deadline after a tick at `now`. -/
def following (t : Timer) (now : Nat) : Nat :=
  match t.task with
  | .heartbeat => t.deadline + t.interval
  | .scan => if t.deadline + tolerance < now then now + t.interval else t.deadline + t.interval

end Timer

/-- The running tasks, in the order in which they went to sleep. -/
structure Schedule where
  now : Nat
  timers : List Timer

namespace Schedule

variable {σ : Type}

/-- Runs a task once; none if it ended. -/
def runTask (backend : Backend σ) (m : Moment) (startedAt : Instant) (millis : Int64) (task : Task)
    (s : Service σ) : Bool × Service σ :=
  match task with
  | .heartbeat => (true, { s with state := backend.onBus (·.send (.heartbeat millis)) s.state })
  | .scan =>
    match s.scan backend m startedAt with
    | (.error (.overflow _), s) => (false, s)
    | (_, s) => (true, s)

/-- Runs a timer until its deadline is ahead; none once its task has ended. Every run moves the
deadline by an interval at least. -/
def runTimer (run : Task → Service σ → Bool × Service σ) (now fuel : Nat) (t : Timer) (s : Service σ) :
    Option Timer × Service σ :=
  match fuel with
  | 0 => (some t, s)
  | fuel + 1 =>
    if t.deadline ≤ now then
      match run t.task s with
      | (true, s) => runTimer run now fuel { t with deadline := t.following now } s
      | (false, s) => (none, s)
    else (some t, s)

/-- Runs the timers that are due, the earliest deadline first. -/
def runDue (run : Task → Service σ → Bool × Service σ) (c : Schedule) (s : Service σ) :
    Schedule × Service σ :=
  let (due, waiting) := c.timers.partition (·.deadline ≤ c.now)
  let (ran, s) := (due.mergeSort (·.deadline ≤ ·.deadline)).foldl (fun (ran, s) t =>
    let (t, s) := runTimer run c.now (c.now + 1) t s
    (ran ++ t.toList, s)) (([] : List Timer), s)
  ({ c with timers := waiting ++ ran }, s)

/-- Starts a task, which ticks at once; an interval of nothing never ticks. -/
def start (run : Task → Service σ → Bool × Service σ) (task : Task) (interval : Nat) (c : Schedule)
    (s : Service σ) : Schedule × Service σ :=
  if interval = 0 then (c, s)
  else runDue run { c with timers := c.timers ++ [⟨task, interval, c.now⟩] } s

def advance (run : Task → Service σ → Bool × Service σ) (millis : Nat) (c : Schedule) (s : Service σ) :
    Schedule × Service σ :=
  runDue run { c with now := c.now + millis } s

end Schedule

end TableEscrow.Daemon
