import TableEscrow.Chain
import TableEscrow.Reconcile.Thresholds
import TableEscrow.Event
import TableEscrow.Hand
/-!
# Decisions

What to do about a table, from its counters, its last hand and its contract seats at one second.
The decisions read no clock and send nothing.
-/

namespace TableEscrow

/-- What an outstanding request calls for, by its age. -/
inductive PendingVerdict where
  /-- Receipts may still be on their way. -/
  | tooEarly
  /-- The dispute window is open. -/
  | handleDispute
  /-- The dispute window is closed, and the request still counts. -/
  | progressNetting
  /-- Too old to go on without an operator. -/
  | lapsed
  deriving DecidableEq, Repr

namespace PendingVerdict

def name : PendingVerdict → String
  | .tooEarly => "TooEarly"
  | .handleDispute => "HandleDispute"
  | .progressNetting => "ProgressNetting"
  | .lapsed => "Lapsed"

def ofAge (t : Thresholds) (age : Int64) : PendingVerdict :=
  if t.disputeWindow ≤ age then
    if age < t.settlementGrace then .progressNetting else .lapsed
  else if t.disputeReactAfter < age then .handleDispute
  else .tooEarly

def event? (v : PendingVerdict) (table : String) (status : NettingStatus) : Option ControlEvent :=
  match v with
  | .handleDispute => some (.handleDispute table status.lastHandNetted status.requestedHand)
  | .progressNetting => some (.progressNetting table)
  | .tooEarly | .lapsed => none

end PendingVerdict

structure PendingDecision where
  verdict : PendingVerdict
  age : Int64
  deriving DecidableEq, Repr

namespace PendingDecision

def ofStatus (status : NettingStatus) (now : Int64) (t : Thresholds) : Except Overflow PendingDecision :=
  match status.requestAge now with
  | .ok age => .ok ⟨.ofAge t age, age⟩
  | .error o => .error o

end PendingDecision

/-- What a table without an outstanding request calls for. -/
structure SettledDecision where
  /-- Positions of the seats to evict, ascending. -/
  kick : List UInt64
  timeout : Bool
  /-- The hand to request a settlement for. -/
  nettingRequest : Option UInt64
  deriving DecidableEq, Repr

namespace SettledDecision

/-- Positions of the seats that sit out since before `cutoff`, counting from `position`. -/
def kicked (cutoff : Int64) (position : Nat) : List Seat → List UInt64
  | [] => []
  | s :: rest =>
    if s.satOutBefore cutoff then .ofNat position :: kicked cutoff (position + 1) rest
    else kicked cutoff (position + 1) rest

def ofTable (status : NettingStatus) (hand : Hand) (lineup : ChainLineup) (now : Int64) (t : Thresholds) :
    Except Overflow SettledDecision := do
  let satOut ← Word.difference now t.kickAfter
  let stale ← Word.difference now t.handStaleAfter
  let recent := decide (stale < hand.changed)
  let nettingRequest ←
    if recent && lineup.anyExitRequest then (Word.successor status.lastHandNetted).map some
    else .ok none
  return ⟨kicked satOut 0 hand.lineup, recent && hand.hasPlayer, nettingRequest⟩

def isNoop (d : SettledDecision) : Bool := d.kick.isEmpty && !d.timeout && d.nettingRequest.isNone

/-- Kicks first, then the timeout, then the request. -/
def events (d : SettledDecision) (table : String) : List ControlEvent :=
  d.kick.map (.kick table) ++ (if d.timeout then [.timeout table] else []) ++
    (d.nettingRequest.map (.tableNettingRequest table)).toList

end SettledDecision

end TableEscrow
