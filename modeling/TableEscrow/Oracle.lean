import TableEscrow.Hand
/-!
# The game oracle

The rules of the game are not known here. An oracle is asked whether a hand is complete, how many
seats play, and what a hand looks like; it may fail to say.
-/

namespace TableEscrow

inductive OracleError where
  /-- The snapshot makes no sense to the oracle. -/
  | malformed (reason : String)
  | unavailable (reason : String)
  deriving DecidableEq, Repr

namespace OracleError

def message : OracleError → String
  | .malformed reason => s!"oracle rejected snapshot: {reason}"
  | .unavailable reason => s!"oracle unavailable: {reason}"

end OracleError

structure Oracle where
  isComplete : List Seat → UInt64 → HandState → Except OracleError Bool
  activeCount : List Seat → HandState → Except OracleError UInt64
  render : Hand → Except OracleError Json

/-- What an oracle says about one change. -/
structure Verdicts where
  completeBefore : Except OracleError Bool
  completeAfter : Except OracleError Bool
  active : Except OracleError UInt64
  rendered : Except OracleError Json

namespace Oracle

def handIsComplete (o : Oracle) (h : Hand) : Except OracleError Bool :=
  o.isComplete h.lineup h.dealer h.state

/-- The verdicts on a change from one hand to another. -/
def verdicts (o : Oracle) (before after : Hand) : Verdicts where
  completeBefore := o.handIsComplete before
  completeAfter := o.handIsComplete after
  active := o.activeCount after.lineup after.state
  rendered := o.render after

end Oracle

end TableEscrow
