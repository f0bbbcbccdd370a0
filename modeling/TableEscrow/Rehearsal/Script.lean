import TableEscrow.Oracle
/-!
# The scripted oracle

An oracle without rules: a hand is complete in given states, a seat plays when it is occupied and
does not sit out, and each of its answers can be made to fail.
-/

namespace TableEscrow

structure Script where
  completeIn : List HandState
  failCompletion : Bool
  failActive : Bool
  failRender : Bool
  /-- The number of seats that play, whatever the lineup. -/
  active : Option UInt64

namespace Script

def standard : Script := ⟨[.showdown, .waiting], false, false, false, none⟩

def isComplete (s : Script) (lineup : List Seat) (dealer : UInt64) (state : HandState) :
    Except OracleError Bool :=
  if s.failCompletion then .error (.malformed "receipt chain broken")
  else if !lineup.isEmpty && lineup.length ≤ dealer.toNat then
    .error (.malformed s!"dealer {dealer.toNat} out of range")
  else .ok (s.completeIn.contains state)

def activeCount (s : Script) (lineup : List Seat) (_ : HandState) : Except OracleError UInt64 :=
  if s.failActive then .error (.unavailable "active count unavailable")
  else .ok (s.active.getD (.ofNat (lineup.countP fun seat => !seat.isEmpty && seat.sitout.isNone)))

def render (s : Script) (h : Hand) : Except OracleError Json :=
  if s.failRender then .error (.unavailable "renderer down")
  else
    .ok (.object [("handId", .natural h.id), ("seats", .count h.lineup.length),
      ("state", h.state.encode)])

def oracle (s : Script) : Oracle := ⟨s.isComplete, s.activeCount, s.render⟩

end Script

end TableEscrow
