import TableEscrow.Config.Error
import TableEscrow.Json.Decode
/-!
# Timing thresholds

Whole seconds that ages are compared with. `validate` refuses thresholds that are not positive or are
out of order.
-/

namespace TableEscrow

structure Thresholds where
  /-- A request is disputed only when it is older than this. -/
  disputeReactAfter : Int64
  /-- A request of this age is past its dispute window. -/
  disputeWindow : Int64
  /-- A request of this age has lapsed. -/
  settlementGrace : Int64
  /-- A seat that sits out longer than this is kicked. -/
  kickAfter : Int64
  /-- A hand unchanged for this long is left alone. -/
  handStaleAfter : Int64
  deriving DecidableEq, Repr

namespace Thresholds

def standard : Thresholds := ⟨180, 600, 3600, 300, 3600⟩

/-- The thresholds with their names. -/
def named (t : Thresholds) : List (String × Int64) :=
  [("dispute_react_after_secs", t.disputeReactAfter), ("dispute_window_secs", t.disputeWindow),
    ("settlement_grace_secs", t.settlementGrace), ("kick_after_secs", t.kickAfter),
    ("hand_stale_after_secs", t.handStaleAfter)]

/-- All are positive, and a request is disputed before its window closes and its window closes
before it lapses. -/
def validate (t : Thresholds) : Except ConfigError Unit :=
  match t.named.find? (·.2 ≤ 0) with
  | some (name, value) => .error (.notPositive name value)
  | none =>
    if t.disputeWindow ≤ t.disputeReactAfter then
      .error (.notBelow "dispute_react_after_secs" t.disputeReactAfter "dispute_window_secs" t.disputeWindow)
    else if t.settlementGrace ≤ t.disputeWindow then
      .error (.notBelow "dispute_window_secs" t.disputeWindow "settlement_grace_secs" t.settlementGrace)
    else .ok ()

theorem pos_of_validate {t : Thresholds} (h : t.validate = .ok ()) : ∀ p ∈ t.named, 0 < p.2 := by
  unfold validate at h
  split at h
  · cases h
  · next hnone =>
    intro p hp
    simpa using List.find?_eq_none.1 hnone p hp

open Decode in
def record : Record Thresholds :=
  Thresholds.mk <$> .withDefault "dispute_react_after_secs" standard.disputeReactAfter int64
    <*> .withDefault "dispute_window_secs" standard.disputeWindow int64
    <*> .withDefault "settlement_grace_secs" standard.settlementGrace int64
    <*> .withDefault "kick_after_secs" standard.kickAfter int64
    <*> .withDefault "hand_stale_after_secs" standard.handStaleAfter int64

def decode : Decoder Thresholds := record.decode "thresholds"

def encode (t : Thresholds) : Json := .object (t.named.map fun (name, value) => (name, .integer value))

end Thresholds

end TableEscrow
