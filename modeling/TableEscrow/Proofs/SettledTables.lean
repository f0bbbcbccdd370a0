import Mathlib.Data.List.Basic
import TableEscrow.Proofs.Overflow
/-!
# Settled tables

A decision on a table without an outstanding request compares two cutoffs with the same clock, in
opposite directions: a seat is evicted when it sits out since before one of them, and a hand is
recent when it changed after the other. `SettledDecision.Exact` says what is decided, and as the
clock goes on there are only more seats to evict and only fewer hands that are recent
(`SettledDecision.exact_and_monotone`).
-/

namespace TableEscrow

theorem Seat.satOutBefore_iff {s : Seat} {cutoff : Int64} :
    s.satOutBefore cutoff = true ↔ ∃ second, s.sitout = some second ∧ second.toInt < cutoff.toInt := by
  unfold Seat.satOutBefore
  cases s.sitout <;> simp [Int64.lt_iff_toInt_lt]

theorem Seat.satOutBefore_mono {s : Seat} {cutoff cutoff' : Int64} (hle : cutoff.toInt ≤ cutoff'.toInt)
    (h : s.satOutBefore cutoff = true) : s.satOutBefore cutoff' = true := by
  obtain ⟨second, hsitout, hlt⟩ := Seat.satOutBefore_iff.1 h
  exact Seat.satOutBefore_iff.2 ⟨second, hsitout, by omega⟩

theorem Hand.hasPlayer_iff {h : Hand} :
    h.hasPlayer = true ↔ ∃ seat ∈ h.lineup, seat.address ≠ "" ∧ seat.address ≠ Seat.emptyAddress := by
  simp [Hand.hasPlayer, Seat.isEmpty]

/-- The hand changed strictly after the staleness cutoff. -/
def Hand.Recent (hand : Hand) (now : Int64) (t : Thresholds) : Prop :=
  now.toInt - t.handStaleAfter.toInt < hand.changed.toInt

theorem Hand.recent_anti {hand : Hand} {now now' : Int64} {t : Thresholds} (hle : now ≤ now')
    (h : hand.Recent now' t) : hand.Recent now t := by
  have := Int64.le_iff_toInt_le.1 hle
  unfold Hand.Recent at *
  omega

namespace SettledDecision

/-! ## The seats to evict -/

/-- Positions of the seats that sit out since before `cutoff`, counting from `position`. -/
def positions (cutoff : Int64) (position : Nat) (seats : List Seat) : List Nat :=
  ((seats.zipIdx position).filter (·.1.satOutBefore cutoff)).map (·.2)

variable (cutoff : Int64) (position : Nat) (seats : List Seat)

theorem kicked_eq_positions : kicked cutoff position seats = (positions cutoff position seats).map .ofNat := by
  unfold positions
  induction seats generalizing position with
  | nil => rfl
  | cons seat rest ih =>
    rw [kicked, List.zipIdx_cons, List.filter_cons, ih]
    split <;> rfl

/-- They are some of the positions there are, in order. -/
theorem positions_sublist_range : (positions cutoff position seats).Sublist (List.range' position seats.length) := by
  rw [← List.zipIdx_map_snd]
  exact List.filter_sublist.map _

theorem positions_ascending : (positions cutoff position seats).Pairwise (· < ·) :=
  (List.pairwise_lt_range' ..).sublist (positions_sublist_range cutoff position seats)

variable {cutoff} {seats}

theorem mem_positions {p : Nat} :
    p ∈ positions cutoff 0 seats ↔
      ∃ seat second, seats[p]? = some seat ∧ seat.sitout = some second ∧ second.toInt < cutoff.toInt := by
  simp [positions, List.mk_mem_zipIdx_iff_getElem?, Seat.satOutBefore_iff]

theorem kicked_sublist {cutoff' : Int64} (hle : cutoff.toInt ≤ cutoff'.toInt) :
    (kicked cutoff position seats).Sublist (kicked cutoff' position seats) := by
  rw [kicked_eq_positions, kicked_eq_positions]
  exact ((List.monotone_filter_right _ fun _ => Seat.satOutBefore_mono hle).map _).map _

theorem lt_length_of_mem_positions {p : Nat} (h : p ∈ positions cutoff 0 seats) : p < seats.length := by
  obtain ⟨_, _, hseat, -⟩ := mem_positions.1 h
  exact (List.getElem?_eq_some_iff.1 hseat).1

section Words

variable (hlength : seats.length ≤ 18446744073709551616)
include hlength

/-- Every position of such a lineup is a word. -/
theorem toNat_of_mem_positions {p : Nat} (h : p ∈ positions cutoff 0 seats) : (UInt64.ofNat p).toNat = p := by
  rw [UInt64.toNat_ofNat']
  exact Nat.mod_eq_of_lt (Nat.lt_of_lt_of_le (lt_length_of_mem_positions h) hlength)

theorem kicked_ascending : (kicked cutoff 0 seats).Pairwise (· < ·) := by
  rw [kicked_eq_positions, List.pairwise_map]
  -- Positions that are words keep their order as words.
  refine (positions_ascending cutoff 0 seats).imp_of_mem fun hp hq hlt => ?_
  rwa [UInt64.lt_iff_toNat_lt, toNat_of_mem_positions hlength hp, toNat_of_mem_positions hlength hq]

theorem mem_kicked {p : UInt64} :
    p ∈ kicked cutoff 0 seats ↔
      ∃ seat second, seats[p.toNat]? = some seat ∧ seat.sitout = some second ∧ second.toInt < cutoff.toInt := by
  rw [kicked_eq_positions, List.mem_map, ← mem_positions]
  constructor
  · rintro ⟨q, hq, rfl⟩
    rwa [toNat_of_mem_positions hlength hq]
  · intro hp
    exact ⟨p.toNat, hp, UInt64.ofNat_toNat⟩

end Words

/-! ## What is decided -/

/-- Somebody asked the contract for leave from a table whose last hand is recent. -/
def SettlementDue (hand : Hand) (lineup : ChainLineup) (now : Int64) (t : Thresholds) : Prop :=
  hand.Recent now t ∧ ∃ seat ∈ lineup.seats, 0 < seat.exitHand

/-- Nothing this decision computes leaves its word. -/
structure Computable (status : NettingStatus) (hand : Hand) (lineup : ChainLineup) (now : Int64)
    (t : Thresholds) : Prop where
  kickCutoff : Word.Signed (now.toInt - t.kickAfter.toInt)
  staleCutoff : Word.Signed (now.toInt - t.handStaleAfter.toInt)
  nextHand : SettlementDue hand lineup now t → status.lastHandNetted.toNat < 18446744073709551615

/-- What a decision is, from the table alone. -/
structure Exact (status : NettingStatus) (hand : Hand) (lineup : ChainLineup) (now : Int64) (t : Thresholds)
    (d : SettledDecision) : Prop where
  /-- A lineup too long for its positions to be words keeps its order, and its positions are cut to words. -/
  kick : ∃ positions : List Nat, positions.Pairwise (· < ·) ∧ d.kick = positions.map .ofNat ∧
    ∀ p, p ∈ positions ↔ ∃ seat second, hand.lineup[p]? = some seat ∧ seat.sitout = some second ∧
      second.toInt < now.toInt - t.kickAfter.toInt
  kickWords : hand.lineup.length ≤ 18446744073709551616 → d.kick.Pairwise (· < ·) ∧
    ∀ p, p ∈ d.kick ↔ ∃ seat second, hand.lineup[p.toNat]? = some seat ∧ seat.sitout = some second ∧
      second.toInt < now.toInt - t.kickAfter.toInt
  timeout : d.timeout = true ↔
    hand.Recent now t ∧ ∃ seat ∈ hand.lineup, seat.address ≠ "" ∧ seat.address ≠ Seat.emptyAddress
  nettingRequest : ∀ next, d.nettingRequest = some next ↔
    SettlementDue hand lineup now t ∧ next.toNat = status.lastHandNetted.toNat + 1
  noRequest : d.nettingRequest = none ↔ ¬ SettlementDue hand lineup now t

variable {status : NettingStatus} {hand : Hand} {lineup : ChainLineup} {now now' : Int64} {t : Thresholds}
  {d d' : SettledDecision}

theorem settlementDue_anti (hle : now ≤ now') (h : SettlementDue hand lineup now' t) :
    SettlementDue hand lineup now t :=
  ⟨Hand.recent_anti hle h.1, h.2⟩

theorem due_iff {stale : Int64} (hstale : Word.difference now t.handStaleAfter = .ok stale) :
    (stale < hand.changed ∧ lineup.anyExitRequest = true) ↔ SettlementDue hand lineup now t := by
  rw [SettlementDue, Hand.Recent, Int64.lt_iff_toInt_lt, Word.difference_eq_ok hstale, ChainLineup.anyExitRequest_iff]

theorem exists_ofTable_iff :
    (∃ d, ofTable status hand lineup now t = .ok d) ↔ Computable status hand lineup now t := by
  constructor
  · rintro ⟨d, hd⟩
    obtain ⟨satOut, stale, hkick, hstale, -, -, hrequest⟩ := ofTable_eq_ok_iff.1 hd
    refine ⟨Word.exists_difference_iff.1 ⟨_, hkick⟩, Word.exists_difference_iff.1 ⟨_, hstale⟩, fun hdue => ?_⟩
    rw [if_pos ((due_iff hstale).2 hdue)] at hrequest
    obtain ⟨next, hnext, -⟩ := hrequest
    have := Word.successor_eq_ok hnext
    have := next.toNat_lt
    omega
  · rintro ⟨hkick, hstale, hnext⟩
    obtain ⟨satOut, hkick⟩ := Word.exists_difference_iff.2 hkick
    obtain ⟨stale, hstale⟩ := Word.exists_difference_iff.2 hstale
    -- All that is left to compute is the next hand, and only where it is asked for.
    by_cases hdue : SettlementDue hand lineup now t
    · obtain ⟨next, hsucc⟩ : ∃ next, Word.successor status.lastHandNetted = .ok next := by
        cases h : Word.successor status.lastHandNetted with
        | ok next => exact ⟨next, rfl⟩
        | error o => exact absurd (Word.successor_eq_error.1 h).2 (Nat.ne_of_lt (hnext hdue))
      refine ⟨⟨_, _, some next⟩, ofTable_eq_ok_iff.2 ⟨satOut, stale, hkick, hstale, rfl, rfl, ?_⟩⟩
      rw [if_pos ((due_iff hstale).2 hdue)]
      exact ⟨next, hsucc, rfl⟩
    · refine ⟨⟨_, _, none⟩, ofTable_eq_ok_iff.2 ⟨satOut, stale, hkick, hstale, rfl, rfl, ?_⟩⟩
      rw [if_neg (mt (due_iff hstale).1 hdue)]

theorem exact_of_ofTable (h : ofTable status hand lineup now t = .ok d) : Exact status hand lineup now t d := by
  obtain ⟨satOut, stale, hkick, hstale, hpositions, htimeout, hrequest⟩ := ofTable_eq_ok_iff.1 h
  have hsat := Word.difference_eq_ok hkick
  refine ⟨⟨positions satOut 0 hand.lineup, positions_ascending .., ?_, ?_⟩, ?_, ?_, ?_, ?_⟩
  · rw [hpositions, kicked_eq_positions]
  · intro p
    rw [mem_positions, hsat]
  · intro hlength
    rw [hpositions, ← hsat]
    exact ⟨kicked_ascending hlength, fun p => mem_kicked hlength⟩
  · rw [htimeout, Bool.and_eq_true, decide_eq_true_iff, Hand.hasPlayer_iff, Hand.Recent, Int64.lt_iff_toInt_lt,
      Word.difference_eq_ok hstale]
  · intro next
    by_cases hdue : SettlementDue hand lineup now t
    · rw [if_pos ((due_iff hstale).2 hdue)] at hrequest
      obtain ⟨next', hnext, hsome⟩ := hrequest
      have hnumber := Word.successor_eq_ok hnext
      rw [hsome, Option.some.injEq, ← UInt64.toNat_inj]
      exact ⟨fun heq => ⟨hdue, by omega⟩, fun heq => by omega⟩
    · rw [if_neg (mt (due_iff hstale).1 hdue)] at hrequest
      rw [hrequest]
      exact ⟨nofun, fun h => absurd h.1 hdue⟩
  · by_cases hdue : SettlementDue hand lineup now t
    · rw [if_pos ((due_iff hstale).2 hdue)] at hrequest
      obtain ⟨next, -, hsome⟩ := hrequest
      simp [hsome, hdue]
    · rw [if_neg (mt (due_iff hstale).1 hdue)] at hrequest
      exact iff_of_true hrequest hdue

/-- As the clock goes on, more seats are evicted, and nothing else begins to be called for. -/
theorem monotone_of_ofTable (hle : now ≤ now') (h : ofTable status hand lineup now t = .ok d)
    (h' : ofTable status hand lineup now' t = .ok d') :
    d.kick.Sublist d'.kick ∧ (d'.timeout = true → d.timeout = true) ∧
      ∀ next, d'.nettingRequest = some next → d.nettingRequest = some next := by
  have hexact := exact_of_ofTable h
  have hexact' := exact_of_ofTable h'
  refine ⟨?_, fun htimeout => ?_, fun next hnext => ?_⟩
  · obtain ⟨satOut, -, hkick, -, hpositions, -⟩ := ofTable_eq_ok_iff.1 h
    obtain ⟨satOut', -, hkick', -, hpositions', -⟩ := ofTable_eq_ok_iff.1 h'
    rw [hpositions, hpositions']
    have := Int64.le_iff_toInt_le.1 hle
    have := Word.difference_eq_ok hkick
    have := Word.difference_eq_ok hkick'
    exact kicked_sublist 0 (by omega)
  · obtain ⟨hrecent, hplayer⟩ := hexact'.timeout.1 htimeout
    exact hexact.timeout.2 ⟨Hand.recent_anti hle hrecent, hplayer⟩
  · obtain ⟨hdue, hnumber⟩ := (hexact'.nettingRequest next).1 hnext
    exact (hexact.nettingRequest next).2 ⟨settlementDue_anti hle hdue, hnumber⟩

/-- A settled table is decided on just where nothing leaves its word, and what is decided is exact. As
the clock goes on, the kicks only grow; a timeout or a request that is still called for was called for before. -/
theorem exact_and_monotone (status : NettingStatus) (hand : Hand) (lineup : ChainLineup) (t : Thresholds) :
    (∀ now, (∃ d, ofTable status hand lineup now t = .ok d) ↔ Computable status hand lineup now t) ∧
      (∀ now d, ofTable status hand lineup now t = .ok d → Exact status hand lineup now t d) ∧
      ∀ now now' d d', now ≤ now' → ofTable status hand lineup now t = .ok d →
        ofTable status hand lineup now' t = .ok d' →
          d.kick.Sublist d'.kick ∧ (d'.timeout = true → d.timeout = true) ∧
            ∀ next, d'.nettingRequest = some next → d.nettingRequest = some next :=
  ⟨fun _ => exists_ofTable_iff, fun _ _ => exact_of_ofTable, fun _ _ _ _ => monotone_of_ofTable⟩

/-- An hour later the seat that was playing is evicted too, and the hand is too old for the rest. -/
theorem exact_and_monotone_an_hour_later :
    let status : NettingStatus := ⟨6, 0, 0⟩
    let seats : List Seat := [⟨"0xaa", 500, some 1000, none, none⟩, .empty, ⟨"0xbb", 500, some 1300, none, none⟩]
    let hand : Hand := { Hand.start "0xa" 7 .river 1200 with lineup := seats }
    let lineup : ChainLineup := ⟨6, [⟨"0xaa", 500, 7⟩]⟩
    let d : SettledDecision := ⟨[0], true, some 7⟩
    let d' : SettledDecision := ⟨[0, 2], false, none⟩
    (1500 : Int64) ≤ 5100 ∧ ofTable status hand lineup 1500 .standard = .ok d ∧
      ofTable status hand lineup 5100 .standard = .ok d' ∧ Exact status hand lineup 1500 .standard d ∧
      d.kick.Sublist d'.kick := by
  intro status seats hand lineup d d'
  have hle : (1500 : Int64) ≤ 5100 := by decide
  have h : ofTable status hand lineup 1500 .standard = .ok d := rfl
  have h' : ofTable status hand lineup 5100 .standard = .ok d' := rfl
  obtain ⟨-, hexact, hmonotone⟩ := exact_and_monotone status hand lineup .standard
  exact ⟨hle, h, h', hexact 1500 d h, (hmonotone 1500 5100 d d' hle h h').1⟩

end SettledDecision

end TableEscrow
