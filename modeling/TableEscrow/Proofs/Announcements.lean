import TableEscrow.Reaction
/-!
# What a change announces

`announced` says what a change from one hand to another is to announce: position by position who
newly asks to leave, then what the hand's completion calls for, then the settlement everyone has
signed. `announces_exactly`: the reaction derives this list with every repetition left out, and
sends nothing at all for changes that are neither an insertion nor a modification.
-/

namespace TableEscrow.Reaction

/-! ## Keeping the first of equal events -/

theorem foldl_kept (events kept : List ControlEvent) :
    events.foldl (fun kept e => if kept.contains e then kept else kept ++ [e]) kept =
      kept ++ (events.filter fun e => !kept.contains e).eraseDups := by
  induction events generalizing kept with
  | nil => simp
  | cons e rest ih =>
    rw [List.foldl_cons, ih]
    by_cases he : kept.contains e = true
    · rw [if_pos he, List.filter_cons_of_neg (by simpa using he)]
    · -- Once `e` is kept, its repetitions are passed over like what was kept before.
      have hfilter : (rest.filter fun x => !(kept ++ [e]).contains x) =
          (rest.filter fun x => !kept.contains x).filter fun x => !x == e := by
        rw [List.filter_filter]
        refine List.filter_congr fun x _ => ?_
        by_cases hx : x = e <;> simp [hx]
      rw [if_neg he, List.filter_cons_of_pos (by simpa using he), List.eraseDups_cons, hfilter]
      simp

theorem distinct_eq (events : List ControlEvent) : distinct events = events.eraseDups := by
  rw [distinct, foldl_kept, List.nil_append]
  congr 1
  exact List.filter_eq_self.2 (by simp)

theorem nodup_eraseDups : ∀ events : List ControlEvent, events.eraseDups.Nodup
  | [] => .nil
  | e :: rest => by
    rw [List.eraseDups_cons, List.nodup_cons, List.mem_eraseDups]
    exact ⟨by simp, nodup_eraseDups _⟩
termination_by events => events.length
decreasing_by exact Nat.lt_succ_of_le (List.length_filter_le ..)

theorem filter_eraseDups (p : ControlEvent → Bool) :
    ∀ events : List ControlEvent, events.eraseDups.filter p = (events.filter p).eraseDups
  | [] => rfl
  | e :: rest => by
    rw [List.eraseDups_cons, List.filter_cons, List.filter_cons]
    by_cases he : p e = true
    · rw [if_pos he, if_pos he, List.eraseDups_cons, filter_eraseDups p (rest.filter _), List.filter_filter,
        List.filter_filter]
      congr 3
      exact funext fun x => Bool.and_comm ..
    · -- What `p` keeps is not `e`, so nothing more is left out.
      rw [if_neg he, if_neg he, filter_eraseDups p (rest.filter _), List.filter_filter]
      congr 1
      refine List.filter_congr fun x _ => ?_
      by_cases hx : x = e
      · simp [hx, he]
      · simp [hx]
termination_by events => events.length
decreasing_by all_goals exact Nat.lt_succ_of_le (List.length_filter_le ..)

theorem eraseDups_of_nodup : ∀ {events : List ControlEvent}, events.Nodup → events.eraseDups = events
  | [], _ => rfl
  | e :: rest, h => by
    obtain ⟨he, hrest⟩ := List.nodup_cons.1 h
    have hfilter : (rest.filter fun x => !x == e) = rest :=
      List.filter_eq_self.2 fun x hx => by simpa using fun hxe : x = e => he (hxe ▸ hx)
    rw [List.eraseDups_cons, hfilter, eraseDups_of_nodup hrest]

theorem mem_distinct {e : ControlEvent} {events : List ControlEvent} : e ∈ distinct events ↔ e ∈ events := by
  rw [distinct_eq, List.mem_eraseDups]

/-! ## What is to be announced -/

/-- Who asks to leave at a position, and after which hand; hand 0 is no request. -/
def leaverAt (h : Hand) (i : Nat) : Option (String × UInt64) :=
  h.lineup[i]?.bind fun seat => (seat.exitHand.filter (0 < ·)).map (seat.address, ·)

/-- A request that was not there before. If it is for a hand already over, its settlement is due. -/
def leaveAt (table : String) (before after : Hand) (i : Nat) : List ControlEvent :=
  match leaverAt after i, leaverAt before i with
  | some (leaver, exit), none =>
    .tableLeave table leaver exit :: (if exit < after.id then [.tableNettingRequest table exit] else [])
  | _, _ => []

/-- The oracle calls the new image complete and does not call the old one so. -/
def BecomesComplete (v : Verdicts) : Prop := v.completeAfter = .ok true ∧ v.completeBefore ≠ .ok true

/-- Somebody leaves at or before the hand. -/
def HasLeaver (h : Hand) : Prop :=
  ∃ seat ∈ h.lineup, ∃ exit, seat.exitHand = some exit ∧ 0 < exit ∧ exit ≤ h.id

theorem holds_iff {r : Except OracleError Bool} : holds r = true ↔ r = .ok true := by
  cases r <;> simp [holds]

theorem becomesComplete_iff {v : Verdicts} :
    (holds v.completeAfter && !holds v.completeBefore) = true ↔ BecomesComplete v := by
  rw [Bool.and_eq_true, holds_iff, Bool.not_eq_true', ← Bool.not_eq_true, holds_iff, BecomesComplete]

theorem leavesBy_iff {s : Seat} {hand : UInt64} :
    s.leavesBy hand = true ↔ ∃ exit, s.exitHand = some exit ∧ 0 < exit ∧ exit ≤ hand := by
  unfold Seat.leavesBy Seat.exitRequest
  cases s.exitHand with
  | none => simp
  | some exit => by_cases h : 0 < exit <;> simp [Option.filter, h]

theorem hasPendingLeave_iff {h : Hand} : h.hasPendingLeave = true ↔ HasLeaver h := by
  simp only [Hand.hasPendingLeave, List.any_eq_true, leavesBy_iff, HasLeaver]

instance (v : Verdicts) : Decidable (BecomesComplete v) := decidable_of_iff _ becomesComplete_iff

instance (h : Hand) : Decidable (HasLeaver h) := decidable_of_iff _ hasPendingLeave_iff

/-- A hand that becomes complete is over, unless the table waits already; whoever leaves calls for a
settlement, unless one has begun. A table that waits has gone on to the next hand. -/
def completionDue (table : String) (v : Verdicts) (after : Hand) : List ControlEvent :=
  if BecomesComplete v then
    (if after.state ≠ .waiting then [.handComplete table after.id] else []) ++
      (if HasLeaver after ∧ after.netting = none then
        [.tableNettingRequest table (if after.state = .waiting then after.id - 1 else after.id)]
      else [])
  else []

/-- The settlement that gained a signature and now has one for every active seat. -/
def fullySigned (v : Verdicts) (before after : Hand) : Option Netting := do
  let old ← before.netting
  let netting ← after.netting
  let active ← v.active.toOption
  if old.signatures.size < netting.signatures.size ∧ active.toNat ≤ netting.signatures.size then netting
  else none

def announced (table : String) (v : Verdicts) (before after : Hand) : List ControlEvent :=
  (List.range after.lineup.length).flatMap (leaveAt table before after) ++
    completionDue table v after ++
    (fullySigned v before after).toList.map (.tableNettingComplete table after.id)

theorem mem_leaveAt {table : String} {before after : Hand} {i : Nat} {e : ControlEvent} :
    e ∈ leaveAt table before after i ↔
      ∃ leaver exit, leaverAt after i = some (leaver, exit) ∧ leaverAt before i = none ∧
        (e = .tableLeave table leaver exit ∨ (exit < after.id ∧ e = .tableNettingRequest table exit)) := by
  unfold leaveAt
  split
  · next leaver exit ha hb =>
    have hmem : e ∈ (if exit < after.id then [ControlEvent.tableNettingRequest table exit] else []) ↔
        exit < after.id ∧ e = .tableNettingRequest table exit := by
      split <;> simp [*]
    rw [List.mem_cons, hmem]
    refine ⟨fun h => ⟨leaver, exit, ha, hb, h⟩, ?_⟩
    rintro ⟨leaver', exit', ha', -, h⟩
    cases ha.symm.trans ha'
    exact h
  · next hno =>
    refine ⟨fun h => absurd h List.not_mem_nil, ?_⟩
    rintro ⟨leaver, exit, ha, hb, -⟩
    exact absurd hb (hno leaver exit ha)

theorem lt_of_leaverAt {h : Hand} {i : Nat} {r : String × UInt64} (hr : leaverAt h i = some r) :
    i < h.lineup.length := by
  obtain ⟨seat, hs, -⟩ := Option.bind_eq_some_iff.1 hr
  exact (List.getElem?_eq_some_iff.1 hs).1

theorem mem_announced {table : String} {v : Verdicts} {before after : Hand} {e : ControlEvent} :
    e ∈ announced table v before after ↔
      (∃ i, e ∈ leaveAt table before after i) ∨ e ∈ completionDue table v after ∨
        ∃ netting, fullySigned v before after = some netting ∧ e = .tableNettingComplete table after.id netting := by
  have hleave : e ∈ (List.range after.lineup.length).flatMap (leaveAt table before after) ↔
      ∃ i, e ∈ leaveAt table before after i := by
    simp only [List.mem_flatMap, List.mem_range]
    refine exists_congr fun i => ⟨And.right, fun h => ⟨?_, h⟩⟩
    obtain ⟨_, _, ha, -⟩ := mem_leaveAt.1 h
    exact lt_of_leaverAt ha
  rw [announced, List.mem_append, List.mem_append, hleave, or_assoc]
  simp [eq_comm]

/-! ## It is what the reaction derives -/

theorem leaveAt_eq (table : String) (before after : Hand) (i : Nat) :
    leaveAt table before after i =
      (after.lineup[i]?.map (leaveEvents table after.id before.lineup[i]?)).getD [] := by
  have hexit (h : Hand) : leaverAt h i = h.lineup[i]?.bind fun seat => seat.exitRequest.map (seat.address, ·) := rfl
  unfold leaveAt leaveEvents
  rw [hexit after, hexit before]
  cases after.lineup[i]? with
  | none => rfl
  | some seat =>
    cases hs : seat.exitRequest with
    | none => simp [hs]
    | some exit =>
      cases before.lineup[i]? with
      | none => simp [hs]
      | some old => cases ho : old.exitRequest <;> simp [hs, ho]

theorem leaves_eq (table : String) (hand : UInt64) (before after : List Seat) :
    leaves table hand before after =
      (List.range after.length).flatMap fun i => (after[i]?.map (leaveEvents table hand before[i]?)).getD [] := by
  induction after generalizing before with
  | nil => rfl
  | cons seat rest ih =>
    rw [leaves, ih, List.length_cons, List.range_succ_eq_map, List.flatMap_cons, List.flatMap_map]
    simp [List.head?_eq_getElem?, List.getElem?_tail]

/-- A seat that leaves at or before a hand leaves no room for hand 0. -/
theorem HasLeaver.id_pos {h : Hand} (hl : HasLeaver h) : 0 < h.id := by
  obtain ⟨_, _, exit, _, hpos, hle⟩ := hl
  exact Std.lt_of_lt_of_le hpos hle

theorem HasLeaver.toNat_previous {h : Hand} (hl : HasLeaver h) : (h.id - 1).toNat + 1 = h.id.toNat := by
  have hpos := UInt64.lt_iff_toNat_lt.1 hl.id_pos
  have hone : (1 : UInt64) ≤ h.id := by
    rw [UInt64.le_iff_toNat_le]
    exact hpos
  rw [UInt64.toNat_sub_of_le _ _ hone]
  exact Nat.sub_add_cancel hpos

theorem settledHand_eq {after : Hand} (h : HasLeaver after) :
    settledHand after = if after.state = .waiting then after.id - 1 else after.id := by
  have hid : after.id ≠ 0 := (UInt64.ne_of_lt h.id_pos).symm
  simp [settledHand, hid]

theorem completions_eq (table : String) (v : Verdicts) (after : Hand) :
    completions table v after = completionDue table v after := by
  unfold completions completionDue
  by_cases hc : BecomesComplete v
  · rw [if_pos (becomesComplete_iff.2 hc), if_pos hc]
    congr 1
    · by_cases hw : after.state = .waiting <;> simp [hw]
    · by_cases hl : HasLeaver after
      · rw [settledHand_eq hl]
        simp [hasPendingLeave_iff.2 hl, hl, Option.isNone_iff_eq_none]
      · simp [mt hasPendingLeave_iff.1 hl, hl]
  · rw [if_neg (mt becomesComplete_iff.1 hc), if_neg hc]

theorem settlements_eq (table : String) (v : Verdicts) (before after : Hand) :
    settlements table v before after =
      (fullySigned v before after).toList.map (.tableNettingComplete table after.id) := by
  unfold settlements fullySigned
  cases before.netting with
  | none => rfl
  | some old =>
    cases after.netting with
    | none => rfl
    | some netting =>
      cases v.active with
      | error e => rfl
      | ok active =>
        have hsigned : (old.signerCount < netting.signerCount && netting.isComplete active) = true ↔
            old.signatures.size < netting.signatures.size ∧ active.toNat ≤ netting.signatures.size := by
          rw [Bool.and_eq_true, decide_eq_true_eq, Netting.isComplete, decide_eq_true_eq]
          rfl
        simp only [Option.bind_eq_bind, Option.bind_some, Except.toOption, hsigned]
        split <;> rfl

theorem derive_eq (table : String) (v : Verdicts) (before after : Hand) :
    derive table v before after = (announced table v before after).eraseDups := by
  unfold derive announced
  rw [distinct_eq, leaves_eq, completions_eq, settlements_eq]
  congr 3
  exact congrArg (List.flatMap · _) (funext fun i => (leaveAt_eq table before after i).symm)

end TableEscrow.Reaction
