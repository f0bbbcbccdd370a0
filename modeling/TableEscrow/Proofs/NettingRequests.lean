import TableEscrow.Proofs.Announcements
/-!
# Requests for a settlement

A change asks for a settlement by one of two rules: a seat newly leaves after a hand already over, or
a hand becomes complete and somebody leaves by then. `mem_announced_request` tells them apart. Either
way somebody's leave stands behind the request, the hand it names is not past the one dealt, and no
hand is asked for twice (`requests_justified`).
-/

namespace TableEscrow

/-- The hand an event asks the settlement of. -/
def ControlEvent.requestedHand? : ControlEvent → Option UInt64
  | .tableNettingRequest _ hand => some hand
  | _ => none

theorem ControlEvent.requestedHand?_eq_some {e : ControlEvent} {hand : UInt64} :
    e.requestedHand? = some hand ↔ ∃ table, e = .tableNettingRequest table hand := by
  cases e <;> simp [requestedHand?]

namespace Reaction

/-- Somebody's leave calls for the settlement of `hand`: it is due by then, or the table waits already
and the leave is due after the hand it has gone on to. -/
def LeaverFor (after : Hand) (hand : UInt64) : Prop :=
  ∃ seat ∈ after.lineup, ∃ exit, seat.exitHand = some exit ∧ 0 < exit ∧
    (exit ≤ hand ∨
      (after.state = .waiting ∧ hand.toNat + 1 = after.id.toNat ∧ exit.toNat = hand.toNat + 1))

/-- The request to settle `hand` has its reason in the new image. -/
structure Justified (after : Hand) (hand : UInt64) : Prop where
  dealt : hand ≤ after.id
  leaver : LeaverFor after hand
  /-- Only a table that waits at hand 1 asks for the settlement of hand 0. -/
  zero : hand = 0 → after.state = .waiting ∧ after.id = 1

/-! ## The rules -/

theorem mem_leaveAt_request {t table : String} {before after : Hand} {i : Nat} {hand : UInt64} :
    .tableNettingRequest t hand ∈ leaveAt table before after i ↔
      t = table ∧ ∃ leaver, leaverAt after i = some (leaver, hand) ∧ leaverAt before i = none ∧ hand < after.id := by
  rw [mem_leaveAt]
  constructor
  · rintro ⟨leaver, exit, ha, hb, h | ⟨hlt, h⟩⟩
    · cases h
    · cases h
      exact ⟨rfl, leaver, ha, hb, hlt⟩
  · rintro ⟨rfl, leaver, ha, hb, hlt⟩
    exact ⟨leaver, hand, ha, hb, .inr ⟨hlt, rfl⟩⟩

theorem mem_completionDue_request {t table : String} {v : Verdicts} {after : Hand} {hand : UInt64} :
    .tableNettingRequest t hand ∈ completionDue table v after ↔
      t = table ∧ BecomesComplete v ∧ HasLeaver after ∧ after.netting = none ∧
        hand = if after.state = .waiting then after.id - 1 else after.id := by
  unfold completionDue
  by_cases hc : BecomesComplete v
  · -- The hand itself may be announced too, but that is no request.
    have hother : .tableNettingRequest t hand ∉
        (if after.state ≠ .waiting then [ControlEvent.handComplete table after.id] else []) := by
      split <;> simp
    rw [if_pos hc, List.mem_append, or_iff_right hother]
    by_cases hl : HasLeaver after ∧ after.netting = none
    · simp [hc, hl]
    · rw [if_neg hl]
      exact ⟨nofun, fun ⟨_, _, hleaver, hnone, _⟩ => absurd ⟨hleaver, hnone⟩ hl⟩
  · simp [hc]

/-- The two rules by which a settlement is asked for. -/
theorem mem_announced_request {t table : String} {v : Verdicts} {before after : Hand} {hand : UInt64} :
    .tableNettingRequest t hand ∈ announced table v before after ↔
      t = table ∧
        ((∃ i leaver, leaverAt after i = some (leaver, hand) ∧ leaverAt before i = none ∧ hand < after.id) ∨
          (BecomesComplete v ∧ HasLeaver after ∧ after.netting = none ∧
            hand = if after.state = .waiting then after.id - 1 else after.id)) := by
  simp [mem_announced, mem_leaveAt_request, mem_completionDue_request, and_or_left]

/-! ## Each rule has its reason -/

theorem seat_of_leaverAt {h : Hand} {i : Nat} {leaver : String} {exit : UInt64}
    (hr : leaverAt h i = some (leaver, exit)) : ∃ seat ∈ h.lineup, seat.exitHand = some exit ∧ 0 < exit := by
  obtain ⟨seat, hseat, hmap⟩ := Option.bind_eq_some_iff.1 hr
  obtain ⟨exit', hfilter, hpair⟩ := Option.map_eq_some_iff.1 hmap
  cases hpair
  obtain ⟨hexit, hpos⟩ := Option.filter_eq_some_iff.1 hfilter
  exact ⟨seat, List.mem_of_getElem? hseat, hexit, by simpa using hpos⟩

theorem justified_of_leaverAt {after : Hand} {i : Nat} {leaver : String} {hand : UInt64}
    (hr : leaverAt after i = some (leaver, hand)) (hlt : hand < after.id) : Justified after hand := by
  obtain ⟨seat, hseat, hexit, hpos⟩ := seat_of_leaverAt hr
  refine ⟨UInt64.le_of_lt hlt, ⟨seat, hseat, hand, hexit, hpos, .inl (UInt64.le_refl hand)⟩, ?_⟩
  rintro rfl
  exact absurd hpos (by decide)

theorem justified_of_hasLeaver {after : Hand} (hl : HasLeaver after) :
    Justified after (if after.state = .waiting then after.id - 1 else after.id) := by
  have hprevious := hl.toNat_previous
  have hid := hl.id_pos
  obtain ⟨seat, hseat, exit, hexit, hpos, hle⟩ := hl
  by_cases hw : after.state = .waiting
  · rw [if_pos hw]
    have hle := UInt64.le_iff_toNat_le.1 hle
    refine ⟨?_, ⟨seat, hseat, exit, hexit, hpos, ?_⟩, fun hzero => ⟨hw, ?_⟩⟩
    · rw [UInt64.le_iff_toNat_le]
      omega
    · -- Due by the hand now dealt: at the latest just that one, which the table has gone on to.
      rcases Nat.lt_or_ge exit.toNat after.id.toNat with hbefore | hnow
      · left
        rw [UInt64.le_iff_toNat_le]
        omega
      · exact .inr ⟨hw, hprevious, by omega⟩
    · rw [← UInt64.toNat_inj, ← hprevious, hzero]
      rfl
  · rw [if_neg hw]
    refine ⟨UInt64.le_refl _, ⟨seat, hseat, exit, hexit, hpos, .inl hle⟩, fun hzero => ?_⟩
    exact absurd hzero (UInt64.ne_of_lt hid).symm

theorem justified_of_mem_announced {t table : String} {v : Verdicts} {before after : Hand} {hand : UInt64}
    (h : .tableNettingRequest t hand ∈ announced table v before after) : t = table ∧ Justified after hand := by
  obtain ⟨htable, ⟨i, leaver, hr, -, hlt⟩ | ⟨-, hleaver, -, rfl⟩⟩ := mem_announced_request.1 h
  · exact ⟨htable, justified_of_leaverAt hr hlt⟩
  · exact ⟨htable, justified_of_hasLeaver hleaver⟩

/-! ## A change as a whole -/

theorem announced_of_mem_events {v : Verdicts} {c : HandChange} {e : ControlEvent} (he : e ∈ (ofChange v c).events) :
    ∃ before after, c.kind = .modify ∧ c.before = some before ∧ c.after = some after ∧
      e ∈ announced c.table v before after := by
  obtain ⟨kind, table, hand, before, after⟩ := c
  cases kind <;> cases before <;> cases after <;> try exact absurd he List.not_mem_nil
  next before after =>
    refine ⟨before, after, rfl, rfl, rfl, ?_⟩
    have he : e ∈ derive table v before after := he
    rwa [derive_eq, List.mem_eraseDups] at he

theorem nodup_events (v : Verdicts) (c : HandChange) : (ofChange v c).events.Nodup := by
  obtain ⟨kind, table, hand, before, after⟩ := c
  cases kind <;> cases before <;> cases after <;> try exact .nil
  next before after =>
    show (derive table v before after).Nodup
    rw [derive_eq]
    exact nodup_eraseDups _

/-- All requests of a change are about one table, so they differ in the hand. -/
theorem nodup_requestedHands (v : Verdicts) (c : HandChange) :
    ((ofChange v c).events.filterMap ControlEvent.requestedHand?).Nodup := by
  refine List.pairwise_filterMap.2 ((nodup_events v c).imp_of_mem fun he he' hne => ?_)
  rintro hand hrequest _ hrequest' rfl
  obtain ⟨table, rfl⟩ := ControlEvent.requestedHand?_eq_some.1 hrequest
  obtain ⟨table', rfl⟩ := ControlEvent.requestedHand?_eq_some.1 hrequest'
  obtain ⟨_, _, -, -, -, he⟩ := announced_of_mem_events he
  obtain ⟨_, _, -, -, -, he'⟩ := announced_of_mem_events he'
  exact hne (by rw [(justified_of_mem_announced he).1, (justified_of_mem_announced he').1])

/-- Every request a change gives rise to is about its table and has its reason in the new image, which is
what the request's hand is taken from: a waiting hand that somebody leaves by has a hand before it. No
hand is asked for twice. -/
theorem requests_justified (v : Verdicts) (c : HandChange) :
    (∀ table hand, .tableNettingRequest table hand ∈ (ofChange v c).events →
        table = c.table ∧ ∃ after, c.after = some after ∧ Justified after hand) ∧
      (∀ after : Hand, after.hasPendingLeave = true →
        0 < after.id ∧ (after.state = .waiting → (settledHand after).toNat + 1 = after.id.toNat)) ∧
      ((ofChange v c).events.filterMap ControlEvent.requestedHand?).Nodup := by
  refine ⟨fun table hand h => ?_, fun after h => ?_, nodup_requestedHands v c⟩
  · obtain ⟨before, after, -, -, hafter, he⟩ := announced_of_mem_events h
    obtain ⟨htable, hjustified⟩ := justified_of_mem_announced he
    exact ⟨htable, after, hafter, hjustified⟩
  · have hleaver := hasPendingLeave_iff.1 h
    refine ⟨hleaver.id_pos, fun hwaiting => ?_⟩
    rw [settledHand_eq hleaver, if_pos hwaiting]
    exact hleaver.toNat_previous

/-- A table that waits at hand 1, which somebody leaves after, asks for the settlement of hand 0. -/
theorem requests_justified_before_first_hand :
    let seat : Seat := { Seat.ofAddress "0xaa" 500 with exitHand := some 1 }
    let before : Hand := { Hand.start "0xt" 0 .river 100 with lineup := [seat] }
    let after : Hand := { Hand.start "0xt" 1 .waiting 101 with lineup := [seat] }
    let v : Verdicts := ⟨.ok false, .ok true, .ok 1, .ok .null⟩
    .tableNettingRequest "0xt" 0 ∈ (ofChange v (.modification before after)).events ∧
      ∃ image, (HandChange.modification before after).after = some image ∧ Justified image 0 := by
  intro seat before after v
  have h : .tableNettingRequest "0xt" 0 ∈ (ofChange v (.modification before after)).events := by decide
  exact ⟨h, ((requests_justified v (.modification before after)).1 "0xt" 0 h).2⟩

end Reaction

end TableEscrow
