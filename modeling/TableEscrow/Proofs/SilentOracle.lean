import Mathlib.Tactic.ByContra
import TableEscrow.Proofs.NettingRequests
/-!
# When the oracle does not answer

An oracle that fails where another one answers is never to announce more. It does in one case only:
the old image was complete, the question about it fails, and the question about the new image does
not, so a hand that was complete all along seems to become so. `silence_adds_nothing_iff` says
exactly when, and `unanswered_completion_announces` is such a change.
-/

namespace TableEscrow

/-- The same answer, or a failure in its place. -/
def SameOrSilent {α : Type} (silent spoken : Except OracleError α) : Prop :=
  silent = spoken ∨ ∃ e, silent = .error e

/-- Answers every question as `v` does, but for those that fail. -/
structure Verdicts.SameOrSilent (v' v : Verdicts) : Prop where
  completeBefore : TableEscrow.SameOrSilent v'.completeBefore v.completeBefore
  completeAfter : TableEscrow.SameOrSilent v'.completeAfter v.completeAfter
  active : TableEscrow.SameOrSilent v'.active v.active
  rendered : TableEscrow.SameOrSilent v'.rendered v.rendered

theorem SameOrSilent.ok {α : Type} {silent spoken : Except OracleError α} (h : SameOrSilent silent spoken)
    {a : α} (ha : silent = .ok a) : spoken = .ok a := by
  rcases h with rfl | ⟨e, rfl⟩
  · exact ha
  · cases ha

namespace Reaction

/-- The completion of `after` announces something that no leave does: the hand itself, or a request
that nobody's leaving has made. -/
def CompletionTells (before after : Hand) : Prop :=
  after.state ≠ .waiting ∨
    (HasLeaver after ∧ after.netting = none ∧
      ∀ i leaver, leaverAt after i = some (leaver, after.id - 1) → leaverAt before i ≠ none)

/-- A hand that was complete before seems to become complete, because the oracle failed to say that
it was, and this is announced. -/
def SeemsToComplete (v' v : Verdicts) (c : HandChange) : Prop :=
  ∃ before after, c.kind = .modify ∧ c.before = some before ∧ c.after = some after ∧
    v.completeBefore = .ok true ∧ (∃ e, v'.completeBefore = .error e) ∧ v'.completeAfter = .ok true ∧
    CompletionTells before after

/-! ## What silence can add -/

theorem fullySigned_silent {v' v : Verdicts} (h : v'.SameOrSilent v) {before after : Hand} {netting : Netting}
    (hn : fullySigned v' before after = some netting) : fullySigned v before after = some netting := by
  cases ha : v'.active with
  | ok active =>
    unfold fullySigned at hn ⊢
    rw [ha] at hn
    rw [h.active.ok ha]
    exact hn
  | error e =>
    unfold fullySigned at hn
    rw [ha] at hn
    cases hb : before.netting <;> cases hc : after.netting <;> simp [hb, hc, Except.toOption] at hn

theorem completionDue_eq {table : String} {v' v : Verdicts} {after : Hand}
    (h : BecomesComplete v' ↔ BecomesComplete v) :
    completionDue table v' after = completionDue table v after := by
  unfold completionDue
  by_cases hc : BecomesComplete v
  · rw [if_pos hc, if_pos (h.2 hc)]
  · rw [if_neg hc, if_neg (mt h.1 hc)]

/-- The waiting table's request is already made by those who newly leave after the hand before. -/
theorem requested_iff {table : String} {before after : Hand} (hl : HasLeaver after) :
    (∃ i, .tableNettingRequest table (after.id - 1) ∈ leaveAt table before after i) ↔
      ∃ i leaver, leaverAt after i = some (leaver, after.id - 1) ∧ leaverAt before i = none := by
  have hlt : after.id - 1 < after.id := by
    have := hl.toNat_previous
    rw [UInt64.lt_iff_toNat_lt]
    omega
  simp [mem_leaveAt_request, hlt]

/-- Where only the completion is new, it adds nothing if it tells nothing. -/
theorem completion_adds_nothing_iff {table : String} {v' v : Verdicts} {before after : Hand}
    (h' : BecomesComplete v') (h : ¬ BecomesComplete v) :
    (∀ e ∈ completionDue table v' after, e ∈ announced table v before after) ↔ ¬ CompletionTells before after := by
  have hnone : completionDue table v after = [] := if_neg h
  have hrequest : (.tableNettingRequest table (after.id - 1) ∈ announced table v before after) ↔
      ∃ i, .tableNettingRequest table (after.id - 1) ∈ leaveAt table before after i := by
    simp [mem_announced, hnone]
  unfold CompletionTells
  by_cases hw : after.state = .waiting
  · by_cases hl : HasLeaver after ∧ after.netting = none
    · have hdue : completionDue table v' after = [.tableNettingRequest table (after.id - 1)] := by
        simp [completionDue, h', hw, hl]
      simp only [hdue, List.mem_singleton, forall_eq, hrequest, requested_iff hl.1, hw, hl.1, hl.2]
      simp
    · have hdue : completionDue table v' after = [] := by
        simp [completionDue, h', hw, hl]
      simp only [hdue, List.not_mem_nil, false_implies, implies_true, true_iff, hw]
      exact fun h => h.elim (fun hne => hne rfl) fun ⟨h1, h2, _⟩ => hl ⟨h1, h2⟩
  · have hhand : .handComplete table after.id ∈ completionDue table v' after := by
      simp [completionDue, h', hw]
    have hnew : .handComplete table after.id ∉ announced table v before after := by
      rw [mem_announced, hnone]
      rintro (⟨i, hi⟩ | hi | ⟨_, -, hi⟩)
      · obtain ⟨_, _, -, -, hi | ⟨-, hi⟩⟩ := mem_leaveAt.1 hi <;> cases hi
      · cases hi
      · cases hi
    exact ⟨fun hall => absurd (hall _ hhand) hnew, fun hno => absurd (.inl hw) hno⟩

theorem announced_subset_iff {table : String} {v' v : Verdicts} (hs : v'.SameOrSilent v) {before after : Hand}
    (h' : BecomesComplete v') (h : ¬ BecomesComplete v) :
    announced table v' before after ⊆ announced table v before after ↔ ¬ CompletionTells before after := by
  rw [← @completion_adds_nothing_iff table _ _ _ _ h' h]
  constructor
  · exact fun hsub e he => hsub (mem_announced.2 (.inr (.inl he)))
  · intro hall e he
    rcases mem_announced.1 he with hi | hc | ⟨netting, hn, rfl⟩
    · exact mem_announced.2 (.inl hi)
    · exact hall e hc
    · exact mem_announced.2 (.inr (.inr ⟨netting, fullySigned_silent hs hn, rfl⟩))

theorem announced_subset {table : String} {v' v : Verdicts} (hs : v'.SameOrSilent v) {before after : Hand}
    (h : BecomesComplete v' → BecomesComplete v) :
    announced table v' before after ⊆ announced table v before after := by
  intro e he
  rcases mem_announced.1 he with hi | hc | ⟨netting, hn, rfl⟩
  · exact mem_announced.2 (.inl hi)
  · refine mem_announced.2 (.inr (.inl ?_))
    by_cases h' : BecomesComplete v'
    · rwa [completionDue_eq ⟨h, fun _ => h'⟩] at hc
    · rw [completionDue, if_neg h'] at hc
      cases hc
  · exact mem_announced.2 (.inr (.inr ⟨netting, fullySigned_silent hs hn, rfl⟩))

/-- A silent oracle sees a completion another one does not see only where it failed to call the old
image complete. -/
theorem unseen_iff {v' v : Verdicts} (hs : v'.SameOrSilent v) :
    (BecomesComplete v' ∧ ¬ BecomesComplete v) ↔
      v.completeBefore = .ok true ∧ (∃ e, v'.completeBefore = .error e) ∧ v'.completeAfter = .ok true := by
  constructor
  · rintro ⟨⟨ha, hb⟩, hno⟩
    have hbefore : v.completeBefore = .ok true := by
      by_contra hne
      exact hno ⟨hs.completeAfter.ok ha, hne⟩
    refine ⟨hbefore, hs.completeBefore.resolve_left fun he => hb (he.trans hbefore), ha⟩
  · rintro ⟨hb, ⟨e, he⟩, ha⟩
    exact ⟨⟨ha, by rw [he]; simp⟩, fun hc => hc.2 hb⟩

/-! ## When an oracle's silence adds nothing -/

/-- An oracle that fails where another one answers announces nothing that the other one does not,
unless its silence makes a hand that was complete all along seem to become complete. -/
theorem silence_adds_nothing_iff {v' v : Verdicts} (hs : v'.SameOrSilent v) (c : HandChange) :
    (ofChange v' c).events ⊆ (ofChange v c).events ↔ ¬ SeemsToComplete v' v c := by
  by_cases hc : ∃ before after, c.kind = .modify ∧ c.before = some before ∧ c.after = some after
  · obtain ⟨before, after, hk, hb, ha⟩ := hc
    have hevents (u : Verdicts) : (ofChange u c).events = distinct (announced c.table u before after) := by
      simp only [ofChange, hk, hb, ha, derive_eq, distinct_eq]
    have hsub : (ofChange v' c).events ⊆ (ofChange v c).events ↔
        announced c.table v' before after ⊆ announced c.table v before after := by
      simp only [hevents, List.subset_def, mem_distinct]
    have hseems : SeemsToComplete v' v c ↔
        (BecomesComplete v' ∧ ¬ BecomesComplete v) ∧ CompletionTells before after := by
      simp only [SeemsToComplete, hk, hb, ha, unseen_iff hs]
      simp [and_assoc]
    rw [hsub, hseems]
    by_cases hu : BecomesComplete v' ∧ ¬ BecomesComplete v
    · rw [announced_subset_iff hs hu.1 hu.2]
      simp [hu.1, hu.2]
    · refine iff_of_true (announced_subset hs fun h' => ?_) fun h => hu h.1
      by_contra h
      exact hu ⟨h', h⟩
  · -- Nothing is derived, whatever the oracle says.
    have hnil (u : Verdicts) : (ofChange u c).events = [] := by
      obtain ⟨kind, table, hand, before, after⟩ := c
      cases kind <;> cases before <;> cases after <;> first | rfl | exact absurd ⟨_, _, rfl, rfl, rfl⟩ hc
    simp only [hnil, List.Subset.refl, true_iff]
    rintro ⟨before, after, hk, hb, ha, -⟩
    exact hc ⟨before, after, hk, hb, ha⟩

/-- A complete hand is changed while the oracle fails on its old image: the hand is announced as
complete, which an oracle that answers would not have led to. -/
theorem unanswered_completion_announces :
    ¬ ∀ (v' v : Verdicts) (c : HandChange), v'.SameOrSilent v →
      (ofChange v' c).events ⊆ (ofChange v c).events := by
  intro h
  let seat : Seat := .ofAddress "0xaa" 500
  let before : Hand := { Hand.start "0xt" 7 .showdown 100 with dealer := 1, lineup := [seat] }
  let after : Hand := { Hand.start "0xt" 7 .showdown 101 with lineup := [seat] }
  have hsub := h ⟨.error (.malformed "dealer 1 out of range"), .ok true, .ok 1, .ok .null⟩
    ⟨.ok true, .ok true, .ok 1, .ok .null⟩ (.modification before after)
    ⟨.inr ⟨_, rfl⟩, .inl rfl, .inl rfl, .inl rfl⟩
  have hmem : ControlEvent.handComplete "0xt" 7 ∈ ([] : List ControlEvent) := hsub (List.mem_singleton_self _)
  cases hmem

/-- The oracle fails on the old image of a hand that was complete, and the waiting table seems to
have completed it. The request this makes has been made by the seat that leaves after it. -/
theorem silence_adds_nothing_already_requested :
    let seat : Seat := .ofAddress "0xaa" 500
    let before : Hand := { Hand.start "0xt" 51 .river 100 with lineup := [seat] }
    let after : Hand := { Hand.start "0xt" 51 .waiting 101 with lineup := [{ seat with exitHand := some 50 }] }
    let v' : Verdicts := ⟨.error (.malformed "receipt chain broken"), .ok true, .ok 1, .ok .null⟩
    let v : Verdicts := ⟨.ok true, .ok true, .ok 1, .ok .null⟩
    v'.SameOrSilent v ∧ BecomesComplete v' ∧
      (ofChange v' (.modification before after)).events ⊆ (ofChange v (.modification before after)).events := by
  intro seat before after v' v
  have hs : v'.SameOrSilent v := ⟨.inr ⟨_, rfl⟩, .inl rfl, .inl rfl, .inl rfl⟩
  refine ⟨hs, by decide, (silence_adds_nothing_iff hs _).2 ?_⟩
  rintro ⟨_, _, -, ⟨⟩, ⟨⟩, -, -, -, hstate | ⟨-, -, hnew⟩⟩
  · exact hstate rfl
  · exact hnew 0 "0xaa" (by decide) rfl

end Reaction

end TableEscrow
