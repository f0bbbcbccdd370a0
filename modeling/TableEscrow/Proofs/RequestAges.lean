import TableEscrow.Reconcile.Decision
/-!
# The age of a request

Under valid thresholds every age has one verdict, and the ages of a verdict follow on those of the
verdict before (`PendingVerdict.ofAge_eq_iff`). A verdict is given at some second if it has an age
and that second is a word (`PendingDecision.given_iff`). The thresholds that `validate` lets pass
leave one verdict without an age: when the dispute window ends one second after the delay, no request
is ever disputed (`narrow_window_never_disputes`).
-/

namespace TableEscrow

theorem Thresholds.ordered_of_validate {t : Thresholds} (h : t.validate = .ok ()) :
    0 < t.disputeReactAfter.toInt ∧ t.disputeReactAfter.toInt < t.disputeWindow.toInt ∧
      t.disputeWindow.toInt < t.settlementGrace.toInt := by
  have hreact : 0 < t.disputeReactAfter :=
    pos_of_validate h ("dispute_react_after_secs", t.disputeReactAfter) (by simp [named])
  have hwindow : ¬ t.disputeWindow ≤ t.disputeReactAfter := by
    intro hle
    unfold validate at h
    split at h
    · cases h
    · simp [hle] at h
  have hgrace : ¬ t.settlementGrace ≤ t.disputeWindow := by
    intro hle
    unfold validate at h
    split at h
    · cases h
    · simp [hwindow, hle] at h
  simp only [Int64.lt_iff_toInt_lt, Int64.le_iff_toInt_le, Int64.toInt_zero] at hreact hwindow hgrace
  omega

namespace PendingVerdict

/-- The ages that call for a verdict. -/
def HasAge (t : Thresholds) : PendingVerdict → Int → Prop
  | .tooEarly, age => age ≤ t.disputeReactAfter.toInt
  | .handleDispute, age => t.disputeReactAfter.toInt < age ∧ age < t.disputeWindow.toInt
  | .progressNetting, age => t.disputeWindow.toInt ≤ age ∧ age < t.settlementGrace.toInt
  | .lapsed, age => t.settlementGrace.toInt ≤ age

/-- The first age of a verdict, counting from the request on. -/
def firstAge (t : Thresholds) : PendingVerdict → Int
  | .tooEarly => 0
  | .handleDispute => t.disputeReactAfter.toInt + 1
  | .progressNetting => t.disputeWindow.toInt
  | .lapsed => t.settlementGrace.toInt

variable {t : Thresholds}

theorem hasAge_ofAge (age : Int64) : (ofAge t age).HasAge t age.toInt := by
  simp only [ofAge, Int64.le_iff_toInt_le, Int64.lt_iff_toInt_lt]
  split
  · next hclosed =>
    split
    · next hcounts => exact ⟨hclosed, hcounts⟩
    · next hlapsed => exact Int.not_lt.1 hlapsed
  · next hopen =>
    split
    · next hlate => exact ⟨hlate, Int.not_le.1 hopen⟩
    · next hearly => exact Int.not_lt.1 hearly

theorem firstAge_le {v : PendingVerdict} {age : Int} (h : v.HasAge t age) : v = .tooEarly ∨ v.firstAge t ≤ age := by
  cases v with
  | tooEarly => exact .inl rfl
  | handleDispute => exact .inr h.1
  | progressNetting => exact .inr h.1
  | lapsed => exact .inr h

theorem firstAge_le_word {v : PendingVerdict} (h : v.HasAge t (v.firstAge t)) :
    v.firstAge t ≤ 9223372036854775807 := by
  have hwindow := t.disputeWindow.toInt_lt
  have hgrace := t.settlementGrace.toInt_lt
  cases v <;> simp only [HasAge, firstAge] at h ⊢ <;> omega

variable (hv : t.validate = .ok ())
include hv

theorem hasAge_unique {v v' : PendingVerdict} {age : Int} (h : v.HasAge t age) (h' : v'.HasAge t age) : v = v' := by
  obtain ⟨-, hwindow, hgrace⟩ := Thresholds.ordered_of_validate hv
  cases v <;> cases v' <;> simp only [HasAge, reduceCtorEq] at h h' ⊢ <;> omega

theorem ofAge_eq_iff {age : Int64} {v : PendingVerdict} : ofAge t age = v ↔ v.HasAge t age.toInt :=
  ⟨fun h => h ▸ hasAge_ofAge age, hasAge_unique hv (hasAge_ofAge age)⟩

/-- Every verdict but the dispute has an age. -/
theorem hasAge_firstAge_iff {v : PendingVerdict} :
    v.HasAge t (v.firstAge t) ↔ (v = .handleDispute → t.disputeReactAfter.toInt + 1 < t.disputeWindow.toInt) := by
  obtain ⟨hreact, hwindow, hgrace⟩ := Thresholds.ordered_of_validate hv
  cases v <;> simp only [HasAge, firstAge, reduceCtorEq, false_implies, true_implies, iff_true] <;> omega

theorem hasAge_firstAge {v : PendingVerdict} {age : Int} (h : v.HasAge t age) : v.HasAge t (v.firstAge t) := by
  rw [hasAge_firstAge_iff hv]
  rintro rfl
  obtain ⟨hafter, hbefore⟩ := h
  omega

theorem firstAge_nonneg (v : PendingVerdict) : 0 ≤ v.firstAge t := by
  obtain ⟨hreact, hwindow, hgrace⟩ := Thresholds.ordered_of_validate hv
  cases v <;> simp only [firstAge] <;> omega

end PendingVerdict

namespace PendingDecision

variable {t : Thresholds} {status : NettingStatus}

theorem ofStatus_eq_ok_iff {now : Int64} {d : PendingDecision} :
    ofStatus status now t = .ok d ↔
      d.age.toInt = now.toInt - status.requestTime.toInt ∧ d.verdict = .ofAge t d.age := by
  obtain ⟨verdict, age⟩ := d
  rw [← Word.difference_eq_ok_iff]
  unfold ofStatus NettingStatus.requestAge
  cases Word.difference now status.requestTime with
  | error o => simp
  | ok age' =>
    simp only [Except.ok.injEq, PendingDecision.mk.injEq]
    constructor
    · rintro ⟨rfl, rfl⟩
      exact ⟨rfl, rfl⟩
    · rintro ⟨rfl, rfl⟩
      exact ⟨rfl, rfl⟩

theorem hasAge_of_eq_ok {now : Int64} {d : PendingDecision} (hd : ofStatus status now t = .ok d) :
    d.verdict.HasAge t (now.toInt - status.requestTime.toInt) := by
  obtain ⟨hage, hverdict⟩ := ofStatus_eq_ok_iff.1 hd
  rw [← hage, hverdict]
  exact PendingVerdict.hasAge_ofAge d.age

theorem exists_eq_ok (hv : t.validate = .ok ()) {v : PendingVerdict} {seconds : Int} (hage : v.HasAge t seconds)
    (hseconds : Word.Signed seconds) (hnow : Word.Signed (status.requestTime.toInt + seconds)) :
    ∃ now d, ofStatus status now t = .ok d ∧ d.verdict = v := by
  obtain ⟨age, rfl⟩ := Word.exists_toInt_eq hseconds
  obtain ⟨now, hnow⟩ := Word.exists_toInt_eq hnow
  have hsub : age.toInt = now.toInt - status.requestTime.toInt := by omega
  exact ⟨now, ⟨v, age⟩, ofStatus_eq_ok_iff.2 ⟨hsub, ((PendingVerdict.ofAge_eq_iff hv).2 hage).symm⟩, rfl⟩

/-- Under valid thresholds each verdict is given at some second, unless the request is so late that
the second is no word, or the verdict is the dispute and its window closes one second after the delay. -/
theorem given_iff (hv : t.validate = .ok ()) (v : PendingVerdict) :
    (∃ now d, ofStatus status now t = .ok d ∧ d.verdict = v) ↔
      (v = .handleDispute → t.disputeReactAfter.toInt + 1 < t.disputeWindow.toInt) ∧
        status.requestTime.toInt + v.firstAge t ≤ 9223372036854775807 := by
  have htime := status.requestTime.le_toInt
  have htime' := status.requestTime.toInt_lt
  rw [← PendingVerdict.hasAge_firstAge_iff hv]
  constructor
  · rintro ⟨now, d, hd, rfl⟩
    have hage := hasAge_of_eq_ok hd
    refine ⟨PendingVerdict.hasAge_firstAge hv hage, ?_⟩
    have hnow := now.toInt_lt
    -- `tooEarly` is also given before the request was made, and then the second of the request is a word too.
    rcases PendingVerdict.firstAge_le hage with hearly | hfirst
    · rw [hearly, PendingVerdict.firstAge]
      omega
    · omega
  · rintro ⟨hage, hlate⟩
    have hfirst := PendingVerdict.firstAge_nonneg hv v
    have hword : v.firstAge t ≤ 9223372036854775807 := PendingVerdict.firstAge_le_word hage
    exact exists_eq_ok hv hage ⟨by omega, hword⟩ ⟨by omega, hlate⟩

/-- With a delay of 180 seconds and a window of 181 no request is ever disputed. -/
theorem narrow_window_never_disputes :
    ¬ ∀ (t : Thresholds) (status : NettingStatus), t.validate = .ok () → status.isPending = true →
      0 ≤ status.requestTime → status.requestTime ≤ 4611686018427387904 →
      (∀ p ∈ t.named, p.2 ≤ 4611686018427387904) →
      ∀ v, ∃ now d, ofStatus status now t = .ok d ∧ d.verdict = v := by
  intro hall
  let t : Thresholds := { Thresholds.standard with disputeWindow := 181 }
  have hv : t.validate = .ok () := rfl
  obtain ⟨now, d, hd, hdispute⟩ :=
    hall t ⟨100, 105, 1700000000⟩ hv (by decide) (by decide) (by decide) (by decide) .handleDispute
  obtain ⟨hafter, hbefore⟩ : PendingVerdict.handleDispute.HasAge t (now.toInt - 1700000000) :=
    hdispute ▸ hasAge_of_eq_ok hd
  have hafter : 180 < now.toInt - 1700000000 := hafter
  have hbefore : now.toInt - 1700000000 < 181 := hbefore
  omega

/-- One second more, and there is one second to dispute a request in, even for a request at second 2^62. -/
theorem given_iff_one_second_to_dispute :
    let t : Thresholds := { Thresholds.standard with disputeWindow := 182 }
    let status : NettingStatus := ⟨100, 105, 4611686018427387904⟩
    t.validate = .ok () ∧ (∃ now d, ofStatus status now t = .ok d ∧ d.verdict = .handleDispute) ∧
      ∃ now d, ofStatus status now t = .ok d ∧ d.verdict = .lapsed := by
  intro t status
  have hv : t.validate = .ok () := rfl
  exact ⟨hv, (given_iff hv .handleDispute).2 ⟨fun _ => by decide, by decide⟩,
    (given_iff hv .lapsed).2 ⟨nofun, by decide⟩⟩

end PendingDecision

end TableEscrow
