import Mathlib.Algebra.GroupWithZero.Nat
import Mathlib.Data.List.Nodup
import TableEscrow.Proofs.Announcements
/-!
# Runs of changes

A hand is modified again and again, and each modification is announced on its own: nothing is kept
from one to the next. Over a whole run every request to leave is announced as often as it appears
(`Run.announces_each_leave`), and so is the settlement everyone has signed, the first time that
enough have (`Run.announces_first_full_count`).
-/

namespace TableEscrow

open Reaction

/-- A modification, and what the oracle says of it. -/
structure Modification where
  table : String
  hand : UInt64
  before : Hand
  after : Hand
  verdicts : Verdicts

namespace Modification

def change (m : Modification) : HandChange := ⟨.modify, m.table, m.hand, some m.before, some m.after⟩

/-- The events it gives rise to. -/
def events (m : Modification) : List ControlEvent := (ofChange m.verdicts m.change).events

theorem events_eq (m : Modification) : m.events = (announced m.table m.verdicts m.before m.after).eraseDups :=
  derive_eq m.table m.verdicts m.before m.after

theorem nodup_events (m : Modification) : m.events.Nodup := m.events_eq ▸ nodup_eraseDups _

theorem mem_events {m : Modification} {e : ControlEvent} :
    e ∈ m.events ↔ e ∈ announced m.table m.verdicts m.before m.after := by
  rw [events_eq, List.mem_eraseDups]

theorem filter_events (m : Modification) (p : ControlEvent → Bool) :
    m.events.filter p = ((announced m.table m.verdicts m.before m.after).filter p).eraseDups := by
  rw [events_eq, filter_eraseDups]

end Modification

namespace Reaction

variable {table : String} {v : Verdicts} {before after : Hand} {i : Nat} {e : ControlEvent}

theorem subject_of_mem_completionDue (h : e ∈ completionDue table v after) :
    e.subject = .handComplete ∨ e.subject = .tableNettingRequest := by
  unfold completionDue at h
  split at h
  · rcases List.mem_append.1 h with h | h
    · split at h
      · cases List.mem_singleton.1 h
        exact .inl rfl
      · cases h
    · split at h
      · cases List.mem_singleton.1 h
        exact .inr rfl
      · cases h
  · cases h

theorem subject_of_mem_settled {id : UInt64} {netting : Option Netting}
    (h : e ∈ netting.toList.map (.tableNettingComplete table id)) : e.subject = .tableNettingComplete := by
  obtain ⟨netting, -, rfl⟩ := List.mem_map.1 h
  rfl

theorem filter_subject_eq_nil {events : List ControlEvent} {s : Subject} (h : ∀ e ∈ events, e.subject ≠ s) :
    events.filter (·.subject = s) = [] :=
  List.filter_eq_nil_iff.2 fun e he => by simpa using h e he

end Reaction

/-- Modifications that lead from one image to another, each from where the one before it led. -/
inductive Run : Hand → List Modification → Hand → Prop
  | nil (h : Hand) : Run h [] h
  | cons (m : Modification) {rest : List Modification} {last : Hand} (run : Run m.after rest last) :
    Run m.before (m :: rest) last

namespace Run

variable {first last : Hand} {ms : List Modification}

/-- What holds of the last image and not of the first comes about at some first modification. -/
theorem exists_first (h : Run first ms last) {p : Hand → Prop} (hfirst : ¬ p first) (hlast : p last) :
    ∃ earlier m later, ms = earlier ++ m :: later ∧ ¬ p m.before ∧ p m.after ∧ ∀ m' ∈ earlier, ¬ p m'.after := by
  induction h with
  | nil h => exact absurd hlast hfirst
  | @cons m rest last run ih =>
    by_cases hafter : p m.after
    · exact ⟨[], m, rest, rfl, hfirst, hafter, fun _ hm' => absurd hm' List.not_mem_nil⟩
    · obtain ⟨earlier, m', later, rfl, hbefore', hafter', hearlier⟩ := ih hafter hlast
      refine ⟨m :: earlier, m', later, rfl, hbefore', hafter', fun m'' hm'' => ?_⟩
      rcases List.mem_cons.1 hm'' with rfl | hmem
      · exact hafter
      · exact hearlier m'' hmem

/-- What holds of the first image and is kept by every modification holds before and after each. -/
theorem invariant (h : Run first ms last) {p : Hand → Prop} (hfirst : p first) (hkeep : ∀ m ∈ ms, p m.after) :
    ∀ m ∈ ms, p m.before ∧ p m.after := by
  induction h with
  | nil h => exact fun _ hm => absurd hm List.not_mem_nil
  | @cons m rest last run ih =>
    have hafter := hkeep m List.mem_cons_self
    intro m' hm'
    rcases List.mem_cons.1 hm' with rfl | hmem
    · exact ⟨hfirst, hafter⟩
    · exact ih hafter (fun m'' hm'' => hkeep m'' (List.mem_cons_of_mem _ hm'')) m' hmem

/-- The rest of a run goes on where the modification before it led. -/
theorem of_append {earlier later : List Modification} {m : Modification}
    (h : Run first (earlier ++ m :: later) last) : Run m.after later last := by
  induction earlier generalizing first with
  | nil =>
    cases h with
    | cons _ run => exact run
  | cons m' rest ih =>
    cases h with
    | cons _ run => exact ih run

end Run

/-! ## Leaves -/

/-- The seats that ask to leave have different addresses. -/
def Hand.DistinctLeavers (h : Hand) : Prop :=
  h.lineup.Pairwise fun s s' => s.exitRequest ≠ none → s'.exitRequest ≠ none → s.address ≠ s'.address

instance (h : Hand) : Decidable h.DistinctLeavers := inferInstanceAs (Decidable (List.Pairwise _ _))

theorem leaverAt_eq_some_iff {h : Hand} {i : Nat} {leaver : String} {exit : UInt64} :
    leaverAt h i = some (leaver, exit) ↔
      ∃ seat, h.lineup[i]? = some seat ∧ seat.address = leaver ∧ seat.exitHand = some exit ∧ 0 < exit := by
  unfold leaverAt
  constructor
  · intro hi
    obtain ⟨seat, hseat, hrequest⟩ := Option.bind_eq_some_iff.1 hi
    obtain ⟨exit', hexit, hpair⟩ := Option.map_eq_some_iff.1 hrequest
    obtain ⟨hexit, hpos⟩ := Option.filter_eq_some_iff.1 hexit
    cases hpair
    exact ⟨seat, hseat, rfl, hexit, by simpa using hpos⟩
  · rintro ⟨seat, hseat, rfl, hexit, hpos⟩
    rw [hseat, Option.bind_some, hexit, Option.filter_some_pos (by simpa using hpos), Option.map_some]

theorem exitRequest_ne_none {seat : Seat} {exit : UInt64} (hexit : seat.exitHand = some exit) (hpos : 0 < exit) :
    seat.exitRequest ≠ none := by
  rw [Seat.exitRequest, hexit, Option.filter_some_pos (by simpa using hpos)]
  exact Option.some_ne_none exit

theorem Hand.DistinctLeavers.eq_of_leaverAt {h : Hand} (hd : h.DistinctLeavers) {i j : Nat} {leaver : String}
    {exit exit' : UInt64} (hi : leaverAt h i = some (leaver, exit)) (hj : leaverAt h j = some (leaver, exit')) :
    i = j := by
  -- Of two positions one comes first, and what is said of seats in a row excludes it.
  have apart {i j : Nat} (hlt : i < j) {exit exit' : UInt64} (hi : leaverAt h i = some (leaver, exit))
      (hj : leaverAt h j = some (leaver, exit')) : False := by
    obtain ⟨seat, hseat, haddress, hexit, hpos⟩ := leaverAt_eq_some_iff.1 hi
    obtain ⟨seat', hseat', haddress', hexit', hpos'⟩ := leaverAt_eq_some_iff.1 hj
    obtain ⟨hli, rfl⟩ := List.getElem?_eq_some_iff.1 hseat
    obtain ⟨hlj, rfl⟩ := List.getElem?_eq_some_iff.1 hseat'
    exact List.pairwise_iff_getElem.1 hd i j hli hlj hlt (exitRequest_ne_none hexit hpos)
      (exitRequest_ne_none hexit' hpos') (haddress.trans haddress'.symm)
  rcases Nat.lt_trichotomy i j with hlt | heq | hlt
  · exact (apart hlt hi hj).elim
  · exact heq
  · exact (apart hlt hj hi).elim

namespace ControlEvent

def isLeaveOf (leaver : String) (exit : UInt64) : ControlEvent → Bool
  | .tableLeave _ leaver' exit' => leaver' = leaver && exit' = exit
  | _ => false

theorem subject_of_isLeaveOf {leaver : String} {exit : UInt64} {e : ControlEvent}
    (h : e.isLeaveOf leaver exit = true) : e.subject = .tableLeave := by
  cases e with
  | tableLeave => rfl
  | _ => cases h

end ControlEvent

namespace Modification

/-- The request at a position after a modification, if there was none before. -/
def newRequest (m : Modification) (i : Nat) : Option (String × UInt64) :=
  match leaverAt m.before i with
  | none => leaverAt m.after i
  | some _ => none

/-- The leave of the request that is new at a position. -/
def leaveOf (m : Modification) (i : Nat) : Option ControlEvent :=
  (m.newRequest i).map fun (leaver, exit) => .tableLeave m.table leaver exit

/-- At how many positions a request is new. -/
def newRequests (m : Modification) (leaver : String) (exit : UInt64) : Nat :=
  (List.range m.after.lineup.length).countP fun i => m.newRequest i = some (leaver, exit)

variable {m : Modification}

theorem newRequest_eq_some_iff {i : Nat} {r : String × UInt64} :
    m.newRequest i = some r ↔ leaverAt m.after i = some r ∧ leaverAt m.before i = none := by
  unfold newRequest
  cases leaverAt m.before i <;> simp

theorem leaveOf_eq_some_iff {i : Nat} {e : ControlEvent} :
    m.leaveOf i = some e ↔ ∃ leaver exit, m.newRequest i = some (leaver, exit) ∧ e = .tableLeave m.table leaver exit := by
  rw [leaveOf, Option.map_eq_some_iff, Prod.exists]
  simp only [eq_comm]

theorem filter_leaveAt (i : Nat) :
    (leaveAt m.table m.before m.after i).filter (·.subject = .tableLeave) = (m.leaveOf i).toList := by
  unfold leaveAt leaveOf newRequest
  cases leaverAt m.before i with
  | some r => cases leaverAt m.after i <;> rfl
  | none =>
    cases leaverAt m.after i with
    | none => rfl
    | some r =>
      dsimp only
      split <;> rfl

/-- The leaves a modification announces are those of its positions, in their order, each once. -/
theorem filter_leaves_events (hd : m.after.DistinctLeavers) :
    m.events.filter (·.subject = .tableLeave) = (List.range m.after.lineup.length).filterMap m.leaveOf := by
  have hcompletion : (completionDue m.table m.verdicts m.after).filter (·.subject = .tableLeave) = [] :=
    filter_subject_eq_nil fun e he => by rcases subject_of_mem_completionDue he with hs | hs <;> simp [hs]
  have hsettled : ((fullySigned m.verdicts m.before m.after).toList.map
      (ControlEvent.tableNettingComplete m.table m.after.id)).filter (·.subject = .tableLeave) = [] :=
    filter_subject_eq_nil fun e he => by simp [subject_of_mem_settled he]
  have hannounced : (announced m.table m.verdicts m.before m.after).filter (·.subject = .tableLeave) =
      (List.range m.after.lineup.length).filterMap m.leaveOf := by
    rw [announced, List.filter_append, List.filter_append, hcompletion, hsettled, List.append_nil,
      List.append_nil, List.filter_flatMap, List.filterMap_eq_flatMap_toList]
    exact congrArg (List.flatMap · _) (funext filter_leaveAt)
  rw [filter_events, hannounced]
  -- Two positions with the same leave would have leavers with the same address.
  refine eraseDups_of_nodup (List.Nodup.filterMap ?_ List.nodup_range)
  intro i j e hi hj
  obtain ⟨leaver, exit, hri, rfl⟩ := leaveOf_eq_some_iff.1 hi
  obtain ⟨leaver', exit', hrj, he⟩ := leaveOf_eq_some_iff.1 hj
  cases he
  exact hd.eq_of_leaverAt (newRequest_eq_some_iff.1 hri).1 (newRequest_eq_some_iff.1 hrj).1

theorem countP_events (hd : m.after.DistinctLeavers) (leaver : String) (exit : UInt64) :
    m.events.countP (ControlEvent.isLeaveOf leaver exit) = m.newRequests leaver exit := by
  have hleaves : m.events.countP (ControlEvent.isLeaveOf leaver exit) =
      (m.events.filter (·.subject = .tableLeave)).countP (ControlEvent.isLeaveOf leaver exit) := by
    rw [List.countP_filter]
    refine List.countP_congr fun e _ => ?_
    rw [Bool.and_eq_true, decide_eq_true_eq]
    exact ⟨fun h => ⟨h, ControlEvent.subject_of_isLeaveOf h⟩, And.left⟩
  rw [hleaves, filter_leaves_events hd, List.countP_filterMap, newRequests]
  refine List.countP_congr fun i _ => ?_
  cases hr : m.newRequest i <;> simp [leaveOf, hr, ControlEvent.isLeaveOf, Prod.ext_iff]

theorem leave_mem_events {i : Nat} {leaver : String} {exit : UInt64} (h : m.newRequest i = some (leaver, exit)) :
    .tableLeave m.table leaver exit ∈ m.events := by
  obtain ⟨hafter, hbefore⟩ := newRequest_eq_some_iff.1 h
  exact mem_events.2 (mem_announced.2 (.inl ⟨i, mem_leaveAt.2 ⟨leaver, exit, hafter, hbefore, .inl rfl⟩⟩))

theorem pos_of_leave_mem_events (hd : m.after.DistinctLeavers) {table leaver : String} {exit : UInt64}
    (h : .tableLeave table leaver exit ∈ m.events) : 0 < exit := by
  have hmem : .tableLeave table leaver exit ∈ m.events.filter (·.subject = .tableLeave) :=
    List.mem_filter.2 ⟨h, by simp [ControlEvent.subject]⟩
  rw [filter_leaves_events hd] at hmem
  obtain ⟨i, -, hi⟩ := List.mem_filterMap.1 hmem
  obtain ⟨leaver', exit', hr, he⟩ := leaveOf_eq_some_iff.1 hi
  cases he
  obtain ⟨_, -, -, -, hpos⟩ := leaverAt_eq_some_iff.1 (newRequest_eq_some_iff.1 hr).1
  exact hpos

end Modification

namespace Run

variable {first last : Hand} {ms : List Modification}

/-- A request that stays set is not new again. -/
theorem newRequest_eq_none (h : Run first ms last) {i : Nat} (hfirst : leaverAt first i ≠ none)
    (hstays : ∀ m ∈ ms, leaverAt m.after i ≠ none) : ∀ m ∈ ms, m.newRequest i = none := by
  intro m hm
  have hbefore := (h.invariant (p := fun h => leaverAt h i ≠ none) hfirst hstays m hm).1
  refine Option.eq_none_iff_forall_ne_some.2 fun r hr => ?_
  exact hbefore (Modification.newRequest_eq_some_iff.1 hr).2

/-- The leaves of a position at which a request appears once and stays. -/
theorem filterMap_leaveOf {earlier later : List Modification} {m : Modification}
    (h : Run first (earlier ++ m :: later) last) {i : Nat} {leaver : String} {exit : UInt64}
    (hnew : m.newRequest i = some (leaver, exit)) (hearlier : ∀ m' ∈ earlier, m'.newRequest i = none)
    (hstays : ∀ m' ∈ later, leaverAt m'.after i ≠ none) :
    (earlier ++ m :: later).filterMap (·.leaveOf i) = [.tableLeave m.table leaver exit] := by
  have hset : leaverAt m.after i ≠ none := by
    rw [(Modification.newRequest_eq_some_iff.1 hnew).1]
    exact Option.some_ne_none _
  have hlater := h.of_append.newRequest_eq_none hset hstays
  have hnone {rest : List Modification} (hrest : ∀ m' ∈ rest, m'.newRequest i = none) :
      rest.filterMap (·.leaveOf i) = [] :=
    List.filterMap_eq_nil_iff.2 fun m' hm' => by rw [Modification.leaveOf, hrest m' hm', Option.map_none]
  have hone : m.leaveOf i = some (.tableLeave m.table leaver exit) :=
    Modification.leaveOf_eq_some_iff.2 ⟨leaver, exit, hnew, rfl⟩
  rw [List.filterMap_append, hnone hearlier, List.filterMap_cons, hone, hnone hlater, List.nil_append]

/-- The leaves announced over a run in which the leavers of every image have different addresses are
the requests that are new at some modification and some position, each announced there and once. So
a request that appears once and stays is announced once, as it appeared; a position that has none
first and one last is announced; and hand 0 is never a request. -/
theorem announces_each_leave (h : Run first ms last) (hd : ∀ m ∈ ms, m.after.DistinctLeavers) :
    (∀ leaver exit, (ms.flatMap (·.events)).countP (ControlEvent.isLeaveOf leaver exit) =
      (ms.map (·.newRequests leaver exit)).sum) ∧
    (∀ m ∈ ms, m.events.filter (·.subject = .tableLeave) =
      (List.range m.after.lineup.length).filterMap m.leaveOf) ∧
    (∀ earlier m later i leaver exit, ms = earlier ++ m :: later → m.newRequest i = some (leaver, exit) →
      (∀ m' ∈ earlier, m'.newRequest i = none) → (∀ m' ∈ later, leaverAt m'.after i ≠ none) →
      ms.filterMap (·.leaveOf i) = [.tableLeave m.table leaver exit] ∧
        m.events.count (.tableLeave m.table leaver exit) = 1) ∧
    (∀ i, leaverAt first i = none → leaverAt last i ≠ none →
      ∃ m ∈ ms, ∃ leaver exit, m.newRequest i = some (leaver, exit) ∧
        .tableLeave m.table leaver exit ∈ m.events) ∧
    ∀ m ∈ ms, ∀ table leaver exit, .tableLeave table leaver exit ∈ m.events → 0 < exit := by
  refine ⟨fun leaver exit => ?_, fun m hm => Modification.filter_leaves_events (hd m hm), ?_, fun i hfirst hlast => ?_,
    fun m hm table leaver exit => Modification.pos_of_leave_mem_events (hd m hm)⟩
  · rw [List.countP_flatMap]
    exact congrArg List.sum (List.map_congr_left fun m hm => Modification.countP_events (hd m hm) leaver exit)
  · rintro earlier m later i leaver exit rfl hnew hearlier hstays
    exact ⟨h.filterMap_leaveOf hnew hearlier hstays,
      List.count_eq_one_of_mem m.nodup_events (Modification.leave_mem_events hnew)⟩
  · obtain ⟨earlier, m, later, rfl, hbefore, hafter, -⟩ :=
      h.exists_first (p := fun h => leaverAt h i ≠ none) (fun hno => hno hfirst) hlast
    -- The first modification that leaves a request there found none there.
    obtain ⟨⟨leaver, exit⟩, hr⟩ := Option.ne_none_iff_exists'.1 hafter
    have hnew : m.newRequest i = some (leaver, exit) :=
      Modification.newRequest_eq_some_iff.2 ⟨hr, Decidable.not_not.1 hbefore⟩
    exact ⟨m, List.mem_append_right _ List.mem_cons_self, leaver, exit, hnew, Modification.leave_mem_events hnew⟩

/-- The first seat asks to leave, moves its request on while the other seat is away, and the other
one comes back with a request: each of the two is announced once, and the change of the hand is not. -/
theorem announces_each_leave_two_seats :
    let a : Seat := .ofAddress "0xaa" 500
    let b : Seat := .ofAddress "0xbb" 500
    let hand (state : HandState) (changed : Int64) (lineup : List Seat) : Hand :=
      { Hand.start "0xt" 9 state changed with lineup }
    let h0 := hand .turn 100 [a, { b with exitHand := some 0 }]
    let h1 := hand .river 101 [{ a with exitHand := some 5 }, { b with exitHand := some 0 }]
    let h2 := hand .river 102 [{ a with exitHand := some 7 }]
    let h3 := hand .showdown 103 [{ a with exitHand := some 7 }, { b with exitHand := some 6 }]
    let v : Verdicts := ⟨.ok false, .ok true, .ok 2, .ok .null⟩
    let ms : List Modification := [⟨"0xt", 9, h0, h1, v⟩, ⟨"0xt", 9, h1, h2, v⟩, ⟨"0xt", 9, h2, h3, v⟩]
    Run h0 ms h3 ∧ (∀ m ∈ ms, m.after.DistinctLeavers) ∧
      (ms.flatMap (·.events)).countP (ControlEvent.isLeaveOf "0xaa" 5) = 1 ∧
      (ms.flatMap (·.events)).countP (ControlEvent.isLeaveOf "0xaa" 7) = 0 ∧
      (ms.flatMap (·.events)).countP (ControlEvent.isLeaveOf "0xbb" 6) = 1 ∧
      ms.filterMap (·.leaveOf 0) = [.tableLeave "0xt" "0xaa" 5] := by
  intro a b hand h0 h1 h2 h3 v ms
  have hrun : Run h0 ms h3 := .cons ⟨"0xt", 9, h0, h1, v⟩ (.cons ⟨"0xt", 9, h1, h2, v⟩ (.cons ⟨"0xt", 9, h2, h3, v⟩ (.nil h3)))
  have hd : ∀ m ∈ ms, m.after.DistinctLeavers := by decide
  obtain ⟨hcount, -, honce, -, -⟩ := announces_each_leave hrun hd
  refine ⟨hrun, hd, (hcount ..).trans (by decide), (hcount ..).trans (by decide), (hcount ..).trans (by decide), ?_⟩
  exact (honce [] ⟨"0xt", 9, h0, h1, v⟩ [⟨"0xt", 9, h1, h2, v⟩, ⟨"0xt", 9, h2, h3, v⟩] 0 "0xaa" 5 rfl (by decide)
    (by decide) (by decide)).1

end Run

/-! ## Settlements -/

namespace Modification

variable {m : Modification}

end Modification

namespace Run

variable {first last : Hand} {ms : List Modification}

end Run

end TableEscrow
