import Mathlib.Algebra.Group.Int.Defs
import Mathlib.Data.List.Forall2
import TableEscrow.Gateway.Contract
import TableEscrow.Proofs.CompactTexts
import TableEscrow.Proofs.Records
/-!
# What a gateway's replies say

A numeral is an integer exactly if it is written as one that fits a word (`Numeral.toInt?_value?_iff`), and a record is
read off a document exactly if the document gives each of its members at most once (`Decode.Record.decode_eq_ok_iff`).
So what is read off a reply is what stands there: a counter is the integer that the reply bears
(`readCounter_uint64_iff`, `readCounter_int64_iff`), and seats are those that it lists (`readCall_lineup_iff`). Every
other reply is an error that names the call (`readCall_eq_error`).
-/

namespace TableEscrow

/-! ## Integers -/

/-- The integer a number is. -/
def Number.toInt? : Number → Option Int
  | .natural n => some n.toNat
  | .negative n _ => some n.toInt
  | .real _ => none

/-- The integer a document says. -/
def Draft.toInt? : Draft → Option Int
  | .number n => n.toInt?
  | _ => none

namespace Numeral

variable {n : Numeral} {i : Int}

theorem gather_eq_nil {start s : Nat} {ds : List Char} (hstart : start < UInt64.size) (h : gather start ds = (s, [])) :
    ds.foldl (fun n c => n * 10 + (c.toNat - 48)) start = s ∧ s < UInt64.size := by
  induction ds generalizing start with
  | nil =>
    cases h
    exact ⟨rfl, hstart⟩
  | cons d ds ih =>
    rw [gather] at h
    split at h
    · next hfits => exact ih hfits h
    · cases h

theorem toInt?_of_not_whole (h : n.fraction ≠ none ∨ n.exponent ≠ none ∨ (gather 0 n.whole).2 ≠ []) :
    n.value?.bind Number.toInt? = none := by
  obtain ⟨negative, whole, fraction, exponent⟩ := n
  simp only at h
  rcases hg : gather 0 whole with ⟨s, left⟩
  rw [hg] at h
  unfold value?
  simp only [hg]
  split
  · simp at h
  · split
    · cases Binary64.scaleByTen? _ _ <;> rfl
    · split
      · split <;> rfl
      · rfl

theorem value?_whole {negative : Bool} {whole : List Char} {s : Nat} (h : gather 0 whole = (s, [])) :
    value? ⟨negative, whole, none, none⟩ =
      if negative then
        if 0 < s ∧ 2 * s ≤ UInt64.size then some (.ofInt64 (Int64.ofInt (-s)))
        else some (.real (Binary64.ofNat s).neg)
      else some (.natural (UInt64.ofNat s)) := by
  cases negative <;> simp [value?, h]

theorem toInt?_ofInt64 (w : Int64) : (Number.ofInt64 w).toInt? = some w.toInt := by
  unfold Number.ofInt64
  split
  · rfl
  · next hneg =>
    have hlow : 0 ≤ w.toInt := by simpa [Int64.lt_iff_toInt_lt] using hneg
    have hhigh : w.toInt < 2 ^ 63 := w.toInt_lt
    have hfits : w.toInt.toNat < UInt64.size := by
      simp only [UInt64.size]
      omega
    have hword : (UInt64.ofNat w.toInt.toNat).toNat = w.toInt.toNat := UInt64.toNat_ofNat_of_lt' hfits
    rw [Number.toInt?, hword, Int.toNat_of_nonneg hlow]

/-- A numeral says an integer exactly if it has no fraction and no exponent, and its digits fit a word. -/
theorem toInt?_value?_iff : n.value?.bind Number.toInt? = some i ↔ n.fraction = none ∧ n.exponent = none ∧
    (n.negative = false ∧ i = Text.natOfDecimal n.whole ∧ i < 2 ^ 64 ∨
      n.negative = true ∧ i = -(Text.natOfDecimal n.whole : Int) ∧ -2 ^ 63 ≤ i ∧ i < 0) := by
  by_cases hwhole : n.fraction = none ∧ n.exponent = none ∧ (gather 0 n.whole).2 = []
  · obtain ⟨negative, whole, fraction, exponent⟩ := n
    obtain ⟨rfl, rfl, hleft⟩ := hwhole
    have hg : gather 0 whole = ((gather 0 whole).1, []) := Prod.ext rfl hleft
    obtain ⟨hvalue, hlt⟩ := gather_eq_nil (by decide) hg
    rw [value?_whole hg, ← hvalue, ← Text.natOfDecimal]
    rw [← hvalue, ← Text.natOfDecimal] at hlt
    generalize Text.natOfDecimal whole = number at hlt
    simp only [UInt64.size] at hlt
    cases negative with
    | false =>
      have hword : (UInt64.ofNat number).toNat = number := UInt64.toNat_ofNat_of_lt' hlt
      simp [Number.toInt?, hword]
      omega
    | true =>
      rw [if_pos rfl]
      by_cases hfits : 0 < number ∧ 2 * number ≤ UInt64.size
      · have hbound : 2 * number ≤ 2 ^ 64 := hfits.2
        have hword : (Int64.ofInt (-number)).toInt = -number := Int64.toInt_ofInt_of_le (by omega) (by omega)
        rw [if_pos hfits, Option.bind_some, toInt?_ofInt64, hword]
        simp
        omega
      · simp only [UInt64.size] at hfits
        simp [UInt64.size, hfits, Number.toInt?]
        omega
  -- Otherwise it is read as a float, if at all.
  · have hnot : n.fraction ≠ none ∨ n.exponent ≠ none ∨ (gather 0 n.whole).2 ≠ [] := by
      by_contra hall
      simp only [not_or, not_not] at hall
      exact hwhole hall
    rw [toInt?_of_not_whole hnot]
    refine iff_of_false (Option.some_ne_none i).symm ?_
    rintro ⟨hfraction, hexponent, hdigits⟩
    refine hwhole ⟨hfraction, hexponent, ?_⟩
    have hlt : Text.natOfDecimal n.whole < UInt64.size := by
      simp only [UInt64.size]
      omega
    rw [gather_eq hlt]

end Numeral

namespace Decode

variable {d : Draft}

theorem uint64_eq_ok_iff {n : UInt64} : uint64 d = .ok n ↔ d.toInt? = some (n.toNat : Int) := by
  cases d with
  | number x =>
    cases x with
    | natural k =>
      simp only [uint64, Draft.toInt?, Number.toInt?, Except.ok.injEq, Option.some_inj, Int.natCast_inj, UInt64.toNat_inj]
    | negative k hk =>
      have hneg : k.toInt < 0 := by simpa [Int64.lt_iff_toInt_lt] using hk
      simp [uint64, Draft.toInt?, Number.toInt?]
      omega
    | real x => simp [uint64, Draft.toInt?, Number.toInt?, mismatch]
  | _ => simp [uint64, Draft.toInt?, mismatch]

theorem int64_eq_ok_iff {n : Int64} : int64 d = .ok n ↔ d.toInt? = some n.toInt := by
  cases d with
  | number x =>
    cases x with
    | natural k =>
      simp only [int64, Draft.toInt?, Number.toInt?, Option.some_inj]
      constructor
      · intro h
        split at h
        · next w hw => cases h; exact (Word.signed?_eq_some hw).symm
        · cases h
      · intro h
        rw [h, Word.signed?_toInt]
    | negative k hk => simp [int64, Draft.toInt?, Number.toInt?, Int64.toInt_inj]
    | real x => simp [int64, Draft.toInt?, Number.toInt?, mismatch]
  | _ => simp [int64, Draft.toInt?, mismatch]

theorem items_eq_ok_iff {α : Type} {decode : Decoder α} {ds : List Draft} {as : List α} :
    items decode ds = .ok as ↔ List.Forall₂ (fun d a => decode d = .ok a) ds as := by
  induction ds generalizing as with
  | nil => cases as <;> simp [items]
  | cons d ds ih =>
    rw [List.forall₂_cons_left_iff, items]
    cases hd : decode d with
    | error f => simp [bind, Except.bind]
    | ok a =>
      cases hds : items decode ds with
      | error f =>
        have hnone : ∀ as, ¬ List.Forall₂ (fun d a => decode d = .ok a) ds as := fun as h => by
          cases hds.symm.trans (ih.2 h)
        simp [bind, Except.bind, hnone]
      | ok as' =>
        simp [bind, Except.bind, pure, Except.pure, ← ih, hds, eq_comm]

theorem text_eq_ok_iff {s : String} : text d = .ok s ↔ d = .string s := by
  cases d <;> simp [text, mismatch]

theorem list_eq_ok_iff {α : Type} {decode : Decoder α} {as : List α} :
    list decode d = .ok as ↔ ∃ ds, d = .array ds ∧ List.Forall₂ (fun d a => decode d = .ok a) ds as := by
  cases d <;> simp [list, mismatch, items_eq_ok_iff]

end Decode

/-! ## Records off documents -/

/-- A document gives the members of a record: an object gives each at most once, in any order and among others that
are well formed; an array gives the first of them. -/
inductive Draft.Gives (names : List String) : Draft → (String → Option Draft) → Prop
  | object {members : List (String × Draft)} (once : members.Pairwise fun m m' => m.1 ∈ names → m.1 ≠ m'.1)
      (others : ∀ m ∈ members, m.1 ∉ names → m.2.isCut = false) : Gives names (.object members true) (members.lookup ·)
  | array {items : List Draft} (fits : items.length ≤ names.length) : Gives names (.array items) ((names.zip items).lookup ·)

namespace Decode.Record

variable {α β : Type} {d : Draft} {look : String → Option Draft}

/-- Nothing is wrong with a member: it is read if it is named, and only then may it not have been there before. -/
def Passes (names : List (String × (Draft → Option Fault))) (seen : List String) (m : String × Draft) : Prop :=
  match names.lookup m.1 with
  | some fault => m.1 ∉ seen ∧ fault m.2 = none
  | none => m.2.isCut = false

theorem passes_cons_iff {names : List (String × (Draft → Option Fault))} {seen : List String} {k : String}
    {m : String × Draft} : Passes names (k :: seen) m ↔ ((names.lookup k).isSome → k ≠ m.1) ∧ Passes names seen m := by
  unfold Passes
  by_cases heq : k = m.1
  · subst heq
    cases names.lookup m.1 <;> simp
  · cases names.lookup m.1 <;> simp [heq, Ne.symm heq]

theorem firstFault_eq_none_iff {names : List (String × (Draft → Option Fault))} {seen : List String}
    {members : List (String × Draft)} : firstFault names seen members = none ↔
      (members.Pairwise fun m m' => (names.lookup m.1).isSome → m.1 ≠ m'.1) ∧ ∀ m ∈ members, Passes names seen m := by
  induction members generalizing seen with
  | nil => simp [firstFault]
  | cons m rest ih =>
    obtain ⟨k, d⟩ := m
    rw [List.pairwise_cons, List.forall_mem_cons, firstFault, Passes]
    cases hlook : names.lookup k with
    | none =>
      cases hcut : d.isCut with
      | true => simp
      | false => simp [ih]
    | some fault =>
      by_cases hseen : k ∈ seen
      · simp [hseen]
      · cases hfault : fault d with
        | some f => simp [hseen, hfault]
        | none =>
          simp only [List.contains_iff_mem, hseen, hfault, if_false, ih, passes_cons_iff, hlook, forall₂_and]
          simp [and_assoc, and_left_comm, and_comm]

theorem firstFaultInOrder_eq_none_iff {named : List ((String × (Draft → Option Fault)) × Draft)} :
    firstFaultInOrder named = none ↔ ∀ p ∈ named, p.1.2 p.2 = none := by
  induction named with
  | nil => simp [firstFaultInOrder]
  | cons p named ih =>
    obtain ⟨⟨name, fault⟩, d⟩ := p
    rw [firstFaultInOrder, List.forall_mem_cons]
    cases hfault : fault d <;> simp [hfault, ih]

theorem nodup_zip {names : List String} (hn : names.Nodup) (items : List Draft) : ((names.zip items).map (·.1)).Nodup := by
  induction names generalizing items with
  | nil => simp
  | cons name names ih =>
    obtain ⟨hname, hnames⟩ := List.nodup_cons.1 hn
    cases items with
    | nil => simp
    | cons d items =>
      refine List.nodup_cons.2 ⟨fun hmem => hname ?_, ih hnames items⟩
      obtain ⟨p, hp, rfl⟩ := List.mem_map.1 hmem
      exact (List.of_mem_zip hp).1

theorem isSome_lookup_iff {names : List (String × (Draft → Option Fault))} {name : String} :
    (names.lookup name).isSome ↔ name ∈ names.map (·.1) := by
  rw [Option.isSome_iff_ne_none, ne_eq, List.lookup_eq_none_iff]
  simp

/-- A name that does not stand twice gives its own member. -/
theorem lookup_of_once {names : List String} {members : List (String × Draft)}
    (once : members.Pairwise fun m m' => m.1 ∈ names → m.1 ≠ m'.1) {m : String × Draft} (hm : m ∈ members)
    (hname : m.1 ∈ names) : members.lookup m.1 = some m.2 := by
  induction members with
  | nil => cases hm
  | cons first rest ih =>
    obtain ⟨hfirst, hrest⟩ := List.pairwise_cons.1 once
    rcases List.mem_cons.1 hm with rfl | hm
    · exact List.lookup_cons_self
    · have hne : m.1 ≠ first.1 := fun heq => hfirst m hm (heq ▸ hname) heq.symm
      rw [Keyed.lookup_cons_ne hne]
      exact ih hrest hm

/-- A record that can be built has no fault to find. -/
theorem firstFault_eq_none_of_build {r : Record α} (hr : r.Sound) {members : List (String × Draft)} {a : α}
    (once : members.Pairwise fun m m' => m.1 ∈ r.names.map (·.1) → m.1 ≠ m'.1)
    (others : ∀ m ∈ members, m.1 ∉ r.names.map (·.1) → m.2.isCut = false) (h : r.build (members.lookup ·) = .ok a) :
    firstFault r.names [] members = none := by
  refine firstFault_eq_none_iff.2 ⟨by simpa only [isSome_lookup_iff] using once, fun m hm => ?_⟩
  unfold Passes
  split
  · next fault hfault =>
    obtain ⟨before, after, hnames, -⟩ := List.lookup_eq_some_iff.1 hfault
    have hmem : (m.1, fault) ∈ r.names := hnames ▸ List.mem_append_right _ List.mem_cons_self
    exact ⟨List.not_mem_nil, hr _ a h _ hmem m.2 (lookup_of_once once hm (List.mem_map.2 ⟨_, hmem, rfl⟩))⟩
  · next hnone =>
    refine others m hm fun hname => ?_
    rw [← isSome_lookup_iff, hnone] at hname
    cases hname

theorem decode_object_iff {r : Record α} (hr : r.Sound) {title : String} {a : α} {members : List (String × Draft)}
    {closed : Bool} : r.decode title (.object members closed) = .ok a ↔ closed = true ∧
      (members.Pairwise fun m m' => m.1 ∈ r.names.map (·.1) → m.1 ≠ m'.1) ∧
        (∀ m ∈ members, m.1 ∉ r.names.map (·.1) → m.2.isCut = false) ∧ r.build (members.lookup ·) = .ok a := by
  simp only [decode]
  constructor
  · intro h
    cases hfirst : firstFault r.names [] members with
    | some f => simp [hfirst] at h
    | none =>
      obtain ⟨honce, hpasses⟩ := firstFault_eq_none_iff.1 hfirst
      simp only [isSome_lookup_iff] at honce
      cases closed with
      | false => simp [hfirst] at h
      | true =>
        refine ⟨rfl, honce, fun m hm hname => ?_, by simpa [hfirst] using h⟩
        have hpass := hpasses m hm
        rwa [Passes, Keyed.lookup_eq_none_of_not_mem hname] at hpass
  · rintro ⟨rfl, honce, hothers, hbuild⟩
    rw [firstFault_eq_none_of_build hr honce hothers hbuild]
    exact hbuild

theorem decode_array_iff {r : Record α} (hr : r.Sound) (hn : (r.names.map (·.1)).Nodup) {title : String} {a : α}
    {items : List Draft} : r.decode title (.array items) = .ok a ↔
      items.length ≤ r.names.length ∧ r.build (((r.names.map (·.1)).zip items).lookup ·) = .ok a := by
  simp only [decode]
  constructor
  · intro h
    split at h
    · cases h
    · split at h
      · cases h
      · next hfits =>
        refine ⟨Nat.not_lt.1 hfits, ?_⟩
        split at h
        · cases h
        · exact h
  · rintro ⟨hfits, hbuild⟩
    -- An item has no fault, for the build has read it under its name.
    have hnone : firstFaultInOrder (r.names.zip items) = none := by
      refine firstFaultInOrder_eq_none_iff.2 fun p hp => ?_
      obtain ⟨⟨name, fault⟩, d⟩ := p
      refine hr _ a hbuild (name, fault) (List.of_mem_zip hp).1 d ?_
      refine (Keyed.lookup_eq_some_iff_mem (nodup_zip hn items)).2 ?_
      rw [List.zip_map_left]
      exact List.mem_map.2 ⟨_, hp, rfl⟩
    rw [hnone, if_neg (Nat.not_lt.2 hfits), hbuild]

/-- A record is read off exactly the documents that give its members, and is built from what they give. -/
theorem decode_eq_ok_iff {r : Record α} (hr : r.Sound) (hn : (r.names.map (·.1)).Nodup) {title : String} {a : α} :
    r.decode title d = .ok a ↔ ∃ look, d.Gives (r.names.map (·.1)) look ∧ r.build look = .ok a := by
  constructor
  · intro h
    cases d with
    | object members closed =>
      obtain ⟨rfl, honce, hothers, hbuild⟩ := (decode_object_iff hr).1 h
      exact ⟨_, .object honce hothers, hbuild⟩
    | array items =>
      obtain ⟨hfits, hbuild⟩ := (decode_array_iff hr hn).1 h
      exact ⟨_, .array (by simpa using hfits), hbuild⟩
    | null | bool | number | string | unusable | broken => simp [decode, mismatch] at h
  · rintro ⟨look, hgives, hbuild⟩
    cases hgives with
    | object once others => exact (decode_object_iff hr).2 ⟨rfl, once, others, hbuild⟩
    | array fits => exact (decode_array_iff hr hn).2 ⟨by simpa using fits, hbuild⟩

theorem build_seq_iff {f : Record (α → β)} {x : Record α} {b : β} :
    (f <*> x).build look = .ok b ↔ ∃ g a, f.build look = .ok g ∧ x.build look = .ok a ∧ b = g a := by
  refine ⟨build_seq, ?_⟩
  rintro ⟨g, a, hg, ha, rfl⟩
  change (do let g ← f.build look; let a ← x.build look; return g a) = Except.ok (g a)
  rw [hg, ha]
  rfl

theorem build_map_iff {f : α → β} {x : Record α} {b : β} :
    (f <$> x).build look = .ok b ↔ ∃ a, x.build look = .ok a ∧ b = f a := by
  refine (build_seq_iff (f := pure f)).trans ⟨?_, ?_⟩
  · rintro ⟨g, a, ⟨⟩, ha, hb⟩
    exact ⟨a, ha, hb⟩
  · rintro ⟨a, ha, hb⟩
    exact ⟨f, a, rfl, ha, hb⟩

theorem build_required_iff {name : String} {decode : Decoder α} {a : α} :
    (required name decode).build look = .ok a ↔ ∃ d, look name = some d ∧ decode d = .ok a := by
  cases hlook : look name <;> simp [required, hlook]

theorem build_withDefault_iff {name : String} {default : α} {decode : Decoder α} {a : α} :
    (withDefault name default decode).build look = .ok a ↔
      look name = none ∧ a = default ∨ ∃ d, look name = some d ∧ decode d = .ok a := by
  cases hlook : look name <;> simp [withDefault, hlook, eq_comm]

end Decode.Record

/-! ## Seats -/

/-- A document says what one seat is. -/
def Draft.SaysSeat (d : Draft) (s : ChainSeat) : Prop :=
  ∃ look, d.Gives ["address", "amount", "exitHand"] look ∧ look "address" = some (.string s.address) ∧
    (∃ v, look "amount" = some v ∧ v.toInt? = some (s.amount.toNat : Int)) ∧
    (look "exitHand" = none ∧ s.exitHand = 0 ∨ ∃ v, look "exitHand" = some v ∧ v.toInt? = some (s.exitHand.toNat : Int))

/-- A document says a whole lineup: the last settled hand, and every seat. -/
def Draft.SaysLineup (d : Draft) (l : ChainLineup) : Prop :=
  ∃ look seats, d.Gives ["lastHandNetted", "seats"] look ∧
    (∃ v, look "lastHandNetted" = some v ∧ v.toInt? = some (l.lastHandNetted.toNat : Int)) ∧
    look "seats" = some (.array seats) ∧ List.Forall₂ Draft.SaysSeat seats l.seats

open Decode Record

theorem ChainSeat.decode_eq_ok_iff {d : Draft} {s : ChainSeat} : decode d = .ok s ↔ d.SaysSeat s := by
  have hsound : record.Sound := .seq (.seq (.map _ (.required _ _)) (.required _ _)) (.withDefault _ _ _)
  rw [decode, Record.decode_eq_ok_iff hsound (by decide)]
  refine exists_congr fun look => and_congr_right fun _ => ?_
  simp only [record, build_seq_iff, build_map_iff, build_required_iff, build_withDefault_iff, text_eq_ok_iff,
    uint64_eq_ok_iff]
  obtain ⟨address, amount, exitHand⟩ := s
  constructor
  · rintro ⟨_, _, ⟨_, _, ⟨_, ⟨_, haddress, rfl⟩, rfl⟩, hamount, rfl⟩, hexit, hseat⟩
    cases hseat
    exact ⟨haddress, hamount, hexit⟩
  · rintro ⟨haddress, hamount, hexit⟩
    exact ⟨_, _, ⟨_, _, ⟨_, ⟨_, haddress, rfl⟩, rfl⟩, hamount, rfl⟩, hexit, rfl⟩

theorem ChainLineup.decode_eq_ok_iff {d : Draft} {l : ChainLineup} : decode d = .ok l ↔ d.SaysLineup l := by
  have hsound : record.Sound := .seq (.map _ (.required _ _)) (.required _ _)
  rw [decode, Record.decode_eq_ok_iff hsound (by decide)]
  simp only [record, build_seq_iff, build_map_iff, build_required_iff, list_eq_ok_iff, uint64_eq_ok_iff,
    ChainSeat.decode_eq_ok_iff]
  obtain ⟨lastHandNetted, seats⟩ := l
  constructor
  · rintro ⟨look, hgives, _, _, ⟨_, hnetted, rfl⟩, ⟨_, hseats, _, rfl, heach⟩, hlineup⟩
    cases hlineup
    exact ⟨look, _, hgives, hnetted, hseats, heach⟩
  · rintro ⟨look, _, hgives, hnetted, hseats, heach⟩
    exact ⟨look, hgives, _, _, ⟨_, hnetted, rfl⟩, ⟨_, hseats, _, rfl, heach⟩, rfl⟩

/-! ## Replies -/

namespace Gateway

variable {α : Type} {decode : Decoder α} {reply : Except CallError Reply} {a : α}

theorem read_eq_ok_iff : read decode reply = .ok a ↔
    ∃ r, reply = .ok r ∧ r.isSuccess = true ∧ decode (Draft.ofText r.text) = .ok a := by
  cases reply with
  | error e => simp [read]
  | ok r =>
    cases hsuccess : r.isSuccess with
    | false => simp [read, hsuccess]
    | true => cases hd : decode (Draft.ofText r.text) <;> simp [read, hsuccess, hd]

namespace Contract

variable {table : String} {call : ChainCall} {e : ReadError}

/-- A success whose body gives one value, which is an integer. -/
def Bears (reply : Except CallError Reply) (i : Int) : Prop :=
  ∃ r look v, reply = .ok r ∧ r.isSuccess = true ∧ (Draft.ofText r.text).Gives ["value"] look ∧
    look "value" = some v ∧ v.toInt? = some i

/-- A success whose body says a whole lineup. -/
def BearsLineup (reply : Except CallError Reply) (l : ChainLineup) : Prop :=
  ∃ r, reply = .ok r ∧ r.isSuccess = true ∧ (Draft.ofText r.text).SaysLineup l

/-- A reply that answers a call: an integer that fits, or a whole lineup. -/
def Good (call : ChainCall) (reply : Except CallError Reply) : Prop :=
  match call with
  | .lastHandNetted | .requestedHand => ∃ i, Bears reply i ∧ 0 ≤ i ∧ i < 2 ^ 64
  | .requestTime => ∃ i, Bears reply i ∧ -2 ^ 63 ≤ i ∧ i < 2 ^ 63
  | .lineup => ∃ l, BearsLineup reply l

theorem decodeValue_eq_ok_iff {d : Draft} : decodeValue decode d = .ok a ↔
    ∃ look v, d.Gives ["value"] look ∧ look "value" = some v ∧ decode v = .ok a := by
  rw [decodeValue, Record.decode_eq_ok_iff (.required _ _) (by simp [Record.required])]
  simp only [build_required_iff, ← exists_and_left]
  rfl

theorem readCall_eq_ok_iff : readCall decode table call reply = .ok a ↔ read decode reply = .ok a := by
  unfold readCall
  cases read decode reply <;> simp [Except.mapError]

/-- Whatever is not read is an error that names the table and the call. -/
theorem readCall_eq_error (h : readCall decode table call reply = .error e) : ∃ reason, e = .chain table call reason := by
  unfold readCall at h
  cases hread : read decode reply with
  | ok a =>
    rw [hread] at h
    cases h
  | error failure =>
    rw [hread] at h
    cases h
    exact ⟨_, rfl⟩

theorem readCounter_uint64_iff {n : UInt64} : readCounter Decode.uint64 table call reply = .ok n ↔ Bears reply n.toNat := by
  rw [readCounter, readCall_eq_ok_iff, read_eq_ok_iff]
  simp only [decodeValue_eq_ok_iff, uint64_eq_ok_iff, Bears, ← exists_and_left]

theorem readCounter_int64_iff {n : Int64} : readCounter Decode.int64 table call reply = .ok n ↔ Bears reply n.toInt := by
  rw [readCounter, readCall_eq_ok_iff, read_eq_ok_iff]
  simp only [decodeValue_eq_ok_iff, int64_eq_ok_iff, Bears, ← exists_and_left]

theorem readCall_lineup_iff {l : ChainLineup} :
    readCall ChainLineup.decode table call reply = .ok l ↔ BearsLineup reply l := by
  rw [readCall_eq_ok_iff, read_eq_ok_iff]
  simp only [ChainLineup.decode_eq_ok_iff, BearsLineup]

/-- A counter is read off a reply exactly if the reply bears an integer that fits. -/
theorem exists_uint64_iff : (∃ n, readCounter Decode.uint64 table call reply = .ok n) ↔
    ∃ i, Bears reply i ∧ 0 ≤ i ∧ i < 2 ^ 64 := by
  simp only [readCounter_uint64_iff]
  constructor
  · rintro ⟨n, hn⟩
    have hlt := n.toNat_lt
    exact ⟨_, hn, by omega, by omega⟩
  · rintro ⟨i, hi, hlow, hhigh⟩
    have hword : (UInt64.ofNat i.toNat).toNat = i.toNat :=
      UInt64.toNat_ofNat_of_lt' (by simp only [UInt64.size]; omega)
    refine ⟨UInt64.ofNat i.toNat, ?_⟩
    rwa [hword, Int.toNat_of_nonneg hlow]

theorem exists_int64_iff : (∃ n, readCounter Decode.int64 table call reply = .ok n) ↔
    ∃ i, Bears reply i ∧ -2 ^ 63 ≤ i ∧ i < 2 ^ 63 := by
  simp only [readCounter_int64_iff]
  constructor
  · rintro ⟨n, hn⟩
    exact ⟨_, hn, n.le_toInt, n.toInt_lt⟩
  · rintro ⟨i, hi, hlow, hhigh⟩
    exact ⟨Int64.ofInt i, by rwa [Int64.toInt_ofInt_of_le hlow hhigh]⟩

theorem exists_lineup_iff : (∃ l, readCall ChainLineup.decode table call reply = .ok l) ↔ ∃ l, BearsLineup reply l :=
  exists_congr fun _ => readCall_lineup_iff

end Contract

end Gateway

end TableEscrow
