import Mathlib.Algebra.Group.Nat.Defs
import TableEscrow.Change
import TableEscrow.Proofs.NettingForm
import TableEscrow.Proofs.Writings
import TableEscrow.Store.Hands
/-!
# Stored hands

A hand is read back from what it is written as, but for two things its document cannot say: a payout
that is null, and a signer of a reserved name (`Hand.decode_encode`). No hand that has been read has
either (`Hand.faithful_of_decode`), so hands and changes that have been read once are the same from then on.
What the store writes is such a document, with its columns beside it (`stored_hand_reads_back`).
-/

namespace TableEscrow

open Decode Record

variable {f : Json → Json}

/-! ## Seats -/

theorem Seat.sound_record : record.Sound :=
  .seq (.seq (.seq (.seq (.map _ (.required _ _)) (.withDefault _ _ _)) (.maybe _ _)) (.maybe _ _)) (.maybe _ _)

theorem Seat.nodup_members (s : Seat) : (s.encode.members.map (·.1)).Nodup := by
  have hnames : (["address", "amount"] ++ ["sitout"] ++ ["exitHand"] ++ ["last"]).Nodup := by decide
  refine hnames.sublist ?_
  simp only [encode, Json.members, List.map_append]
  iterate 3 refine .append ?_ (Json.names_member? ..)
  exact .refl _

theorem Seat.kept (hf : Writing f) : Kept f decode encode where
  back s := by
    have hread := reads_written hf sound_record "struct Seat" s.nodup_members
    refine hread.trans ?_
    simp [record, encode, Json.members, maybe, List.lookup_append, Json.lookup_member?, List.lookup_cons,
      (Kept.text hf).back, (Kept.uint64 hf).back, (Kept.int64 hf).member, (Kept.uint64 hf).member, (Kept.text hf).member]
  ne_null s := hf.object_ne_null _

/-! ## Hands -/

theorem HandState.kept (hf : Writing f) : Kept f decode encode := by
  refine .string hf fun s => reads_eq_some_iff.2 ?_
  cases s <;> rfl

namespace Hand

variable {h : Hand}

/-- The documents in a hand are as documents are read. -/
def Canonical (h : Hand) : Prop := (∀ v ∈ h.distribution, v.Canonical) ∧ ∀ n ∈ h.netting, n.Canonical

instance (h : Hand) : Decidable h.Canonical := inferInstanceAs (Decidable (_ ∧ _))

/-- A payout that is there is not null, and no reserved name signs the settlement. -/
def Faithful (h : Hand) : Prop := h.distribution ≠ some .null ∧ ∀ n ∈ h.netting, n.Unreserved

instance (h : Hand) : Decidable h.Faithful := inferInstanceAs (Decidable (_ ∧ _))

theorem sound_record : record.Sound := by
  iterate 14 refine .seq ?_ (by first | exact .required _ _ | exact .withDefault _ _ _)
  exact .map _ (.required _ _)

theorem nodup_members (h : Hand) : (h.encode.members.map (·.1)).Nodup := by
  have hnames : (["tableAddr", "handId", "state", "dealer", "sb", "lineup", "changed"] ++ ["started"] ++ ["deck"] ++
    ["preMaxBet"] ++ ["flopMaxBet"] ++ ["turnMaxBet"] ++ ["riverMaxBet"] ++ ["distribution"] ++ ["netting"]).Nodup := by decide
  refine hnames.sublist ?_
  simp only [encode, Json.members, List.map_append]
  iterate 8 refine .append ?_ (Json.names_member? ..)
  exact .refl _

/-- A hand is read back but for a payout that is null and for what is lost of its settlement. -/
theorem reads_encode (hf : Writing f) (hc : h.Canonical) {back : Netting → Netting}
    (hback : ∀ n ∈ h.netting, reads Netting.decode (f n.encode) = some (back n)) :
    reads decode (f h.encode) =
      some { h with distribution := h.distribution.filter (· ≠ .null), netting := h.netting.map back } := by
  have hread := reads_written hf sound_record "struct HandRecord" h.nodup_members
  have hnetting := elim_written hback fun n _ => hf.object_ne_null n.members
  refine hread.trans ?_
  simp [record, encode, Json.members, maybe, List.lookup_append, Json.lookup_member?, List.lookup_cons, (Kept.text hf).back,
    (Kept.uint64 hf).back, (HandState.kept hf).back, (Kept.size hf).back, (Kept.list hf (Seat.kept hf)).back,
    (Kept.int64 hf).back, (Kept.int64 hf).member, (Kept.uint64 hf).member, (Kept.list hf (Kept.byte hf)).member,
    elim_json hf hc.1, hnetting]

/-- What is written is read, and is the same hand exactly if nothing is lost of its documents. -/
theorem decode_encode (hf : Writing f) (hc : h.Canonical) :
    ∃ back, decode (.ofJson (f h.encode)) = .ok back ∧ (back = h ↔ h.Faithful) := by
  obtain ⟨back, hback⟩ : ∃ back : Netting → Netting, ∀ n ∈ h.netting,
      reads Netting.decode (f n.encode) = some (back n) ∧ (back n = n ↔ n.Unreserved) := by
    cases hn : h.netting with
    | none => exact ⟨fun n => n, nofun⟩
    | some n =>
      have hcanonical := hc.2 n hn
      obtain ⟨back, hback, hiff⟩ := Netting.decode_encode hcanonical
      -- A settlement is canonical as it is written, so only one writing of it has to be read back.
      have hwritten : f n.encode = n.encode := hf.of_canonical (Netting.canonical_members hcanonical)
      refine ⟨fun _ => back, fun m hm => ?_⟩
      cases hm
      exact ⟨by rw [hwritten]; exact reads_eq_some_iff.2 hback, hiff⟩
  refine ⟨_, reads_eq_some_iff.1 (reads_encode hf hc fun n hn => (hback n hn).1), ?_⟩
  -- Of fifteen members two can change.
  have hsame : { h with distribution := h.distribution.filter (· ≠ .null), netting := h.netting.map back } = h ↔
      h.distribution.filter (· ≠ .null) = h.distribution ∧ h.netting.map back = h.netting := by
    cases h
    simp
  rw [hsame, Faithful]
  refine and_congr ?_ ?_
  · cases h.distribution with
    | none => simp
    | some v => simp [Option.filter]
  · cases hn : h.netting with
    | none => simp
    | some n => simpa using (hback n hn).2

theorem ensures_record : record.Ensures fun h => h.Canonical ∧ h.Faithful := by
  have hpayout : ∀ d v, d ≠ .null → json d = .ok v → v.Canonical ∧ v ≠ .null :=
    fun d v hd hv => ⟨Json.canonical_of_json hv, fun hnull => hd (json_eq_null (hnull ▸ hv))⟩
  have hnetting : ∀ d n, d ≠ .null → Netting.decode d = .ok n → n.Unreserved ∧ n.Canonical :=
    fun _ _ _ hn => Netting.unreserved_of_decode hn
  refine .seq (.seq ?_ (.maybe hpayout)) (.maybe hnetting)
  iterate 12 refine .seq_any ?_ _
  refine .map_any ?_ _
  intro _ _ _ _ _ _ _ _ _ _ _ _ _ distribution hdistribution netting hnetting
  exact ⟨⟨fun v hv => (hdistribution v hv).1, fun n hn => (hnetting n hn).2⟩,
    fun hnull => (hdistribution .null hnull).2 rfl, fun n hn => (hnetting n hn).1⟩

/-- No hand that has been read loses anything of its documents. -/
theorem faithful_of_decode {d : Draft} (hd : decode d = .ok h) : h.Canonical ∧ h.Faithful := ensures_record.of_decode hd

theorem decode_encode_of_decode (hf : Writing f) {d : Draft} (hd : decode d = .ok h) :
    decode (.ofJson (f h.encode)) = .ok h := by
  obtain ⟨hc, hfaithful⟩ := faithful_of_decode hd
  obtain ⟨back, hback, hiff⟩ := decode_encode hf hc
  rw [hback, hiff.2 hfaithful]

end Hand

/-! ## Changes -/

theorem ChangeKind.kept (hf : Writing f) : Kept f decode encode := by
  refine .string hf fun k => reads_eq_some_iff.2 ?_
  cases k <;> rfl

namespace HandChange

variable {c : HandChange}

theorem sound_record : record.Sound :=
  .seq (.seq (.seq (.seq (.map _ (.required _ _)) (.required _ _)) (.required _ _)) (.maybe _ _)) (.maybe _ _)

/-- Both hands of a change are read back. -/
def Faithful (c : HandChange) : Prop :=
  (∀ h ∈ c.before, h.Canonical ∧ h.Faithful) ∧ ∀ h ∈ c.after, h.Canonical ∧ h.Faithful

theorem faithful_of_decode {d : Draft} (hd : decode d = .ok c) : c.Faithful := by
  have hhand : ∀ d h, d ≠ .null → Hand.decode d = .ok h → h.Canonical ∧ h.Faithful := fun _ _ _ => Hand.faithful_of_decode
  have hrecord : record.Ensures Faithful := by
    refine .seq (.seq ?_ (.maybe hhand)) (.maybe hhand)
    iterate 2 refine .seq_any ?_ _
    refine .map_any ?_ _
    intro _ _ _ before hbefore after hafter
    exact ⟨hbefore, hafter⟩
  exact hrecord.of_decode hd

theorem decode_encode_of_decode (hf : Writing f) {d : Draft} (hd : decode d = .ok c) :
    decode (.ofJson (f c.encode)) = .ok c := by
  have hback : ∀ h : Hand, h.Canonical ∧ h.Faithful → reads Hand.decode (f h.encode) = some h := by
    rintro h ⟨hc, hfaithful⟩
    obtain ⟨back, hback, hiff⟩ := Hand.decode_encode hf hc
    rw [reads_eq_some_iff, hback, hiff.2 hfaithful]
  have hnull : ∀ h : Hand, f h.encode ≠ .null := fun h => hf.object_ne_null h.encode.members
  obtain ⟨hbefore, hafter⟩ := faithful_of_decode hd
  have hread (o : Option Hand) (ho : ∀ h ∈ o, h.Canonical ∧ h.Faithful) :=
    reads_orNull hf (fun h hh => hback h (ho h hh)) fun h _ => hnull h
  rw [← reads_eq_some_iff]
  unfold decode encode
  rw [reads_written hf sound_record _ (by simp)]
  simp [record, maybe, List.lookup_cons, (ChangeKind.kept hf).back, (Kept.text hf).back, (Kept.uint64 hf).back,
    hread c.before hbefore, hread c.after hafter]

end HandChange

end TableEscrow

namespace TableEscrow.Store.Hands

open Decode

variable {σ : Type} {h : Hand} {row : HandRow}

/-- The parameters that write a hand: each column is what the document holds under its name. -/
def Agree (parameters : List Parameter) : Prop :=
  ∃ table hand state changed document,
    parameters = [.text table, .integer hand, .text state, .integer changed, .document document] ∧
    document.at? ["tableAddr"] = some (.string table) ∧ document.at? ["handId"] = some (.integer hand) ∧
    document.at? ["state"] = some (.string state) ∧ document.at? ["changed"] = some (.integer changed)

/-- A word that has a sign is written alike with it and without. -/
theorem integer_of_signed? {n : UInt64} {w : Int64} (h : Word.signed? n.toNat = some w) : Json.integer w = .natural n := by
  have hw : w.toInt = n.toNat := Word.signed?_eq_some h
  have hnonneg : ¬ w < 0 := by
    rw [Int64.lt_iff_toInt_lt, hw]
    exact Int.not_lt.2 (Int.natCast_nonneg _)
  rw [Json.integer, Number.ofInt64, dif_neg hnonneg, hw]
  simp [Json.natural]

theorem row?_of_large (hlarge : 2 ^ 63 - 1 < h.id.toNat) : row? h = none := by
  have hno : ¬ Word.Signed h.id.toNat := by
    rintro ⟨-, hle⟩
    omega
  rw [row?, Word.signed?, if_neg hno]
  rfl

theorem row?_of_le (hle : h.id.toNat ≤ 2 ^ 63 - 1) :
    ∃ hand, Word.signed? h.id.toNat = some hand ∧ row? h = some ⟨h.table, hand, h.state, h.changed, h.encode.sorted⟩ := by
  have hsigned : Word.Signed h.id.toNat := ⟨by omega, by omega⟩
  refine ⟨_, if_pos hsigned, ?_⟩
  rw [row?, Word.signed?, if_pos hsigned]
  rfl

theorem at?_record {name : String} {v : Json} (hv : h.encode.members.lookup name = some v) :
    h.encode.sorted.at? [name] = some v.sorted := by
  obtain ⟨entries, hentries, hlookup⟩ := Json.sorted_object h.nodup_members
  have hsorted : h.encode.sorted = .object entries := hentries
  rw [hsorted, Json.at?, hlookup, hv]
  rfl

theorem agree_of_row (hrow : row? h = some row) : Agree (Statement.putHand row).parameters := by
  obtain ⟨hand, hhand, rfl⟩ := Option.map_eq_some_iff.1 hrow
  have htable : h.encode.members.lookup "tableAddr" = some (.string h.table) := rfl
  have hnumber : h.encode.members.lookup "handId" = some (.natural h.id) := rfl
  have hstate : h.encode.members.lookup "state" = some (.string h.state.name) := rfl
  have hchanged : h.encode.members.lookup "changed" = some (.integer h.changed) := rfl
  rw [← integer_of_signed? hhand] at hnumber
  exact ⟨h.table, hand, h.state.name, h.changed, h.encode.sorted, rfl, at?_record htable, at?_record hnumber,
    at?_record hstate, at?_record hchanged⟩

theorem run_eq (db : Database σ) (statement : Statement) (s : σ) : db.run statement s =
    ((db.answer statement s).1.mapError fun reason => .failed statement (.refused reason), (db.answer statement s).2) :=
  rfl

/-- A hand is written by one statement, and one that changes no row is an error. -/
theorem put_of_row (hrow : row? h = some row) (db : Database σ) (s : σ) :
    (put db h s).2 = (db.answer (.putHand row) s).2 ∧ (put db h s).1 =
      match (db.answer (.putHand row) s).1 with
      | .ok 0 => .error (.stale row)
      | .ok _ => .ok ()
      | .error reason => .error (.failed (.putHand row) (.refused reason)) := by
  have hrun := run_eq db (.putHand row) s
  generalize db.answer (.putHand row) s = answer at hrun ⊢
  simp only [put, hrow, hrun]
  match answer with
  | (.error reason, s') => exact ⟨rfl, rfl⟩
  | (.ok 0, s') => exact ⟨rfl, rfl⟩
  | (.ok (count + 1), s') => exact ⟨rfl, rfl⟩

/-- The document of a hand is read as the hand. -/
theorem last_of_row (hrow : row? h = some row) (hc : h.Canonical) (db : Database σ) (table : String) (s : σ)
    (hanswer : (db.answer (.lastHand table) s).1 = .ok (some row.record)) :
    ∃ back, (last db table s).1 = .ok (some back) ∧ (back = h ↔ h.Faithful) := by
  obtain ⟨hand, -, rfl⟩ := Option.map_eq_some_iff.1 hrow
  obtain ⟨back, hback, hiff⟩ := Hand.decode_encode .sorted hc
  refine ⟨back, ?_, hiff⟩
  simp only [last, run_eq, hanswer, Except.mapError, ofDocument, hback, Except.map]

/-- A hand is read back from what it is written as, unless its payout is null or a reserved name signs
its settlement; a hand or a change that has been read always is. The store refuses a hand whose number
has no place in its column, and then asks the database nothing. Any other hand it writes by one
statement, whose columns are members of the document, and a write that changes no row is an error; from
that document it reads the hand back. -/
theorem stored_hand_reads_back :
    (∀ h : Hand, h.Canonical → ∀ f, Writing f →
      ∃ back, Hand.decode (.ofJson (f h.encode)) = .ok back ∧ (back = h ↔ h.Faithful)) ∧
    (∀ d h, Hand.decode d = .ok h → ∀ f, Writing f → Hand.decode (.ofJson (f h.encode)) = .ok h) ∧
    (∀ d c, HandChange.decode d = .ok c → ∀ f, Writing f → HandChange.decode (.ofJson (f c.encode)) = .ok c) ∧
    (∀ h : Hand, 2 ^ 63 - 1 < h.id.toNat → ∀ (σ : Type) (db : Database σ) s, put db h s = (.error .handOutOfRange, s)) ∧
    ∀ h : Hand, h.id.toNat ≤ 2 ^ 63 - 1 → ∃ row, row? h = some row ∧ Agree (Statement.putHand row).parameters ∧
      (∀ (σ : Type) (db : Database σ) s, (put db h s).2 = (db.answer (.putHand row) s).2 ∧ (put db h s).1 =
        match (db.answer (.putHand row) s).1 with
        | .ok 0 => .error (.stale row)
        | .ok _ => .ok ()
        | .error reason => .error (.failed (.putHand row) (.refused reason))) ∧
      (h.Canonical → ∀ (σ : Type) (db : Database σ) table s,
        (db.answer (.lastHand table) s).1 = .ok (some row.record) →
          ∃ back, (last db table s).1 = .ok (some back) ∧ (back = h ↔ h.Faithful)) := by
  refine ⟨fun h hc f hf => Hand.decode_encode hf hc, fun d h hd f hf => Hand.decode_encode_of_decode hf hd,
    fun d c hd f hf => HandChange.decode_encode_of_decode hf hd, fun h hlarge σ db s => ?_, fun h hle => ?_⟩
  · simp only [put, row?_of_large hlarge]
  · obtain ⟨hand, -, hrow⟩ := row?_of_le hle
    exact ⟨_, hrow, agree_of_row hrow, fun _ db s => put_of_row hrow db s,
      fun hc _ db table s hanswer => last_of_row hrow hc db table s hanswer⟩

/-- A payout of null is lost; a settled hand is stored and read back; a change of no known kind is one of
an unknown kind from then on; and hand `2 ^ 63` is not stored. -/
theorem stored_hand_reads_back_null_payout :
    let settled := { Hand.start "0xt" 7 .showdown 100 with
      lineup := [⟨"0xaa", 500, some 90, none, none⟩], deck := some [3, 255], distribution := some (.string "0xaa"),
      netting := some ((Netting.ofBalances (.string "0x01") "sig-o").sign "0xaa" "sig-a") }
    let unpaid := { settled with distribution := some .null }
    let change := Draft.array [.string "TRUNCATE", .string "0xt", .number (.natural 7)]
    let stored : Database Unit := ⟨fun
      | .lastHand _, s => (.ok (some settled.encode.sorted), s)
      | .putHand _, s => (.ok 0, s)
      | _, s => (.error "closed", s)⟩
    (∃ back, Hand.decode (.ofJson unpaid.encode) = .ok back ∧ back ≠ unpaid) ∧
      (last stored "0xt" ()).1 = .ok (some settled) ∧ (∃ row, (put stored settled ()).1 = .error (.stale row)) ∧
      (∃ c, HandChange.decode change = .ok c ∧ c.kind = .unknown ∧ HandChange.decode (.ofJson c.encode.sorted) = .ok c) ∧
      put stored (.start "0xt" 9223372036854775808 .waiting 0) () = (.error .handOutOfRange, ()) := by
  intro settled unpaid change stored
  have hsettled : settled.Canonical ∧ settled.Faithful := by decide
  have hunpaid : unpaid.Canonical ∧ ¬ unpaid.Faithful := by decide
  obtain ⟨hhand, -, hchange, hlarge, hstore⟩ := stored_hand_reads_back
  obtain ⟨lost, hlost, hsame⟩ := hhand unpaid hunpaid.1 id .given
  obtain ⟨row, hrow, -, hput, hlast⟩ := hstore settled (by decide)
  obtain ⟨hand, -, rfl⟩ := Option.map_eq_some_iff.1 hrow
  obtain ⟨back, hback, hiff⟩ := hlast hsettled.1 Unit stored "0xt" () rfl
  have hread : HandChange.decode change = .ok ⟨.unknown, "0xt", 7, none, none⟩ := rfl
  refine ⟨⟨lost, hlost, fun heq => hunpaid.2 (hsame.1 heq)⟩, by rw [hback, hiff.2 hsettled.2], ⟨_, (hput Unit stored ()).2⟩,
    ⟨_, hread, rfl, hchange _ _ hread _ .sorted⟩, hlarge _ (by decide +kernel) Unit stored ()⟩

end TableEscrow.Store.Hands
