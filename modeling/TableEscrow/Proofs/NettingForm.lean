import TableEscrow.Netting
import TableEscrow.Proofs.Documents
/-!
# The flat form of a settlement

Signatures, balances and the oracle's signature share the names of one object. What a name holds
there (`lookup_members`) is all there is to a settlement that no reserved name signs
(`eq_of_members_eq`). To read an object is to keep its members, a null signature of the oracle left
out (`kept_of_ok`), or to name the first one that is refused (`firstRefused_of_foldlM`).
-/

namespace TableEscrow.Netting

variable {n n' : Netting} {members : List (String × Json)} {name : String} {value : Json} {f : Fault}

/-- A member that the object may have. -/
def Admits (name : String) (value : Json) : Prop :=
  name = balancesName ∨ (∃ signature, value = .string signature) ∨ name = oracleName ∧ value = .null

/-- The least name with a member that is refused. -/
structure FirstRefused (members : List (String × Json)) (key : String) : Prop where
  refused : ∃ value, (key, value) ∈ members ∧ ¬ Admits key value
  least : ∀ m ∈ members, ¬ Admits m.1 m.2 → key ≤ m.1

/-- No reserved name is a signer. -/
def Unreserved (n : Netting) : Prop :=
  n.signatures.contains balancesName = false ∧ n.signatures.contains oracleName = false

instance (n : Netting) : Decidable n.Unreserved := inferInstanceAs (Decidable (_ ∧ _))

/-- The balances are a document as it is read. -/
def Canonical (n : Netting) : Prop := ∀ b ∈ n.finalBalances, b.Canonical

instance (n : Netting) : Decidable n.Canonical := inferInstanceAs (Decidable (∀ b ∈ n.finalBalances, b.Canonical))

theorem unreserved_iff : n.Unreserved ↔
    n.signatures.get? balancesName = none ∧ n.signatures.get? oracleName = none := by
  simp [Unreserved, Keyed.contains]

@[simp] theorem oracleName_ne_balancesName : oracleName ≠ balancesName := by decide

@[simp] theorem balancesName_ne_oracleName : balancesName ≠ oracleName := by decide

/-! ## What the names hold -/

theorem lookup_signed (entries : List (String × String)) (name : String) :
    (entries.map fun (signer, signature) => (signer, Json.string signature)).lookup name =
      (entries.lookup name).map .string := by
  induction entries with
  | nil => rfl
  | cons e rest ih =>
    obtain ⟨signer, signature⟩ := e
    by_cases h : name = signer
    · simp [h]
    · simp [Keyed.lookup_cons_ne h, ih]

/-- A reserved name holds its own value before that of a signer. -/
theorem lookup_members (n : Netting) (name : String) : n.members.lookup name =
    if name = balancesName then n.finalBalances.or ((n.signatures.get? name).map .string)
    else if name = oracleName then (n.oracleSignature.map .string).or ((n.signatures.get? name).map .string)
    else (n.signatures.get? name).map .string := by
  obtain ⟨signatures, balances, oracle⟩ := n
  unfold members
  by_cases hb : name = balancesName
  · subst hb
    cases balances <;> cases oracle <;>
      simp [Keyed.lookup_insertInto_self, Keyed.lookup_insertInto_other, lookup_signed, Keyed.get?]
  · by_cases ho : name = oracleName
    · subst ho
      cases balances <;> cases oracle <;>
        simp [Keyed.lookup_insertInto_self, Keyed.lookup_insertInto_other, lookup_signed, Keyed.get?]
    · cases balances <;> cases oracle <;>
        simp [Keyed.lookup_insertInto_other, hb, ho, lookup_signed, Keyed.get?]

theorem ascending_members (n : Netting) : n.members.Pairwise (·.1 < ·.1) := by
  have hsigned : (n.signatures.entries.map fun (signer, signature) => (signer, Json.string signature)).Pairwise
      (·.1 < ·.1) := List.pairwise_map.2 n.signatures.ascending
  unfold members
  cases n.finalBalances <;> cases n.oracleSignature <;>
    simp only [Keyed.ascending_insertInto, hsigned]

/-- The flat object is all there is to a settlement that no reserved name signs. -/
theorem eq_of_members_eq (hn : n.Unreserved) (hn' : n'.Unreserved) (h : n.members = n'.members) : n = n' := by
  obtain ⟨hb, ho⟩ := unreserved_iff.1 hn
  obtain ⟨hb', ho'⟩ := unreserved_iff.1 hn'
  have hlookup : ∀ name, n.members.lookup name = n'.members.lookup name := fun name => by rw [h]
  have hbalances : n.finalBalances = n'.finalBalances := by
    simpa [lookup_members, hb, hb'] using hlookup balancesName
  have hinjective : ∀ {a b : Option String}, a.map Json.string = b.map Json.string → a = b :=
    fun hab => Option.map_injective (fun _ _ => Json.string.inj) hab
  have horacle : n.oracleSignature = n'.oracleSignature :=
    hinjective (by simpa [lookup_members, ho, ho'] using hlookup oracleName)
  have hget : ∀ name, n.signatures.get? name = n'.signatures.get? name := by
    intro name
    by_cases hname : name = balancesName
    · rw [hname, hb, hb']
    · by_cases hname' : name = oracleName
      · rw [hname', ho, ho']
      · exact hinjective (by simpa [lookup_members, hname, hname'] using hlookup name)
  have hentries := Keyed.eq_of_lookup_eq n.signatures.ascending n'.signatures.ascending hget
  obtain ⟨⟨entries, _⟩, _, _⟩ := n
  obtain ⟨⟨entries', _⟩, _, _⟩ := n'
  simp_all

/-- Its signers are its members under all other names. -/
theorem signerCount_eq (hn : n.Unreserved) : n.signerCount =
    (n.members.filter fun m => m.1 ≠ balancesName ∧ m.1 ≠ oracleName).length := by
  obtain ⟨hb, ho⟩ := unreserved_iff.1 hn
  have hsigned : n.signatures.entries.map (fun (signer, signature) => (signer, Json.string signature)) =
      n.members.filter fun m => m.1 ≠ balancesName ∧ m.1 ≠ oracleName := by
    refine Keyed.eq_of_lookup_eq (List.pairwise_map.2 n.signatures.ascending)
      (n.ascending_members.filter _) fun name => ?_
    have hget : n.signatures.entries.lookup name = n.signatures.get? name := rfl
    rw [lookup_signed, hget, Keyed.lookup_filter_name (fun name => name ≠ balancesName ∧ name ≠ oracleName),
      lookup_members]
    by_cases hname : name = balancesName
    · simp [hname, hb]
    · by_cases hname' : name = oracleName
      · simp [hname', ho]
      · simp [hname, hname']
  rw [← hsigned, List.length_map]
  rfl

/-! ## One member -/

theorem addMember_eq_error_iff : n.addMember name value = .error f ↔ ¬ Admits name value ∧ f = .signature name := by
  unfold addMember Admits
  by_cases hb : name = balancesName
  · simp [hb]
  · by_cases ho : name = oracleName
    · cases value <;> simp [ho, eq_comm]
    · cases value <;> simp [hb, ho, eq_comm]

theorem lookup_sign (n : Netting) (signer signature name : String) :
    (n.sign signer signature).signatures.get? name =
      if name = signer then some signature else n.signatures.get? name := by
  by_cases h : name = signer
  · rw [if_pos h, h, sign, Keyed.get?_insert_self]
  · rw [if_neg h, sign, Keyed.get?_insert_other h]

/-- The member is kept, unless it is a null signature of the oracle. -/
theorem addMember_of_ok (hn : n.Unreserved) (h : n.addMember name value = .ok n') :
    n'.Unreserved ∧ ∀ other, n'.members.lookup other =
      if other = name ∧ (name, value) ≠ (oracleName, .null) then some value else n.members.lookup other := by
  rw [unreserved_iff] at hn ⊢
  unfold addMember at h
  by_cases hb : name = balancesName
  · simp only [hb, if_true] at h
    cases h
    refine ⟨hn, fun other => ?_⟩
    by_cases ho : other = balancesName <;> simp [lookup_members, hb, ho]
  · by_cases ho : name = oracleName
    · subst ho
      cases value <;> simp at h <;> subst h
      · exact ⟨hn, fun other => by simp⟩
      · refine ⟨hn, fun other => ?_⟩
        by_cases ho : other = oracleName <;> simp [lookup_members, ho]
    · cases value <;> simp [hb, ho] at h
      subst h
      refine ⟨by simp [lookup_sign, Ne.symm hb, Ne.symm ho, hn], fun other => ?_⟩
      by_cases hother : other = name
      · simp [lookup_members, lookup_sign, hother, hb, ho]
      · simp only [lookup_members, lookup_sign, hother, if_false, false_and]
        rfl

/-! ## All members -/

/-- What members are added to: a null signature of the oracle aside, each of them is kept. -/
theorem kept_of_foldlM (hnames : (members.map (·.1)).Nodup) (hn : n.Unreserved)
    (h : members.foldlM (fun n (name, value) => n.addMember name value) n = .ok n') :
    n'.Unreserved ∧ (∀ m ∈ members, Admits m.1 m.2) ∧ ∀ name, n'.members.lookup name =
      ((members.filter (· ≠ (oracleName, .null))).lookup name).or (n.members.lookup name) := by
  induction members generalizing n with
  | nil =>
    cases h
    exact ⟨hn, by simp, fun name => by simp⟩
  | cons m rest ih =>
    obtain ⟨key, value⟩ := m
    obtain ⟨hkey, hrest⟩ := List.nodup_cons.1 hnames
    rw [List.foldlM_cons] at h
    cases hadd : n.addMember key value with
    | error f =>
      simp only [hadd] at h
      cases h
    | ok next =>
      simp only [hadd] at h
      obtain ⟨hnext, hlookup⟩ := addMember_of_ok hn hadd
      obtain ⟨hn', hadmits, hlookup'⟩ := ih hrest hnext h
      refine ⟨hn', ?_, fun name => ?_⟩
      · intro m hm
        rcases List.mem_cons.1 hm with rfl | hm
        · by_contra hrefused
          rw [addMember_eq_error_iff.2 ⟨hrefused, rfl⟩] at hadd
          cases hadd
        · exact hadmits m hm
      · rw [hlookup', hlookup, List.filter_cons]
        by_cases hname : name = key
        · -- No later member has the name.
          subst hname
          have hlater : (rest.filter (· ≠ (oracleName, .null))).lookup name = none := by
            rw [Keyed.lookup_filter hrest, Keyed.lookup_eq_none_of_not_mem hkey]
            rfl
          simp only [ne_eq, decide_not] at hlater ⊢
          by_cases hnull : (name, value) = (oracleName, .null) <;> simp [hlater, hnull]
        · by_cases hnull : (key, value) = (oracleName, .null) <;>
            simp [hname, hnull, Keyed.lookup_cons_ne]

theorem exists_foldlM (h : ∀ m ∈ members, Admits m.1 m.2) (n : Netting) :
    ∃ n', members.foldlM (fun n (name, value) => n.addMember name value) n = .ok n' := by
  induction members generalizing n with
  | nil => exact ⟨n, rfl⟩
  | cons m rest ih =>
    obtain ⟨key, value⟩ := m
    rw [List.foldlM_cons]
    cases hadd : n.addMember key value with
    | error f => exact absurd (h _ List.mem_cons_self) (addMember_eq_error_iff.1 hadd).1
    | ok next =>
      simp only [hadd]
      exact ih (fun m hm => h m (List.mem_cons_of_mem _ hm)) next

theorem firstRefused_of_foldlM (hascending : members.Pairwise (·.1 < ·.1))
    (h : members.foldlM (fun n (name, value) => n.addMember name value) n = .error f) :
    ∃ key, f = .signature key ∧ FirstRefused members key := by
  induction members generalizing n with
  | nil => cases h
  | cons m rest ih =>
    obtain ⟨key, value⟩ := m
    obtain ⟨hkey, hrest⟩ := List.pairwise_cons.1 hascending
    rw [List.foldlM_cons] at h
    cases hadd : n.addMember key value with
    | error g =>
      simp only [hadd] at h
      cases h
      obtain ⟨hrefused, rfl⟩ := addMember_eq_error_iff.1 hadd
      refine ⟨key, rfl, ⟨value, List.mem_cons_self, hrefused⟩, ?_⟩
      intro m hm _
      rcases List.mem_cons.1 hm with rfl | hm
      · exact String.le_refl _
      · exact String.not_lt.1 (String.lt_asymm (hkey m hm))
    | ok next =>
      simp only [hadd] at h
      obtain ⟨first, hf, ⟨value', hmem, hrefused⟩, hleast⟩ := ih hrest h
      refine ⟨first, hf, ⟨value', List.mem_cons_of_mem _ hmem, hrefused⟩, ?_⟩
      intro m hm hm'
      rcases List.mem_cons.1 hm with rfl | hm
      · rw [addMember_eq_error_iff.2 ⟨hm', rfl⟩] at hadd
        cases hadd
      · exact hleast m hm hm'

/-! ## Reading and writing -/

theorem unreserved_empty : empty.Unreserved := by decide

theorem decode_object (h : Json.Canonical (.object members)) : decode (.ofJson (.object members)) = ofMembers members := by
  rw [decode, Json.members_ofJson h]
  rfl

/-- What is read is what is kept of the members. -/
theorem kept_of_ok (hnames : (members.map (·.1)).Nodup) (h : ofMembers members = .ok n) :
    n.Unreserved ∧ (∀ m ∈ members, Admits m.1 m.2) ∧
      ∀ name, n.members.lookup name = (members.filter (· ≠ (oracleName, .null))).lookup name := by
  obtain ⟨hn, hadmits, hlookup⟩ := kept_of_foldlM hnames unreserved_empty h
  refine ⟨hn, hadmits, fun name => ?_⟩
  rw [hlookup]
  exact Option.or_none

theorem members_of_ok (hascending : members.Pairwise (·.1 < ·.1)) (h : ofMembers members = .ok n) :
    n.members = members.filter (· ≠ (oracleName, .null)) :=
  Keyed.eq_of_lookup_eq n.ascending_members (hascending.filter _)
    (kept_of_ok (Keyed.nodup_of_ascending hascending) h).2.2

/-- Whatever is read has no reserved signer, and balances as they are read. -/
theorem unreserved_of_decode {d : Draft} (h : decode d = .ok n) : n.Unreserved ∧ n.Canonical := by
  unfold decode at h
  cases hms : Decode.members d with
  | error f => rw [hms] at h; cases h
  | ok members =>
    rw [hms] at h
    have hcanonical := Json.canonical_of_members hms
    obtain ⟨hn, -, hlookup⟩ := kept_of_ok hcanonical.nodup_names h
    refine ⟨hn, fun b hb => ?_⟩
    have hbalances : n.members.lookup balancesName = some b := by
      rw [lookup_members, if_pos rfl, Option.mem_def.1 hb]
      rfl
    rw [hlookup, Keyed.lookup_filter hcanonical.nodup_names] at hbalances
    exact hcanonical.of_lookup (Option.eq_some_of_filter_eq_some hbalances)

/-- Every member is the balances or a signature. -/
theorem balances_or_string {m : String × Json} (hm : m ∈ n.members) :
    m.1 = balancesName ∧ n.finalBalances = some m.2 ∨ ∃ signature, m.2 = .string signature := by
  have hvalue := (Keyed.lookup_eq_some_iff_mem (Keyed.nodup_of_ascending n.ascending_members)).2 hm
  rw [lookup_members] at hvalue
  split at hvalue
  · next hname =>
    rcases Option.or_eq_some_iff.1 hvalue with hbalances | ⟨-, hsigned⟩
    · exact .inl ⟨hname, hbalances⟩
    · obtain ⟨signature, -, hsignature⟩ := Option.map_eq_some_iff.1 hsigned
      exact .inr ⟨signature, hsignature.symm⟩
  · have hstring : ∃ o : Option String, o.map Json.string = some m.2 := by
      split at hvalue
      · rw [← Option.map_or] at hvalue
        exact ⟨_, hvalue⟩
      · exact ⟨_, hvalue⟩
    obtain ⟨o, ho⟩ := hstring
    obtain ⟨signature, -, hsignature⟩ := Option.map_eq_some_iff.1 ho
    exact .inr ⟨signature, hsignature.symm⟩

theorem canonical_members (hn : n.Canonical) : Json.Canonical (.object n.members) := by
  refine .object n.ascending_members fun m hm => ?_
  rcases balances_or_string hm with ⟨-, hbalances⟩ | ⟨signature, hsignature⟩
  · exact hn _ hbalances
  · rw [hsignature]
    exact .string signature

theorem admits_of_mem {m : String × Json} (hm : m ∈ n.members) : Admits m.1 m.2 := by
  rcases balances_or_string hm with ⟨hname, -⟩ | hstring
  · exact .inl hname
  · exact .inr (.inl hstring)

theorem ne_null_of_mem {m : String × Json} (hm : m ∈ n.members) : m ≠ (oracleName, .null) := by
  rintro rfl
  rcases balances_or_string hm with ⟨hname, -⟩ | ⟨signature, hsignature⟩
  · exact oracleName_ne_balancesName hname
  · cases hsignature

/-- What is written is read, and nothing is lost of it unless a reserved name is a signer. -/
theorem decode_encode (hn : n.Canonical) :
    ∃ back, decode (.ofJson n.encode) = .ok back ∧ (back = n ↔ n.Unreserved) := by
  obtain ⟨back, hback⟩ := exists_foldlM (fun m hm => admits_of_mem hm) empty
  have hmembers := members_of_ok n.ascending_members hback
  have hunreserved := (kept_of_ok (Keyed.nodup_of_ascending n.ascending_members) hback).1
  have hkept : n.members.filter (· ≠ (oracleName, .null)) = n.members :=
    List.filter_eq_self.2 fun m hm => by simpa using ne_null_of_mem hm
  refine ⟨back, (decode_object (canonical_members hn)).trans hback, fun h => h ▸ hunreserved, fun h => ?_⟩
  exact eq_of_members_eq hunreserved h (hmembers.trans hkept)

theorem decode_object_ok (h : Json.Canonical (.object members)) (hn : decode (.ofJson (.object members)) = .ok n) :
    n.signerCount = (members.filter fun m => m.1 ≠ balancesName ∧ m.1 ≠ oracleName).length ∧
      n.encode = .object (members.filter (· ≠ (oracleName, .null))) := by
  rw [decode_object h] at hn
  have hmembers := members_of_ok h.ascending_of_object hn
  refine ⟨?_, congrArg Json.object hmembers⟩
  rw [signerCount_eq (kept_of_ok h.nodup_names hn).1, hmembers, List.filter_filter]
  -- A member that is left out has a reserved name.
  congr 2
  funext m
  by_cases hname : m.1 = oracleName
  · simp [hname]
  · have hne : m ≠ (oracleName, .null) := fun heq => hname (congrArg Prod.fst heq)
    simp [hne]

/-- An object is read exactly if each of its members is balances, a string or a null signature of the
oracle, and the first other one is named; what is read is written as the object without that null.
What is written is read, and comes back exactly if no reserved name is a signer: a reserved name holds
its own value, if there is one, and not the signature of a signer of that name. -/
theorem flat_form_exact :
    (∀ members : List (String × Json), Json.Canonical (.object members) →
      ((∃ n, decode (.ofJson (.object members)) = .ok n) ↔ ∀ m ∈ members, Admits m.1 m.2) ∧
      (∀ f, decode (.ofJson (.object members)) = .error f → ∃ key, FirstRefused members key ∧
        f = .signature key ∧ f.message = "netting signature for '" ++ key ++ "' is not a string") ∧
      ∀ n, decode (.ofJson (.object members)) = .ok n →
        n.signerCount = (members.filter fun m => m.1 ≠ balancesName ∧ m.1 ≠ oracleName).length ∧
        n.encode = .object (members.filter (· ≠ (oracleName, .null)))) ∧
    ∀ n : Netting, n.Canonical →
      (∃ back, decode (.ofJson n.encode) = .ok back ∧ (back = n ↔ n.Unreserved)) ∧
      (∀ b, n.finalBalances = some b → n.encode.at? [balancesName] = some b) ∧
      ∀ s, n.oracleSignature = some s → n.encode.at? [oracleName] = some (.string s) := by
  refine ⟨fun members h => ⟨?_, ?_, fun n hn => decode_object_ok h hn⟩, fun n hn => ⟨decode_encode hn, ?_, ?_⟩⟩
  · rw [decode_object h]
    refine ⟨?_, fun hadmits => exists_foldlM hadmits empty⟩
    rintro ⟨n, hn⟩
    exact (kept_of_ok h.nodup_names hn).2.1
  · intro f hf
    rw [decode_object h] at hf
    obtain ⟨key, rfl, hfirst⟩ := firstRefused_of_foldlM h.ascending_of_object hf
    exact ⟨key, hfirst, rfl, rfl⟩
  · intro b hb
    simp [encode, Json.at?, lookup_members, hb]
  · intro s hs
    simp [encode, Json.at?, lookup_members, hs]

/-- Null balances stay and a null signature goes; of two members that are no strings the first is
named; and a signer that has the name of the balances is lost. -/
theorem flat_form_exact_reserved_names :
    let settled := [("0xaa", Json.string "sig-a"), (oracleName, .null), (balancesName, .null)]
    let refused := [("0xaa", Json.string "sig-a"), ("0xbb", .natural 12), ("0xcc", .bool true)]
    let hidden := (ofBalances (.string "0xbalances") "sig-oracle").sign balancesName "sig-b"
    Json.Canonical (.object settled) ∧
      (∃ n, decode (.ofJson (.object settled)) = .ok n ∧ n.signerCount = 1 ∧
        n.encode = .object [("0xaa", .string "sig-a"), (balancesName, .null)]) ∧
      Json.Canonical (.object refused) ∧ decode (.ofJson (.object refused)) = .error (.signature "0xbb") ∧
      FirstRefused refused "0xbb" ∧
      hidden.Canonical ∧ ∃ back, decode (.ofJson hidden.encode) = .ok back ∧ back ≠ hidden := by
  intro settled refused hidden
  have hsettled : Json.Canonical (.object settled) := by decide
  have hrefused : Json.Canonical (.object refused) := by decide
  have hhidden : hidden.Canonical := by decide
  have hnamed : decode (.ofJson (.object refused)) = .error (.signature "0xbb") := rfl
  obtain ⟨hadmitted, -, hread⟩ := flat_form_exact.1 settled hsettled
  obtain ⟨n, hn⟩ := hadmitted.2 (by simp [settled, Admits])
  obtain ⟨key, hfirst, hkey, -⟩ := (flat_form_exact.1 refused hrefused).2.1 _ hnamed
  cases hkey
  obtain ⟨back, hback, hiff⟩ := (flat_form_exact.2 hidden hhidden).1
  have hsigner : ¬ hidden.Unreserved := by decide
  exact ⟨hsettled, ⟨n, hn, hread n hn⟩, hrefused, hnamed, hfirst, hhidden, back, hback, fun heq => hsigner (hiff.1 heq)⟩

end TableEscrow.Netting
