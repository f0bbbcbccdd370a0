import TableEscrow.Proofs.KeyScalars
import TableEscrow.Proofs.Nodes
import TableEscrow.Proofs.Secrets
import TableEscrow.Proofs.Words
/-!
# Signing keys in a configuration

The guard finds a key that is read as a text wherever it stands, but not one that is read as a number,
and behind `key: ` every key is one plain scalar. So keys are kept out of configurations but for the
numbers that nothing quotes (`kept_out_iff`).
-/

namespace TableEscrow.SigningKey

open Yaml Text

variable {k text : String} {isPlain : Bool}

theorem IsKey.isWord {cs : List Char} (h : IsKey cs) : IsWord cs := by
  have hhex : ∀ body : List Char, body.all isHexDigit = true → IsWord body := by
    intro body hbody c hc
    have hdigit := isHexDigit_iff.1 (List.all_eq_true.1 hbody c hc)
    omega
  cases h with
  | bare _ digits => exact hhex _ digits
  | based _ digits =>
    intro c hc
    rcases List.mem_cons.1 hc with rfl | hc
    · decide
    · rcases List.mem_cons.1 hc with rfl | hc
      · decide
      · exact hhex _ digits c hc

theorem IsKey.exists_cons {cs : List Char} (h : IsKey cs) : ∃ c rest, cs = c :: rest ∧ isHexDigit c = true := by
  cases h with
  | based => exact ⟨'0', _, rfl, rfl⟩
  | bare length digits =>
    cases cs with
    | nil => cases length
    | cons c rest => exact ⟨c, rest, rfl, (Bool.and_eq_true_iff.1 digits).1⟩

theorem trim_of_word (h : IsWord k.toList) : Text.trim k = k := by
  have hblank : ∀ c ∈ k.toList, Text.isBlank c = false := by
    intro c hc
    have hcode := h c hc
    simp only [Text.isBlank, Bool.or_eq_false_iff, Bool.and_eq_false_iff, decide_eq_false_iff_not, beq_eq_false_iff_ne]
    omega
  have hstart : ∀ cs : List Char, (∀ c ∈ cs, Text.isBlank c = false) → cs.dropWhile Text.isBlank = cs := by
    intro cs hcs
    cases cs with
    | nil => rfl
    | cons c cs => simp [hcs c List.mem_cons_self]
  have hend : k.toList.reverse.dropWhile Text.isBlank = k.toList.reverse :=
    hstart _ fun c hc => hblank c (List.mem_reverse.1 hc)
  rw [Text.trim, Text.trimList, hstart _ hblank, hend, List.reverse_reverse, String.ofList_toList]

theorem isSigningKey_of_key {cs : List Char} (h : IsKey cs) : SecretKind.isSigningKey cs = true := by
  cases h with
  | based length digits => simp [SecretKind.isSigningKey, Text.dropStart?, length, digits]
  | bare length digits =>
    have hbody : (Text.dropStart? ['0', 'x'] cs).getD cs = cs := by
      match cs, digits with
      | [], _ => rfl
      | [_], _ => simp [Text.dropStart?]
      | c :: d :: rest, digits =>
        have hd : isHexDigit d = true := by simp at digits; exact digits.2.1
        simp [Text.dropStart?, (ne_of_hex hd : d ≠ 'x').symm]
    rw [SecretKind.isSigningKey, hbody, length, digits]
    rfl

/-- A key that is a text looks like one. -/
theorem ofText?_key (h : IsKey k.toList) : SecretKind.ofText? k = some .privateKey := by
  obtain ⟨c, rest, hcs, hc⟩ := h.exists_cons
  have hstart {d : Char} {ds : List Char} {start : String} (hds : start.toList = d :: ds) (hd : isHexDigit d = false) :
      Text.startsWith start k = false := by
    simp [Text.startsWith, hds, hcs, Text.dropStart?, (ne_of_hex hc hd).symm]
  have hpostgres : Text.startsWith "postgres://" k = false := hstart rfl rfl
  have hpostgresql : Text.startsWith "postgresql://" k = false := hstart rfl rfl
  have hpem : Text.startsWith "-----BEGIN" k = false := hstart rfl rfl
  simp [SecretKind.ofText?, trim_of_word h.isWord, hpostgres, hpostgresql, hpem, isSigningKey_of_key h]

/-- A text that gives a scalar without a tag as the value of a name, itself or by its anchor. -/
def Gives (text : String) (isPlain : Bool) (k : String) : Prop :=
  ∃ tokens root, Token.ofText? text = some tokens ∧ Node.ofTokens? tokens = some (some root) ∧
    ∃ mark tag entries key value anchor, (Document.ofRoot root).Holds root (.mapping mark tag entries) ∧
      (Document.ofRoot root).LastEntry entries key value ∧
      (value = .scalar anchor none isPlain k ∨
        ∃ number, value = .alias number ∧
          (Document.ofRoot root).anchored.lookup number = some (.scalar anchor none isPlain k))

/-- A configuration that gives a key is read with the key in it, or is not read. -/
theorem leads_of_gives (h : Gives text isPlain k) {v : Json} (hv : Json.ofYaml? text = some v) :
    ∃ w path, Scalar.value? none isPlain k = some w ∧ v.Leads path w := by
  obtain ⟨tokens, root, htokens, hroot, mark, tag, entries, key, value, anchor, hmapping, hentry, hvalue⟩ := h
  have hholds : (Document.ofRoot root).Holds root (.scalar anchor none isPlain k) := by
    refine hmapping.trans (.member mark tag hentry ?_)
    rcases hvalue with rfl | ⟨number, rfl, hanchored⟩
    · exact .self _
    · exact .aliased hanchored (.self _)
  have hread : ((Document.ofRoot root).value? Document.maxDepth root 0).map (·.1) = some v := by
    simpa [Json.ofYaml?, htokens, hroot, Document.ofRoot] using hv
  obtain ⟨⟨w, jumps⟩, hw, rfl⟩ := Option.map_eq_some_iff.1 hread
  exact Document.leads_of_holds hholds hw

/-- A text that writes a key and is read is refused. -/
theorem not_loaded_of_text (hk : IsKey k.toList) (h : Gives text isPlain k)
    (htext : ∀ w, Scalar.value? none isPlain k = some w → w = .string k) (c : LayeredConfig) :
    LayeredConfig.ofTexts [text] ≠ .ok c := by
  intro hloaded
  cases hv : Json.ofYaml? text with
  | none => simp [LayeredConfig.ofTexts, LayeredConfig.parse, hv, Bind.bind, Except.bind] at hloaded
  | some v =>
    have hparse : LayeredConfig.parse 0 [text] = .ok [v] := by simp [LayeredConfig.parse, hv, Except.map]
    obtain ⟨w, path, hw, hleads⟩ := leads_of_gives h hv
    rw [htext w hw] at hleads
    have hcanonical : ∀ l ∈ [] ++ v :: [], l.Canonical := LayeredConfig.canonical_of_parse hparse
    have hkept := Json.leads_merge hcanonical hleads fun _ hlater => absurd hlater List.not_mem_nil
    obtain ⟨leaf, kind, hrefused⟩ := (LayeredConfig.refused_iff hparse).2 ⟨path, _, k, hkept, ofText?_key hk⟩
    rw [hrefused] at hloaded
    cases hloaded

/-- The text `key: k`. -/
def plainText (k : String) : String := "key: " ++ k

theorem ofText?_plainText (hk : IsKey k.toList) : Token.ofText? (plainText k) =
    some [.blockMapping, .key, .scalar "key" true, .value, .scalar k true, .blockEnd] := by
  obtain ⟨c, rest, hcs, -⟩ := hk.exists_cons
  have hword := Token.ofText?_word hk.isWord (by simp [hcs])
  rwa [String.ofList_toList] at hword

/-- The node that `key: k` writes. -/
def plainRoot (k : String) : Node := .mapping none none [(.scalar none none true "key", .scalar none none true k)]

theorem ofTokens?_plainText (k : String) :
    Node.ofTokens? [.blockMapping, .key, .scalar "key" true, .value, .scalar k true, .blockEnd] = some (some (plainRoot k)) :=
  rfl

theorem gives_plainText (hk : IsKey k.toList) : Gives (plainText k) true k :=
  ⟨_, plainRoot k, ofText?_plainText hk, ofTokens?_plainText k, _, _, _, _, _, none, .self _, ⟨[], [], rfl, nofun⟩, .inl rfl⟩

theorem ofYaml?_plainText (hk : IsKey k.toList) {n : Number} (hn : Scalar.value? none true k = some (.number n)) :
    Json.ofYaml? (plainText k) = some (.object [("key", .number n)]) := by
  have hkey : (Document.ofRoot (plainRoot k)).key? (.scalar none none true "key") 0 = some ("key", 0) := rfl
  have hnumber : (Document.ofRoot (plainRoot k)).value? 127 (.scalar none none true k) 0 = some (.number n, 0) := by
    change (Scalar.value? none true k).map (·, 0) = _
    rw [hn]
    rfl
  have hvalue : (Document.ofRoot (plainRoot k)).value? Document.maxDepth (plainRoot k) 0 =
      some (.object [("key", .number n)], 0) := by
    change (Document.ofRoot (plainRoot k)).collection? (fun item jumps => (Document.ofRoot (plainRoot k)).value? 127 item jumps)
      (plainRoot k) 0 = _
    simp only [Document.collection?, plainRoot, Document.isLocal, Option.any_none, Bool.false_eq_true, if_false,
      List.foldlM_cons, List.foldlM_nil] at hkey hnumber ⊢
    simp [hkey, hnumber, Keyed.insertInto]
  unfold Document.ofRoot at hvalue
  simp [Json.ofYaml?, ofText?_plainText hk, ofTokens?_plainText k, hvalue]

/-- A number is no secret. -/
theorem loaded_of_number (hk : IsKey k.toList) {n : Number} (hn : Scalar.value? none true k = some (.number n)) :
    ∃ c, LayeredConfig.ofTexts [plainText k] = .ok c := by
  have hparse : LayeredConfig.parse 0 [plainText k] = .ok [.object [("key", .number n)]] := by
    simp [LayeredConfig.parse, ofYaml?_plainText hk hn, Except.map]
  exact ⟨_, (LayeredConfig.ofTexts_of_parse hparse).trans (LayeredConfig.ofLayers_of_not_find rfl)⟩

/-- A configuration with a key in it is never loaded, unless nothing quotes the key and it is a number to
YAML: then there is one that is. -/
theorem kept_out_iff (hk : IsKey k.toList) (isPlain : Bool) :
    (∀ text, Gives text isPlain k → ∀ c, LayeredConfig.ofTexts [text] ≠ .ok c) ↔ ¬ (isPlain = true ∧ Numeric k.toList) := by
  constructor
  · rintro hrefused ⟨rfl, hnumeric⟩
    obtain ⟨n, hn⟩ := (value?_key hk).1 hnumeric
    obtain ⟨c, hloaded⟩ := loaded_of_number hk hn
    exact hrefused _ (gives_plainText hk) c hloaded
  · intro hnot text hgives
    refine not_loaded_of_text hk hgives fun w hw => ?_
    cases isPlain with
    | false => exact (Option.some.inj hw).symm
    | true =>
      rcases (value?_key hk).2 fun hn => hnot ⟨rfl, hn⟩ with hnone | hstring
      · rw [hnone] at hw
        cases hw
      · exact Option.some.inj (hw.symm.trans hstring)

/-- The key of 64 ones is loaded, as the number it is rounded to. -/
theorem ones_loaded :
    let k := "1111111111111111111111111111111111111111111111111111111111111111"
    let text := "key: 1111111111111111111111111111111111111111111111111111111111111111"
    IsKey k.toList ∧ Gives text true k ∧
      ∃ c, LayeredConfig.ofTexts [text] = .ok c ∧ c.canonical = "\x7b\"key\":1.1111111111111112e+63\x7d" := by
  intro k text
  have hk : IsKey k.toList := .bare (by decide +kernel) (by decide +kernel)
  have htext : plainText k = text := by decide +kernel
  have hparse : LayeredConfig.parse 0 [text] =
      .ok [.object [("key", .number (.real (.ofDecimal false (10 ^ 64 / 9) 0)))]] := by decide +kernel
  have hnone : (Json.merge [.object [("key", .number (.real (.ofDecimal false (10 ^ 64 / 9) 0)))]]).findSecret? "" = none := by
    decide +kernel
  have hcanonical : (LayeredConfig.ofDocument
      (Json.merge [.object [("key", .number (.real (.ofDecimal false (10 ^ 64 / 9) 0)))]])).canonical =
        "\x7b\"key\":1.1111111111111112e+63\x7d" := by decide +kernel
  exact ⟨hk, htext ▸ gives_plainText hk, _,
    (LayeredConfig.ofTexts_of_parse hparse).trans (LayeredConfig.ofLayers_of_not_find hnone), hcanonical⟩

/-- A key of letters is kept out without quotes, and the key of 64 ones only with them. -/
theorem kept_out_iff_letters_and_ones :
    let letters := "0xabababababababababababababababababababababababababababababababab"
    let ones := "1111111111111111111111111111111111111111111111111111111111111111"
    IsKey letters.toList ∧ IsKey ones.toList ∧
      (∀ text, Gives text true letters → ∀ c, LayeredConfig.ofTexts [text] ≠ .ok c) ∧
      (∀ text, Gives text false ones → ∀ c, LayeredConfig.ofTexts [text] ≠ .ok c) ∧
      ¬ ∀ text, Gives text true ones → ∀ c, LayeredConfig.ofTexts [text] ≠ .ok c := by
  intro letters ones
  have hchars : letters.toList = '0' :: 'x' :: letters.toList.drop 2 := by decide +kernel
  have hletters : IsKey letters.toList := by
    rw [hchars]
    exact .based (by decide +kernel) (by decide +kernel)
  have hones : IsKey ones.toList := .bare (by decide +kernel) (by decide +kernel)
  refine ⟨hletters, hones, (kept_out_iff hletters true).2 ?_, (kept_out_iff hones false).2 (by simp), ?_⟩
  · rintro ⟨-, hnumeric⟩
    rw [hchars] at hnumeric
    obtain ⟨low, -, hlow⟩ := hnumeric.of_based
    have hhead : (letters.toList.drop 2).head? = some 'a' := by decide +kernel
    rw [hlow] at hhead
    cases hhead
  · intro hrefused
    have hdigits : ones.toList = '1' :: ones.toList.drop 1 := by decide +kernel
    refine (kept_out_iff hones true).1 hrefused ⟨rfl, ?_⟩
    rw [hdigits]
    exact .decimal (by decide +kernel) (by decide)

end TableEscrow.SigningKey
