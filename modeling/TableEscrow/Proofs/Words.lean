import TableEscrow.Yaml.Token
/-!
# Words behind a name

A word is digits and letters, and has neither a mark nor a blank in it. A plain scalar takes in a word
to its end (`plain?_word`), so the text `key: word` is read as a mapping with the word as its one value,
whatever the word is (`Token.ofText?_word`).
-/

namespace TableEscrow.Yaml

/-- Digits and letters: a scalar of them has no mark and no blank in it. -/
def IsWord (cs : List Char) : Prop :=
  ∀ c ∈ cs, 48 ≤ c.toNat ∧ c.toNat ≤ 57 ∨ 65 ≤ c.toNat ∧ c.toNat ≤ 90 ∨ 97 ≤ c.toNat ∧ c.toNat ≤ 122

variable {c : Char} {cs word : List Char}

/-- A mark, a blank or a break stands in no word. -/
theorem IsWord.ne (h : IsWord (c :: cs)) {d : Char}
    (hd : d.toNat < 48 ∨ 57 < d.toNat ∧ d.toNat < 65 ∨ 90 < d.toNat ∧ d.toNat < 97 ∨ 122 < d.toNat := by decide) :
    c ≠ d := by
  rintro rfl
  have hc := h c List.mem_cons_self
  omega

/-- The marks that begin a token of their own. -/
def marks : List Char :=
  ['%', '-', '.', '[', ']', '\x7b', '\x7d', ',', '?', ':', '*', '&', '!', '|', '>', '\'', '"', '#', '@', '\x60']

theorem IsWord.ne_marks (h : IsWord (c :: cs)) : ∀ d ∈ marks, c ≠ d := by
  have hcodes : marks.all (fun d =>
      decide (d.toNat < 48 ∨ 57 < d.toNat ∧ d.toNat < 65 ∨ 90 < d.toNat ∧ d.toNat < 97 ∨ 122 < d.toNat)) = true := by
    rfl
  exact fun d hd => h.ne (of_decide_eq_true (List.all_eq_true.1 hcodes d hd))

theorem IsWord.tail (h : IsWord (c :: cs)) : IsWord cs := fun d hd => h d (List.mem_cons_of_mem c hd)

theorem IsWord.not_blank (h : IsWord (c :: cs)) : isBlank c = false ∧ isBreak c = false := by
  simp [isBlank, isBreak, h.ne (d := ' '), h.ne (d := '\t'), h.ne (d := '\n'), h.ne (d := '\r'), h.ne (d := '\u0085'),
    h.ne (d := '\u2028'), h.ne (d := '\u2029')]

theorem IsWord.isAllowed (h : IsWord cs) : cs.all isAllowed = true := by
  refine List.all_eq_true.2 fun c hc => ?_
  have := h c hc
  simp only [Yaml.isAllowed, Bool.or_eq_true, Bool.and_eq_true, decide_eq_true_eq]
  omega

/-- A plain scalar takes in a word to its end. -/
theorem plain?_word (h : IsWord word) (indent : Int) (out : List Char) (p : Place) :
    plain? false indent out .closed p word = some ⟨String.ofList (out.reverse ++ word), false, p.advance word.length, []⟩ := by
  induction word generalizing out p with
  | nil => rw [List.append_nil]; rfl
  | cons c cs ih =>
    have hstep : plain? false indent out .closed p (c :: cs) = plain? false indent (c :: out) .closed p.next cs := by
      rw [plain?]
      · simp [h.not_blank, endsPlain, isStrayColon, Gap.closed, Gap.text, h.ne (d := ':')]
      · rintro _ hc -
        exact h.ne (by decide) hc
    have hplace : p.next.advance cs.length = p.advance (cs.length + 1) := by
      simp only [Place.next, Place.advance, Nat.add_assoc, Nat.add_comm 1]
    rw [hstep, ih h.tail, hplace, List.reverse_cons, List.append_assoc]
    rfl

namespace Scanner

/-- Nothing is closed by what stands as far right as its block. -/
theorem close_of_le {s : Scanner} {column : Int} (h : s.indent ≤ column) : s.close column = s := by
  have hclosed : closed column s.indent s.outer = (0, s.indent, s.outer) := by
    cases s.outer <;> simp [closed, Int.not_lt.2 h]
  simp [close, hclosed]

theorem run?_of_fetch {s s' t : Scanner} (hdrop : s.toNextToken.dropStale? = some s')
    (hrest : (s'.close s'.place.column).rest ≠ []) (hfetch : (s'.close s'.place.column).fetch? = some t) (fuel : Nat) :
    s.run? (fuel + 1) = t.run? fuel := by
  rw [run?, hdrop]
  simp [hrest, hfetch]

/-- A word is fetched as a plain scalar. -/
theorem fetch?_of_word {s : Scanner} (hrest : s.rest = c :: cs) (h : IsWord (c :: cs)) : s.fetch? = s.fetchPlain? := by
  have hmarks := h.ne_marks
  simp only [marks, List.forall_mem_cons, ne_eq] at hmarks
  have hplain : startsPlain s.inFlow c cs = true := by simp [startsPlain, h.not_blank, hmarks]
  have hmark : atDocumentMark s.place (c :: cs) = false := by simp [atDocumentMark, hmarks]
  simp [fetch?, hrest, hmark, hmarks, hplain]

/-- Behind `key`, whatever follows it. -/
def afterName (cs : List Char) : Scanner :=
  ⟨⟨3, 0, 3⟩, ':' :: ' ' :: cs, #[.scalar "key" true], -1, [], [some ⟨false, 0, .start⟩], false⟩

/-- Behind `key:`. -/
def afterColon (cs : List Char) : Scanner :=
  ⟨⟨4, 0, 4⟩, ' ' :: cs, #[.blockMapping, .key, .scalar "key" true, .value], 0, [-1], [none], false⟩

/-- Behind `key: `. -/
def afterSpace (cs : List Char) : Scanner :=
  ⟨⟨5, 0, 5⟩, cs, #[.blockMapping, .key, .scalar "key" true, .value], 0, [-1], [none], false⟩

/-- Behind `key: ` and a word. -/
def afterWord (word : List Char) : Scanner :=
  ⟨(⟨5, 0, 5⟩ : Place).advance word.length, [],
    #[.blockMapping, .key, .scalar "key" true, .value, .scalar (String.ofList word) true], 0, [-1], [none], false⟩

theorem run?_name (cs : List Char) (fuel : Nat) :
    (start ('k' :: 'e' :: 'y' :: ':' :: ' ' :: cs)).run? (fuel + 1) = (afterName cs).run? fuel :=
  have hdrop : (start ('k' :: 'e' :: 'y' :: ':' :: ' ' :: cs)).toNextToken.dropStale? =
      some (start ('k' :: 'e' :: 'y' :: ':' :: ' ' :: cs)) := rfl
  run?_of_fetch hdrop nofun rfl fuel

theorem run?_colon (cs : List Char) (fuel : Nat) : (afterName cs).run? (fuel + 1) = (afterColon cs).run? fuel := by
  -- Only the colon shows that a scalar was a name: the block and its key go in before it.
  have hkey : #[Token.scalar "key" true].insertIdxIfInBounds 0 .key = #[.key, .scalar "key" true] := by decide +kernel
  have hblock : #[Token.key, .scalar "key" true].insertIdxIfInBounds 0 .blockMapping =
      #[.blockMapping, .key, .scalar "key" true] := by decide +kernel
  have hfetch : (afterName cs).fetchValue? = some (afterColon cs) := by
    simp [fetchValue?, afterName, openBlock, hkey, hblock, inFlow, allowKey, skip, moveTo, push, afterColon, Place.start,
      Place.advance]
  have hdrop : (afterName cs).toNextToken.dropStale? = some (afterName cs) := rfl
  exact run?_of_fetch hdrop nofun hfetch fuel

theorem toNextToken_afterColon (h : IsWord (c :: cs)) : (afterColon (c :: cs)).toNextToken = afterSpace (c :: cs) := by
  have hgap : gap false false false ⟨4, 0, 4⟩ (' ' :: c :: cs) = (false, ⟨5, 0, 5⟩, c :: cs) := by
    have hword : gap false false false ⟨5, 0, 5⟩ (c :: cs) = (false, ⟨5, 0, 5⟩, c :: cs) := by
      rw [gap]
      · simp [h.not_blank, h.ne (d := ' '), h.ne (d := '\t'), h.ne (d := '#')]
      · rintro _ hc -
        exact h.ne (by decide) hc
    exact hword
  simp only [toNextToken, afterColon, inFlow, List.length_singleton, Nat.lt_irrefl, decide_false, hgap]
  rfl

theorem run?_word (h : IsWord (c :: cs)) (fuel : Nat) :
    (afterColon (c :: cs)).run? (fuel + 1) = (afterWord (c :: cs)).run? fuel := by
  have hdrop : (afterColon (c :: cs)).toNextToken.dropStale? = some (afterSpace (c :: cs)) := by
    rw [toNextToken_afterColon h]
    rfl
  have hword : (afterSpace (c :: cs)).fetchPlain? = some (afterWord (c :: cs)) := by
    have hplain := plain?_word h 1 [] ⟨5, 0, 5⟩
    simp [fetchPlain?, saveKey?, afterSpace, inFlow, hplain, allowKey, push, moveTo, afterWord]
  exact run?_of_fetch hdrop nofun ((fetch?_of_word rfl h).trans hword) fuel

theorem run?_end (word : List Char) (fuel : Nat) : (afterWord word).run? (fuel + 1) =
    some [.blockMapping, .key, .scalar "key" true, .value, .scalar (String.ofList word) true, .blockEnd] := by
  have hdrop : (afterWord word).toNextToken.dropStale? = some (afterWord word) := rfl
  have hindent : (afterWord word).close (afterWord word).place.column = afterWord word :=
    close_of_le (Int.natCast_nonneg _)
  simp only [run?, hdrop, Option.bind_eq_bind, Option.bind_some, hindent]
  rfl

end Scanner

/-- What the text `key: word` is read as. -/
theorem Token.ofText?_word (h : IsWord word) (hne : word ≠ []) : Token.ofText? ("key: " ++ String.ofList word) =
    some [.blockMapping, .key, .scalar "key" true, .value, .scalar (String.ofList word) true, .blockEnd] := by
  obtain ⟨c, cs, rfl⟩ := List.exists_cons_of_ne_nil hne
  have htext : ("key: " ++ String.ofList (c :: cs)).toList = 'k' :: 'e' :: 'y' :: ':' :: ' ' :: c :: cs := by
    have hword : (String.ofList (c :: cs)).toList = c :: cs := String.toList_ofList
    rw [String.toList_append, hword]
    rfl
  have hallowed : ('k' :: 'e' :: 'y' :: ':' :: ' ' :: c :: cs).all isAllowed = true := h.isAllowed
  rw [Token.ofText?, htext]
  change (if ('k' :: 'e' :: 'y' :: ':' :: ' ' :: c :: cs).all isAllowed then
    (Scanner.start ('k' :: 'e' :: 'y' :: ':' :: ' ' :: c :: cs)).run? (cs.length + 8) else none) = _
  rw [if_pos hallowed, Scanner.run?_name, Scanner.run?_colon, Scanner.run?_word h, Scanner.run?_end]

end TableEscrow.Yaml
