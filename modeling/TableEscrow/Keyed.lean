/-!
# Values by name

An ascending list of names, each with one value. Equal contents are equal lists.

`get?_insert_self`, `get?_insert_other`: what a name holds after `insert`. `lookup_filter`: what it
holds in a part of a list. `eq_of_lookup_eq`: what the names hold is all there is to an ascending
list. `nodup_names`: no name stands twice.
-/

namespace TableEscrow

structure Keyed (α : Type) where
  entries : List (String × α)
  ascending : entries.Pairwise (·.1 < ·.1)

namespace Keyed

variable {α β : Type}

instance [DecidableEq α] : DecidableEq (Keyed α) := fun a b =>
  if h : a.entries = b.entries then isTrue (by cases a; cases b; cases h; rfl)
  else isFalse fun hab => h (hab ▸ rfl)

def empty : Keyed α := ⟨[], .nil⟩

instance : Inhabited (Keyed α) := ⟨empty⟩

/-- Sets the value of a name in an ascending list. -/
def insertInto (name : String) (value : α) : List (String × α) → List (String × α)
  | [] => [(name, value)]
  | (k, v) :: rest =>
    if name = k then (name, value) :: rest
    else if name < k then (name, value) :: (k, v) :: rest
    else (k, v) :: insertInto name value rest

theorem mem_insertInto {name : String} {value : α} {e : String × α} {entries : List (String × α)}
    (h : e ∈ insertInto name value entries) : e = (name, value) ∨ e ∈ entries := by
  induction entries with
  | nil => simpa [insertInto] using h
  | cons m rest ih =>
    obtain ⟨k, v⟩ := m
    simp only [insertInto] at h
    split at h
    · rcases List.mem_cons.1 h with h | h
      · exact .inl h
      · exact .inr (List.mem_cons_of_mem _ h)
    · split at h
      · exact List.mem_cons.1 h
      · rcases List.mem_cons.1 h with h | h
        · exact .inr (h ▸ List.mem_cons_self)
        · exact (ih h).imp_right (List.mem_cons_of_mem _)

theorem ascending_insertInto (name : String) (value : α) {entries : List (String × α)}
    (h : entries.Pairwise (·.1 < ·.1)) : (insertInto name value entries).Pairwise (·.1 < ·.1) := by
  induction entries with
  | nil => simp [insertInto]
  | cons m rest ih =>
    obtain ⟨k, v⟩ := m
    obtain ⟨hk, hrest⟩ := List.pairwise_cons.1 h
    simp only [insertInto]
    split
    · next heq => exact List.pairwise_cons.2 ⟨fun e he => heq ▸ hk e he, hrest⟩
    · next hne =>
      split
      · next hlt =>
        refine List.pairwise_cons.2 ⟨fun e he => ?_, h⟩
        rcases List.mem_cons.1 he with he | he
        · exact he ▸ hlt
        · exact String.lt_trans hlt (hk e he)
      · next hnlt =>
        refine List.pairwise_cons.2 ⟨fun e he => ?_, ih hrest⟩
        rcases mem_insertInto he with he | he
        · subst he
          exact String.not_le.1 fun hle => hne (String.le_antisymm hle (String.not_lt.1 hnlt))
        · exact hk e he

def insert (name : String) (value : α) (m : Keyed α) : Keyed α :=
  ⟨insertInto name value m.entries, ascending_insertInto name value m.ascending⟩

def ofList (entries : List (String × α)) : Keyed α :=
  entries.foldl (fun m (k, v) => m.insert k v) empty

def get? (m : Keyed α) (name : String) : Option α := m.entries.lookup name

def contains (m : Keyed α) (name : String) : Bool := (m.get? name).isSome

def names (m : Keyed α) : List String := m.entries.map (·.1)

def size (m : Keyed α) : Nat := m.entries.length

theorem lookup_insertInto_self (name : String) (value : α) (entries : List (String × α)) :
    (insertInto name value entries).lookup name = some value := by
  induction entries with
  | nil => simp [insertInto]
  | cons e rest ih =>
    obtain ⟨k, v⟩ := e
    simp only [insertInto]
    split
    · simp
    · split
      · simp
      · next h _ => simp [List.lookup_cons, beq_eq_false_iff_ne.2 h, ih]

theorem lookup_insertInto_other {name other : String} (h : other ≠ name) (value : α)
    (entries : List (String × α)) : (insertInto name value entries).lookup other = entries.lookup other := by
  have hb : (other == name) = false := beq_eq_false_iff_ne.2 h
  induction entries with
  | nil => simp [insertInto, List.lookup_cons, hb]
  | cons e rest ih =>
    obtain ⟨k, v⟩ := e
    simp only [insertInto]
    split
    · next hk => subst hk; simp [List.lookup_cons, hb]
    · split
      · simp [List.lookup_cons, hb]
      · simp only [List.lookup_cons, ih]

theorem get?_insert_self (name : String) (value : α) (m : Keyed α) :
    (m.insert name value).get? name = some value :=
  lookup_insertInto_self name value m.entries

theorem get?_insert_other {name other : String} (h : other ≠ name) (value : α) (m : Keyed α) :
    (m.insert name value).get? other = m.get? other :=
  lookup_insertInto_other h value m.entries

theorem lookup_cons_ne {name other : String} (h : name ≠ other) (value : α) (rest : List (String × α)) :
    ((other, value) :: rest).lookup name = rest.lookup name := by
  rw [List.lookup_cons, beq_eq_false_iff_ne.2 h]

theorem lookup_eq_none_of_not_mem {name : String} {entries : List (String × α)} (h : name ∉ entries.map (·.1)) :
    entries.lookup name = none := by
  rw [List.lookup_eq_none_iff]
  intro e he
  have hne : name ≠ e.1 := fun heq => h (List.mem_map.2 ⟨e, he, heq.symm⟩)
  simpa using hne

theorem lookup_eq_none_of_lt {name : String} {entries : List (String × α)} (h : ∀ e ∈ entries, name < e.1) :
    entries.lookup name = none := by
  refine lookup_eq_none_of_not_mem fun hmem => ?_
  obtain ⟨e, he, rfl⟩ := List.mem_map.1 hmem
  exact String.lt_irrefl e.1 (h e he)

theorem nodup_of_ascending {entries : List (String × α)} (h : entries.Pairwise (·.1 < ·.1)) :
    (entries.map (·.1)).Nodup := by
  refine List.pairwise_map.2 (h.imp fun {a b} h he => ?_)
  rw [he] at h
  exact String.lt_irrefl _ h

theorem nodup_names (m : Keyed α) : m.names.Nodup := nodup_of_ascending m.ascending

theorem lookup_eq_some_iff_mem {name : String} {value : α} {entries : List (String × α)}
    (h : (entries.map (·.1)).Nodup) : entries.lookup name = some value ↔ (name, value) ∈ entries := by
  induction entries with
  | nil => simp
  | cons e rest ih =>
    obtain ⟨k, v⟩ := e
    obtain ⟨hk, hrest⟩ := List.nodup_cons.1 h
    by_cases heq : name = k
    · subst heq
      have hout : (name, value) ∉ rest := fun hmem => hk (List.mem_map.2 ⟨_, hmem, rfl⟩)
      simp [hout, eq_comm]
    · rw [lookup_cons_ne heq, ih hrest]
      simp [heq]

/-- What a name holds is kept if the name is. -/
theorem lookup_filter_name (p : String → Bool) (name : String) (entries : List (String × α)) :
    (entries.filter fun e => p e.1).lookup name = if p name then entries.lookup name else none := by
  induction entries with
  | nil => simp
  | cons e rest ih =>
    obtain ⟨k, v⟩ := e
    by_cases heq : name = k
    · subst heq
      cases hp : p name <;> simp [hp, ih]
    · cases hp : p k <;> simp [hp, ih, lookup_cons_ne heq]

theorem lookup_filter {p : String × α → Bool} {entries : List (String × α)} (h : (entries.map (·.1)).Nodup)
    (name : String) : (entries.filter p).lookup name = (entries.lookup name).filter fun v => p (name, v) := by
  induction entries with
  | nil => rfl
  | cons e rest ih =>
    obtain ⟨k, v⟩ := e
    obtain ⟨hk, hrest⟩ := List.nodup_cons.1 h
    by_cases heq : name = k
    · subst heq
      cases hp : p (name, v)
      · simp [hp, ih hrest, lookup_eq_none_of_not_mem hk, Option.filter]
      · simp [hp, Option.filter]
    · cases hp : p (k, v) <;> simp [hp, ih hrest, lookup_cons_ne heq]

/-- A name that stands once has its own part of a list. -/
theorem filter_name_of_lookup {name : String} {value : α} {entries : List (String × α)}
    (h : (entries.map (·.1)).Nodup) (hv : entries.lookup name = some value) :
    (entries.filter fun e => e.1 = name) = [(name, value)] := by
  induction entries with
  | nil => cases hv
  | cons e rest ih =>
    obtain ⟨k, v⟩ := e
    obtain ⟨hk, hrest⟩ := List.nodup_cons.1 h
    by_cases heq : name = k
    · subst heq
      have hnone : (rest.filter fun e => e.1 = name) = [] :=
        List.filter_eq_nil_iff.2 fun e he hname => hk (List.mem_map.2 ⟨e, he, by simpa using hname⟩)
      obtain rfl : v = value := by simpa using hv
      rw [List.filter_cons_of_pos (by simp), hnone]
    · rw [lookup_cons_ne heq] at hv
      simp [Ne.symm heq, ih hrest hv]

/-- An ascending list is known by what its names hold. -/
theorem eq_of_lookup_eq {a b : List (String × α)} (ha : a.Pairwise (·.1 < ·.1)) (hb : b.Pairwise (·.1 < ·.1))
    (h : ∀ name, a.lookup name = b.lookup name) : a = b := by
  induction a generalizing b with
  | nil =>
    cases b with
    | nil => rfl
    | cons e rest =>
      have hfirst := h e.1
      rw [List.lookup_cons_self] at hfirst
      cases hfirst
  | cons e rest ih =>
    obtain ⟨k, v⟩ := e
    obtain ⟨hk, hrest⟩ := List.pairwise_cons.1 ha
    cases b with
    | nil =>
      have hfirst := h k
      rw [List.lookup_cons_self] at hfirst
      cases hfirst
    | cons e' rest' =>
      obtain ⟨l, w⟩ := e'
      obtain ⟨hl, hrest'⟩ := List.pairwise_cons.1 hb
      have hmem : (k, v) ∈ (l, w) :: rest' := (lookup_eq_some_iff_mem (nodup_of_ascending hb)).1 (by rw [← h]; simp)
      have hmem' : (l, w) ∈ (k, v) :: rest := (lookup_eq_some_iff_mem (nodup_of_ascending ha)).1 (by rw [h]; simp)
      -- Each first name is the least of its list, so neither can stand further back in the other.
      have hsame : (k, v) = (l, w) := by
        rcases List.mem_cons.1 hmem with heq | hin
        · exact heq
        · rcases List.mem_cons.1 hmem' with heq | hin'
          · exact heq.symm
          · exact absurd (String.lt_trans (hl _ hin) (hk _ hin')) (String.lt_irrefl l)
      cases hsame
      refine congrArg _ (ih hrest hrest' fun name => ?_)
      by_cases heq : name = k
      · subst heq
        rw [lookup_eq_none_of_lt hk, lookup_eq_none_of_lt hl]
      · have hname := h name
        rwa [lookup_cons_ne heq, lookup_cons_ne heq] at hname

end Keyed

end TableEscrow
