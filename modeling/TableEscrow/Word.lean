/-!
# Checked words

Ages, cut-offs and hand numbers are 64-bit words. A sum or a difference that leaves its word is
not wrapped: it is an `Overflow`, and the pass that computes it ends there.

`difference_eq_ok` and `successor_eq_ok`: a result that is given is the exact one.
`difference_eq_error` and `successor_eq_error`: a result is missing only where no word is the exact
one.
`difference_eq_ok_iff`: a word is the difference given exactly when it is the exact one.
-/

namespace TableEscrow

/-- Why a word could not be computed. -/
inductive Overflow where
  | add
  | subtract
  deriving DecidableEq, Repr

namespace Overflow

def message : Overflow → String
  | .add => "attempt to add with overflow"
  | .subtract => "attempt to subtract with overflow"

end Overflow

namespace Word

/-- The integers a signed 64-bit word holds. -/
def Signed (n : Int) : Prop := -9223372036854775808 ≤ n ∧ n ≤ 9223372036854775807

instance (n : Int) : Decidable (Signed n) := inferInstanceAs (Decidable (_ ∧ _))

/-- The signed word of an integer, if there is one. -/
def signed? (n : Int) : Option Int64 := if Signed n then some (Int64.ofInt n) else none

/-- The unsigned 64-bit word of a number, if there is one. -/
def unsigned? (n : Nat) : Option UInt64 :=
  if n < 18446744073709551616 then some (UInt64.ofNat n) else none

def difference (a b : Int64) : Except Overflow Int64 :=
  match signed? (a.toInt - b.toInt) with
  | some d => .ok d
  | none => .error .subtract

def successor (n : UInt64) : Except Overflow UInt64 :=
  match unsigned? (n.toNat + 1) with
  | some m => .ok m
  | none => .error .add

theorem signed?_eq_some {n : Int} {w : Int64} (h : signed? n = some w) : w.toInt = n := by
  unfold signed? at h
  split at h
  · next hn =>
    obtain ⟨h1, h2⟩ := hn
    cases h
    rw [Int64.toInt_ofInt]
    exact Int.bmod_eq_of_le (by simp [Int64.size]; omega) (by simp [Int64.size]; omega)
  · cases h

theorem unsigned?_eq_some {n : Nat} {w : UInt64} (h : unsigned? n = some w) : w.toNat = n := by
  unfold unsigned? at h
  split at h
  · next hn =>
    cases h
    rw [UInt64.toNat_ofNat']
    exact Nat.mod_eq_of_lt hn
  · cases h

theorem difference_eq_ok {a b d : Int64} (h : difference a b = .ok d) : d.toInt = a.toInt - b.toInt := by
  unfold difference at h
  split at h
  · next w hw => cases h; exact signed?_eq_some hw
  · cases h

theorem successor_eq_ok {n m : UInt64} (h : successor n = .ok m) : m.toNat = n.toNat + 1 := by
  unfold successor at h
  split at h
  · next w hw => cases h; exact unsigned?_eq_some hw
  · cases h

theorem difference_eq_error {a b : Int64} {o : Overflow} :
    difference a b = .error o ↔ o = .subtract ∧ ¬ Signed (a.toInt - b.toInt) := by
  unfold difference signed?
  by_cases h : Signed (a.toInt - b.toInt) <;> simp [h, eq_comm]

/-- The exact result is given wherever it is a word. -/
theorem difference_eq_ok_iff {a b d : Int64} : difference a b = .ok d ↔ d.toInt = a.toInt - b.toInt := by
  refine ⟨difference_eq_ok, fun h => ?_⟩
  cases hd : difference a b with
  | ok d' => rw [Int64.toInt_inj.1 (h.trans (difference_eq_ok hd).symm)]
  | error o =>
    have hno := (difference_eq_error.1 hd).2
    rw [← h] at hno
    exact absurd ⟨d.le_toInt, Int.le_of_lt_add_one d.toInt_lt⟩ hno

theorem exists_toInt_eq {n : Int} (h : Signed n) : ∃ w : Int64, w.toInt = n :=
  ⟨Int64.ofInt n, signed?_eq_some (if_pos h)⟩

theorem exists_difference_iff {a b : Int64} : (∃ d, difference a b = .ok d) ↔ Signed (a.toInt - b.toInt) := by
  constructor
  · rintro ⟨d, hd⟩
    rw [← difference_eq_ok hd]
    exact ⟨d.le_toInt, Int.le_of_lt_add_one d.toInt_lt⟩
  · intro hsigned
    obtain ⟨d, hd⟩ := exists_toInt_eq hsigned
    exact ⟨d, difference_eq_ok_iff.2 hd⟩

theorem signed?_toInt (w : Int64) : signed? w.toInt = some w := by
  have hrange : Signed w.toInt := ⟨w.le_toInt, Int.le_of_lt_add_one w.toInt_lt⟩
  rw [signed?, if_pos hrange, Int64.ofInt_toInt]

theorem successor_eq_error {n : UInt64} {o : Overflow} :
    successor n = .error o ↔ o = .add ∧ n.toNat = 18446744073709551615 := by
  have hn := n.toNat_lt
  unfold successor unsigned?
  by_cases h : n.toNat = 18446744073709551615
  · simp [h, eq_comm]
  · simp [h, show n.toNat + 1 < 18446744073709551616 by omega]

end Word

end TableEscrow
