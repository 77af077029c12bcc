import Mathlib.Algebra.Group.Int.Defs
import Stencil.Text.Literal
/-!
# What a decimal literal writes

The rule that `readWord?` follows, stated apart from it: ASCII digits, at least one, with at most one sign before them,
and a value that fits into a word.
-/
namespace Stencil

/-- The digits and sign of an integer. -/
inductive WritesInt : List Char → Int → Prop
  | plain (ds : List Char) (h : ds ≠ []) (hd : ∀ c ∈ ds, c.isDigit = true) : WritesInt ds (Nat.ofDigitChars 10 ds 0)
  | plus (ds : List Char) (h : ds ≠ []) (hd : ∀ c ∈ ds, c.isDigit = true) :
    WritesInt ('+' :: ds) (Nat.ofDigitChars 10 ds 0)
  | minus (ds : List Char) (h : ds ≠ []) (hd : ∀ c ∈ ds, c.isDigit = true) :
    WritesInt ('-' :: ds) (-(Nat.ofDigitChars 10 ds 0 : Int))

def WritesWord (s : String) (n : Int64) : Prop := WritesInt s.toList n.toInt

theorem readNat?_eq_some_iff {cs : List Char} {n : Nat} :
    readNat? cs = some n ↔ (cs ≠ [] ∧ ∀ c ∈ cs, c.isDigit = true) ∧ Nat.ofDigitChars 10 cs 0 = n := by
  unfold readNat?
  rw [← List.all_eq_true, Option.ite_none_right_eq_some]
  simp

theorem writesInt_of_readInt? {cs : List Char} {z : Int} (h : readInt? cs = some z) : WritesInt cs z := by
  unfold readInt? at h
  split at h
  · obtain ⟨n, hn, rfl⟩ := Option.map_eq_some_iff.1 h
    obtain ⟨⟨hne, hd⟩, rfl⟩ := readNat?_eq_some_iff.1 hn
    exact .plus _ hne hd
  · obtain ⟨m, hm, rfl⟩ := Option.map_eq_some_iff.1 h
    obtain ⟨n, hn, hmn⟩ := Option.bind_eq_some_iff.1 hm
    obtain ⟨⟨hne, hd⟩, rfl⟩ := readNat?_eq_some_iff.1 hn
    cases hmn
    exact .minus _ hne hd
  · obtain ⟨n, hn, rfl⟩ := Option.map_eq_some_iff.1 h
    obtain ⟨⟨hne, hd⟩, rfl⟩ := readNat?_eq_some_iff.1 hn
    exact .plain _ hne hd

theorem readInt?_of_writesInt {cs : List Char} {z : Int} (h : WritesInt cs z) : readInt? cs = some z := by
  cases h with
  | plain _ hne hd =>
    have hn := readNat?_eq_some_iff.2 ⟨⟨hne, hd⟩, rfl⟩
    unfold readInt?
    split
    · exact absurd (hd '+' List.mem_cons_self) (by decide)
    · exact absurd (hd '-' List.mem_cons_self) (by decide)
    · rw [hn]
      rfl
  | plus ds hne hd | minus ds hne hd => rw [readInt?, readNat?_eq_some_iff.2 ⟨⟨hne, hd⟩, rfl⟩]; rfl

theorem wordOfInt?_eq_some_iff {z : Int} {n : Int64} : wordOfInt? z = some n ↔ z = n.toInt := by
  constructor
  · intro h
    unfold wordOfInt? at h
    split at h
    · rename_i hz
      cases h
      exact (Int64.toInt_ofInt_of_le hz.1 hz.2).symm
    · cases h
  · rintro rfl
    exact wordOfInt?_toInt n

/-- Exactly the texts that write a word are read, as that word. -/
theorem readWord?_eq_some_iff {s : String} {n : Int64} : readWord? s = some n ↔ WritesWord s n := by
  unfold readWord? WritesWord
  rw [Option.bind_eq_some_iff]
  constructor
  · rintro ⟨z, hz, hn⟩
    rw [← wordOfInt?_eq_some_iff.1 hn]
    exact writesInt_of_readInt? hz
  · intro h
    exact ⟨_, readInt?_of_writesInt h, wordOfInt?_toInt n⟩

def InWord (z : Int) : Prop := -2 ^ 63 ≤ z ∧ z ≤ 2 ^ 63 - 1

theorem exists_word {s : String} {z : Int} (h : WritesInt s.toList z) (hz : InWord z) :
    ∃ n : Int64, n.toInt = z ∧ WritesWord s n := by
  have hlow : -0x8000000000000000 ≤ z := hz.1
  have hhigh : z < 0x8000000000000000 := by
    have hle := hz.2
    omega
  have hn : (Int64.ofInt z).toInt = z := Int64.toInt_ofInt_of_le hlow hhigh
  refine ⟨Int64.ofInt z, hn, ?_⟩
  rw [WritesWord, hn]
  exact h

/-- The digits of an integer that does not fit into a word are not read, whatever their number. -/
theorem readWord?_eq_none {s : String} {z : Int} (h : WritesInt s.toList z) (hz : ¬InWord z) : readWord? s = none := by
  have hrange : ¬(-0x8000000000000000 ≤ z ∧ z < 0x8000000000000000) := by
    rintro ⟨hlow, hhigh⟩
    exact hz ⟨hlow, by omega⟩
  rw [readWord?, readInt?_of_writesInt h, Option.bind_some, wordOfInt?, if_neg hrange]

end Stencil
