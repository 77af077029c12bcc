import Stencil.Text.Literal
/-!
# JSON values

The values that tokens, nodes, faults and templates are written to and read from.

Two shapes recur.  A record is an object with its fields under their names, where further fields do no harm; it may also
be an array with exactly its fields in order.  A choice is the name of an alternative alone, or an object with that name
as its only key and what the alternative holds under it.
-/
namespace Stencil

inductive Json
  | null
  | bool (b : Bool)
  | int (n : Int)
  /-- A number that is written with a fraction or an exponent: the mantissa shifted right by some decimal places.  It is
  no integer, even where its value is whole. -/
  | decimal (mantissa : Int) (places : Nat)
  | string (s : String)
  | array (items : List Json)
  | object (fields : List (String × Json))
deriving Repr, Inhabited

namespace Json

/-! ## Plain values -/

def string? : Json → Option String
  | string s => some s
  | _ => none

/-- A natural number that fits into an unsigned 64-bit word. -/
def nat? : Json → Option Nat
  | int n => if 0 ≤ n ∧ n < 0x10000000000000000 then some n.toNat else none
  | _ => none

/-- An integer that fits into a signed 64-bit word. -/
def word? : Json → Option Int64
  | int n => wordOfInt? n
  | _ => none

def ofNat (n : Nat) : Json := int n

def ofWord (n : Int64) : Json := int n.toInt

theorem nat?_ofNat {n : Nat} (h : n < 0x10000000000000000) : (ofNat n).nat? = some n := by
  have h' : (0 : Int) ≤ n ∧ (n : Int) < 0x10000000000000000 := ⟨by omega, by omega⟩
  simp [ofNat, nat?, h']

theorem word?_ofWord (n : Int64) : (ofWord n).word? = some n := wordOfInt?_toInt n

/-! ## Records -/

def field? (names : List String) (name : String) : Json → Option Json
  | object fields => fields.lookup name
  | array items => if items.length = names.length then (names.zip items).lookup name else none
  | _ => none

theorem mem_of_lookup {name : String} {v : Json} : ∀ {l : List (String × Json)}, l.lookup name = some v →
    ∃ k, (k, v) ∈ l
  | [], h => by cases h
  | (k, w) :: l, h => by
    rw [List.lookup_cons] at h
    split at h
    · cases h
      exact ⟨k, List.mem_cons_self ..⟩
    · obtain ⟨k', hk⟩ := mem_of_lookup h
      exact ⟨k', List.mem_cons_of_mem _ hk⟩

theorem sizeOf_lt_of_field? {names : List String} {name : String} {j v : Json} (h : j.field? names name = some v) :
    sizeOf v < sizeOf j := by
  unfold field? at h
  split at h
  · obtain ⟨k, hk⟩ := mem_of_lookup h
    have := List.sizeOf_lt_of_mem hk
    simp only [Prod.mk.sizeOf_spec] at this
    simp only [object.sizeOf_spec]
    omega
  · split at h
    · obtain ⟨k, hk⟩ := mem_of_lookup h
      have := List.sizeOf_lt_of_mem (List.of_mem_zip hk).2
      simp only [array.sizeOf_spec]
      omega
    · cases h
  · cases h

def part? (names : List String) (name : String) (j : Json) : Option { v : Json // sizeOf v < sizeOf j } :=
  match h : j.field? names name with
  | some v => some ⟨v, sizeOf_lt_of_field? h⟩
  | none => none

/-! ## Choices -/

def choice (name : String) (content : Json) : Json := object [(name, content)]

/-- The name of an alternative that holds nothing; it may be written with a null under it. -/
def bare? : Json → Option String
  | string s => some s
  | object [(s, null)] => some s
  | _ => none

/-- What an object holds under a key, for an alternative whose fields have to be named. -/
def named? (name : String) : Json → Option Json
  | object fields => fields.lookup name
  | _ => none

end Json
end Stencil
