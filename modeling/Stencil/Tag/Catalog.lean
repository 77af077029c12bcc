import Stencil.Tag.Program
/-!
# Catalogs of tags

A catalog is the registry of tags: it knows a program for each of finitely many tag names.  Registering a name again
replaces its program.
-/
namespace Stencil

structure Catalog where
  /-- One entry for each name, the latest registration first. -/
  entries : List (String × Program)

namespace Catalog

def empty : Catalog := ⟨[]⟩

instance : Inhabited Catalog := ⟨empty⟩

def find? (c : Catalog) (name : String) : Option Program := c.entries.lookup name

def contains (c : Catalog) (name : String) : Bool := (c.find? name).isSome

def size (c : Catalog) : Nat := c.entries.length

def isEmpty (c : Catalog) : Bool := c.entries.isEmpty

def register (c : Catalog) (name : String) (program : Program) : Catalog :=
  ⟨(name, program) :: c.entries.filter (fun e => e.1 != name)⟩

def names (c : Catalog) : List String := (c.entries.map Prod.fst).mergeSort (fun a b => decide (a ≤ b))

def summary (c : Catalog) : String :=
  "TagRegistry \x7b tags: [" ++ ", ".intercalate (c.names.map quoted) ++ "] \x7d"

theorem lookup_filter_ne {name other : String} (h : other ≠ name) : ∀ l : List (String × Program),
    (l.filter (fun e => e.1 != name)).lookup other = l.lookup other
  | [] => rfl
  | (k, p) :: l => by
    have ih := lookup_filter_ne h l
    by_cases hk : k = name
    · subst hk
      have : (other == k) = false := beq_eq_false_iff_ne.2 h
      simpa [List.lookup_cons, this] using ih
    · simp [List.lookup_cons, hk, ih]

theorem find?_register (c : Catalog) (name other : String) (program : Program) :
    (c.register name program).find? other = if other = name then some program else c.find? other := by
  unfold find? register
  by_cases h : other = name
  · simp [h]
  · have : (other == name) = false := beq_eq_false_iff_ne.2 h
    simp [List.lookup_cons, h, this, lookup_filter_ne h]

def ofRegistrations (registrations : List (String × Program)) : Catalog :=
  registrations.foldl (fun c r => c.register r.1 r.2) empty

theorem ofRegistrations_append (registrations more : List (String × Program)) :
    ofRegistrations (registrations ++ more) = more.foldl (fun c r => c.register r.1 r.2) (ofRegistrations registrations) :=
  List.foldl_append

theorem ofRegistrations_concat (registrations : List (String × Program)) (r : String × Program) :
    ofRegistrations (registrations ++ [r]) = (ofRegistrations registrations).register r.1 r.2 :=
  ofRegistrations_append registrations [r]

end Catalog
end Stencil
