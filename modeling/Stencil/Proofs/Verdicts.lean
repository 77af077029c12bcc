import Stencil.Proofs.Decimal
import Stencil.Proofs.Unplaced
/-!
# Verdicts on conditions

A condition is worth something in five shapes only (`Worth`): one integer, one of the strings that spell a truth value,
and the equality of an integer with an integer or with a string that spells one.  Every other condition is a fault, and
which one it is depends on its length first.  None, two, or more than three parts are a fault as such; one part is a
fault by what it is.

Several things can be wrong with three parts at once.  Each is an objection, and objections have an order: the fault is
the one that comes first (`Objection`).
-/
namespace Stencil

/-! ## Values -/

namespace Node

inductive HasValue : Node → Operand → Prop
  | int (start : Nat) (n : Int64) : HasValue (.int start n) (.int n)
  | string (start : Nat) (s : String) : HasValue (.string start s) (.string s)
  | name (start : Nat) (s : String) : HasValue (.ident start s) (.name s)

def Joins (node : Node) : Prop := ∃ start, node = .ident start "and" ∨ node = .ident start "or"

end Node

theorem ofNode_eq_ok_iff {node : Node} {a : Operand} : Operand.ofNode node = .ok a ↔ node.HasValue a := by
  constructor
  · intro h
    cases node with
    | int | string | ident =>
      cases h
      constructor
    | text | comparison | block | conditional => cases h
  · rintro (_ | _ | _) <;> rfl

theorem ofNode_of_no_value {node : Node} (h : ∀ a, ¬node.HasValue a) :
    Operand.ofNode node = .error (.unexpectedNode node.summary) := by
  cases node with
  | int start n => exact absurd (.int start n) (h _)
  | string start s => exact absurd (.string start s) (h _)
  | ident start s => exact absurd (.name start s) (h _)
  | text | comparison | block | conditional => rfl

theorem isConnective_iff {node : Node} : isConnective node = true ↔ node.Joins := by
  cases node with
  | ident start s =>
    simp only [isConnective, Bool.or_eq_true, beq_iff_eq]
    constructor
    · rintro (rfl | rfl)
      · exact ⟨start, .inl rfl⟩
      · exact ⟨start, .inr rfl⟩
    · rintro ⟨_, h | h⟩ <;> cases h
      · exact .inl rfl
      · exact .inr rfl
  | text | string | int | comparison | block | conditional => simp [isConnective, Node.Joins]

/-! ## What conditions are worth -/

/-- The comparisons that are decided: an integer is equal to an integer, or to a string. -/
inductive Comparable : Comparison → Operand → Operand → Prop
  | int (a b : Int64) : Comparable .equal (.int a) (.int b)
  | string (a : Int64) (s : String) : Comparable .equal (.int a) (.string s)

/-- What a condition is worth, if it is worth anything. -/
inductive Worth : List Node → Bool → Prop
  | int {start : Nat} {n : Int64} {r : Bool} (h : r = true ↔ n ≠ 0) : Worth [.int start n] r
  | yes {start : Nat} : Worth [.string start "true"] true
  | no {start : Nat} : Worth [.string start "false"] false
  | ints {i j k : Nat} {a b : Int64} {r : Bool} (h : r = true ↔ a = b) :
    Worth [.int i a, .comparison j .equal, .int k b] r
  | spelled {i j k : Nat} {a b : Int64} {s : String} {r : Bool} (hs : WritesWord s b) (h : r = true ↔ a = b) :
    Worth [.int i a, .comparison j .equal, .string k s] r

theorem Worth.evaluate_eq {nodes : List Node} {r : Bool} (h : Worth nodes r) : evaluate nodes = .ok r := by
  cases h with
  | @int _ n _ h =>
    refine congrArg Except.ok (Bool.eq_iff_iff.2 ?_)
    rw [bne_iff_ne, h]
  | yes | no => rfl
  | @ints _ _ _ a b _ h =>
    refine congrArg Except.ok (Bool.eq_iff_iff.2 ?_)
    rw [beq_iff_eq, h]
  | @spelled _ _ _ a b s r hs h =>
    have hr : (b == a) = r := by
      refine Bool.eq_iff_iff.2 ?_
      rw [beq_iff_eq, h, eq_comm]
    show compareOperands .equal (.int a) (.string s) = _
    simp [compareOperands, Operand.isName, readWord?_eq_some_iff.2 hs, hr]

/-! ## What is wrong with three parts -/

/-- What can be wrong with three parts, in the order in which it is looked at. -/
inductive Objection (lhs middle rhs : Node) : Nat → EvalFault → Prop
  | middle (h : ∀ start c, middle ≠ .comparison start c) : Objection lhs middle rhs 0 (.expectedComparison middle.summary)
  | left (h : ∀ a, ¬lhs.HasValue a) : Objection lhs middle rhs 1 (.unexpectedNode lhs.summary)
  | right (h : ∀ b, ¬rhs.HasValue b) : Objection lhs middle rhs 2 (.unexpectedNode rhs.summary)
  | name {s : String} (h : lhs.HasValue (.name s) ∨ rhs.HasValue (.name s)) : Objection lhs middle rhs 3 unresolvedName
  | incomparable {start : Nat} {c : Comparison} {a b : Operand} (hmiddle : middle = .comparison start c)
    (ha : lhs.HasValue a) (hb : rhs.HasValue b) (h : ¬Comparable c a b) :
    Objection lhs middle rhs 4 (.incomparable c.symbol a.summary b.summary)
  | spelling {start : Nat} {s : String} (hrhs : rhs = .string start s) (h : ∀ n, ¬WritesWord s n) :
    Objection lhs middle rhs 5 (.notInt s)

section ThreeParts

variable {lhs middle rhs : Node}

/-- Nothing is wrong with three parts that is looked at before `k`. -/
def SoundBefore (k : Nat) (lhs middle rhs : Node) : Prop := ∀ j e, Objection lhs middle rhs j e → k ≤ j

namespace SoundBefore

variable {k : Nat} (h : SoundBefore k lhs middle rhs)
include h

theorem exists_comparison (hk : 0 < k) : ∃ start c, middle = .comparison start c := by
  cases middle with
  | comparison start c => exact ⟨start, c, rfl⟩
  | text | string | int | ident | block | conditional => exact absurd (h _ _ (.middle nofun)) (by omega)

theorem exists_left (hk : 1 < k) : ∃ a, lhs.HasValue a := by
  by_cases hlhs : ∃ a, lhs.HasValue a
  · exact hlhs
  · exact absurd (h _ _ (.left (not_exists.1 hlhs))) (by omega)

theorem exists_right (hk : 2 < k) : ∃ b, rhs.HasValue b := by
  by_cases hrhs : ∃ b, rhs.HasValue b
  · exact hrhs
  · exact absurd (h _ _ (.right (not_exists.1 hrhs))) (by omega)

theorem isName_eq_false (hk : 3 < k) {a : Operand} (ha : lhs.HasValue a ∨ rhs.HasValue a) : a.isName = false := by
  cases a with
  | int | string => rfl
  | name s => exact absurd (h _ _ (.name ha)) (by omega)

theorem comparable (hk : 4 < k) {start : Nat} {c : Comparison} {a b : Operand} (hmiddle : middle = .comparison start c)
    (ha : lhs.HasValue a) (hb : rhs.HasValue b) : Comparable c a b := by
  by_cases hcomparable : Comparable c a b
  · exact hcomparable
  · exact absurd (h _ _ (.incomparable hmiddle ha hb hcomparable)) (by omega)

theorem exists_word (hk : 5 < k) {start : Nat} {s : String} (hrhs : rhs = .string start s) : ∃ n, WritesWord s n := by
  by_cases hs : ∃ n, WritesWord s n
  · exact hs
  · exact absurd (h _ _ (.spelling hrhs (not_exists.1 hs))) (by omega)

end SoundBefore

/-- The fault of three parts is the objection that comes first. -/
def FirstObjection (lhs middle rhs : Node) (e : EvalFault) : Prop :=
  ∃ k, Objection lhs middle rhs k e ∧ SoundBefore k lhs middle rhs

theorem compareNodes_of_values {start : Nat} {c : Comparison} {a b : Operand} (ha : lhs.HasValue a) (hb : rhs.HasValue b) :
    compareNodes lhs (.comparison start c) rhs = compareOperands c a b := by
  simp only [compareNodes, ofNode_eq_ok_iff.2 ha, ofNode_eq_ok_iff.2 hb]
  rfl

theorem compareOperands_of_name {c : Comparison} {a b : Operand} (h : a.isName = true ∨ b.isName = true) :
    compareOperands c a b = .error unresolvedName := by
  unfold compareOperands
  rw [if_pos ((Bool.or_eq_true ..).mpr h)]

theorem compareOperands_of_not_comparable {c : Comparison} {a b : Operand} (ha : a.isName = false) (hb : b.isName = false)
    (h : ¬Comparable c a b) : compareOperands c a b = .error (.incomparable c.symbol a.summary b.summary) := by
  simp only [compareOperands, ha, hb, Bool.or_self, Bool.false_eq_true, if_false]
  split
  · exact absurd (.int _ _) h
  · exact absurd (.string _ _) h
  · rfl

theorem FirstObjection.compareNodes_eq {e : EvalFault} (h : FirstObjection lhs middle rhs e) :
    compareNodes lhs middle rhs = .error e := by
  obtain ⟨k, hk, hsound⟩ := h
  cases hk with
  | middle h =>
    cases middle with
    | comparison start c => exact absurd rfl (h start c)
    | text | string | int | ident | block | conditional => rfl
  | left h =>
    obtain ⟨start, c, rfl⟩ := hsound.exists_comparison (by omega)
    simp only [compareNodes, ofNode_of_no_value h]
    rfl
  | right h =>
    obtain ⟨start, c, rfl⟩ := hsound.exists_comparison (by omega)
    obtain ⟨a, ha⟩ := hsound.exists_left (by omega)
    simp only [compareNodes, ofNode_eq_ok_iff.2 ha, ofNode_of_no_value h]
    rfl
  | @name s h =>
    obtain ⟨start, c, rfl⟩ := hsound.exists_comparison (by omega)
    obtain ⟨a, ha⟩ := hsound.exists_left (by omega)
    obtain ⟨b, hb⟩ := hsound.exists_right (by omega)
    have hname : a.isName = true ∨ b.isName = true := by
      rcases h with h | h
      · cases h
        cases ha
        exact .inl rfl
      · cases h
        cases hb
        exact .inr rfl
    rw [compareNodes_of_values ha hb, compareOperands_of_name hname]
  | incomparable hmiddle ha hb h =>
    subst hmiddle
    rw [compareNodes_of_values ha hb]
    exact compareOperands_of_not_comparable (hsound.isName_eq_false (by omega) (.inl ha))
      (hsound.isName_eq_false (by omega) (.inr hb)) h
  | @spelling start s hrhs h =>
    obtain ⟨_, c, rfl⟩ := hsound.exists_comparison (by omega)
    obtain ⟨a, ha⟩ := hsound.exists_left (by omega)
    have hb : rhs.HasValue (.string s) := hrhs ▸ .string start s
    have hnone : readWord? s = none := Option.eq_none_iff_forall_ne_some.2 fun n hn => h n (readWord?_eq_some_iff.1 hn)
    rw [compareNodes_of_values ha hb]
    cases hsound.comparable (by omega) rfl ha hb
    simp [compareOperands, Operand.isName, hnone]

theorem exists_worth_of_sound (h : ∀ k, SoundBefore k lhs middle rhs) : ∃ r, Worth [lhs, middle, rhs] r := by
  obtain ⟨start, c, rfl⟩ := (h 1).exists_comparison (by omega)
  obtain ⟨a, ha⟩ := (h 2).exists_left (by omega)
  obtain ⟨b, hb⟩ := (h 3).exists_right (by omega)
  cases (h 5).comparable (by omega) rfl ha hb with
  | int a b =>
    cases ha
    cases hb
    exact ⟨decide (a = b), .ints decide_eq_true_iff⟩
  | string a s =>
    cases ha
    cases hb
    obtain ⟨b, hs⟩ := (h 6).exists_word (by omega) rfl
    exact ⟨decide (a = b), .spelled hs decide_eq_true_iff⟩

theorem exists_firstObjection {e : EvalFault} : ∀ {k : Nat}, Objection lhs middle rhs k e →
    ∃ f, FirstObjection lhs middle rhs f
  | k, h => by
    by_cases hsound : SoundBefore k lhs middle rhs
    · exact ⟨e, k, h, hsound⟩
    · obtain ⟨j, hj⟩ := Classical.not_forall.1 hsound
      obtain ⟨f, hf⟩ := Classical.not_forall.1 hj
      obtain ⟨hobjection, hlt⟩ := Classical.not_imp.1 hf
      have : j < k := Nat.lt_of_not_le hlt
      exact exists_firstObjection hobjection

end ThreeParts

/-! ## All conditions -/

inductive Refusal : List Node → EvalFault → Prop
  | empty : Refusal [] .empty
  | noValue {node : Node} (h : ∀ a, ¬node.HasValue a) : Refusal [node] (.unexpectedNode node.summary)
  | name {start : Nat} {s : String} : Refusal [.ident start s] unresolvedName
  | noTruth {start : Nat} {s : String} (htrue : s ≠ "true") (hfalse : s ≠ "false") : Refusal [.string start s] (.notBool s)
  | two {a b : Node} : Refusal [a, b] (.unsupported "'not'")
  | three {lhs middle rhs : Node} {e : EvalFault} (h : FirstObjection lhs middle rhs e) : Refusal [lhs, middle, rhs] e
  | joined {nodes : List Node} (hlen : 4 ≤ nodes.length) {node : Node} (hnode : node ∈ nodes) (h : node.Joins) :
    Refusal nodes (.unsupported "'and'/'or' combination")
  | tooMany {nodes : List Node} (hlen : 4 ≤ nodes.length) (h : ∀ node ∈ nodes, ¬node.Joins) :
    Refusal nodes (.tooManyParts nodes.length)

theorem Refusal.evaluate_eq {nodes : List Node} {e : EvalFault} (h : Refusal nodes e) : evaluate nodes = .error e := by
  cases h with
  | empty | name | two => rfl
  | noValue h =>
    show truth _ = _
    rw [truth, ofNode_of_no_value h]
  | noTruth htrue hfalse => simp [evaluate, truth, Operand.ofNode, htrue, hfalse]
  | three h => exact h.compareNodes_eq
  | joined hlen hnode h =>
    rw [evaluate_of_length hlen, if_pos (List.any_eq_true.2 ⟨_, hnode, isConnective_iff.2 h⟩)]
  | tooMany hlen h =>
    have hnone : ¬nodes.any isConnective = true := by
      rw [List.any_eq_true]
      rintro ⟨node, hnode, hjoins⟩
      exact h node hnode (isConnective_iff.1 hjoins)
    rw [evaluate_of_length hlen, if_neg hnone]

theorem worth_or_refusal : ∀ nodes : List Node, (∃ r, Worth nodes r) ∨ ∃ e, Refusal nodes e
  | [] => .inr ⟨_, .empty⟩
  | [.int _ n] => .inl ⟨decide (n ≠ 0), .int decide_eq_true_iff⟩
  | [.string _ s] => by
    by_cases htrue : s = "true"
    · exact .inl ⟨true, htrue ▸ .yes⟩
    by_cases hfalse : s = "false"
    · exact .inl ⟨false, hfalse ▸ .no⟩
    · exact .inr ⟨_, .noTruth htrue hfalse⟩
  | [.ident _ _] => .inr ⟨_, .name⟩
  | [.text _ _] | [.comparison _ _] | [.block _ _ _ _] | [.conditional _ _ _ _] => .inr ⟨_, .noValue nofun⟩
  | [_, _] => .inr ⟨_, .two⟩
  | [lhs, middle, rhs] => by
    by_cases h : ∃ k e, Objection lhs middle rhs k e
    · obtain ⟨k, e, h⟩ := h
      obtain ⟨f, hf⟩ := exists_firstObjection h
      exact .inr ⟨f, .three hf⟩
    · exact .inl (exists_worth_of_sound fun k j e hj => absurd ⟨j, e, hj⟩ h)
  | a :: b :: c :: d :: nodes => by
    by_cases h : ∃ node ∈ a :: b :: c :: d :: nodes, node.Joins
    · obtain ⟨node, hnode, hjoins⟩ := h
      exact .inr ⟨_, .joined (by simp) hnode hjoins⟩
    · exact .inr ⟨_, .tooMany (by simp) fun node hnode hjoins => h ⟨node, hnode, hjoins⟩⟩

theorem evaluate_eq_ok_iff {nodes : List Node} {r : Bool} : evaluate nodes = .ok r ↔ Worth nodes r := by
  refine ⟨fun h => ?_, Worth.evaluate_eq⟩
  rcases worth_or_refusal nodes with ⟨r', hr'⟩ | ⟨e, he⟩
  · cases h.symm.trans hr'.evaluate_eq
    exact hr'
  · cases h.symm.trans he.evaluate_eq

theorem evaluate_eq_error_iff {nodes : List Node} {e : EvalFault} : evaluate nodes = .error e ↔ Refusal nodes e := by
  refine ⟨fun h => ?_, Refusal.evaluate_eq⟩
  rcases worth_or_refusal nodes with ⟨r, hr⟩ | ⟨e', he'⟩
  · cases h.symm.trans hr.evaluate_eq
  · cases h.symm.trans he'.evaluate_eq
    exact he'

theorem Objection.fault_ne {lhs middle rhs : Node} {k : Nat} {e : EvalFault} (h : Objection lhs middle rhs k e) :
    e ≠ .empty ∧ e ≠ .unsupported "'not'" ∧ ∀ n, e ≠ .tooManyParts n := by
  cases h with
  | name => simp [unresolvedName]
  | middle | left | right | incomparable | spelling => simp

theorem refusal_empty_iff {nodes : List Node} : Refusal nodes .empty ↔ nodes = [] := by
  constructor
  · intro h
    cases h with
    | empty => rfl
    | three h =>
      obtain ⟨k, hk, -⟩ := h
      exact absurd rfl hk.fault_ne.1
  · rintro rfl
    exact .empty

theorem refusal_two_iff {nodes : List Node} : Refusal nodes (.unsupported "'not'") ↔ nodes.length = 2 := by
  constructor
  · intro h
    generalize he : EvalFault.unsupported "'not'" = e at h
    cases h with
    | two => rfl
    | three h =>
      obtain ⟨k, hk, -⟩ := h
      exact absurd he.symm hk.fault_ne.2.1
    | name | joined => simp [unresolvedName] at he
    | empty | noValue | noTruth | tooMany => cases he
  · intro h
    rcases nodes with _ | ⟨a, _ | ⟨b, _ | ⟨c, nodes⟩⟩⟩
    · cases h
    · cases h
    · exact .two
    · simp at h

theorem refusal_tooMany_iff {nodes : List Node} {n : Nat} :
    Refusal nodes (.tooManyParts n) ↔ n = nodes.length ∧ 4 ≤ n ∧ ∀ node ∈ nodes, ¬node.Joins := by
  constructor
  · intro h
    cases h with
    | three h =>
      obtain ⟨k, hk, -⟩ := h
      exact absurd rfl (hk.fault_ne.2.2 n)
    | tooMany hlen h => exact ⟨rfl, hlen, h⟩
  · rintro ⟨rfl, hlen, h⟩
    exact .tooMany hlen h

theorem refusal_three_iff {lhs middle rhs : Node} {e : EvalFault} :
    Refusal [lhs, middle, rhs] e ↔ FirstObjection lhs middle rhs e := by
  constructor
  · intro h
    cases h with
    | three h => exact h
    | joined hlen | tooMany hlen => simp at hlen
  · exact .three

/-- **A condition is worth something in five shapes, and in every other shape it is a fault.**  It is empty only without
parts; two parts are always taken for a negation; more than three are too many, unless a word among them joins
conditions; and of what is wrong with three parts the first thing that is looked at is the fault. -/
theorem evaluate_exact (nodes : List Node) :
    (∀ r, evaluate nodes = .ok r ↔ Worth nodes r) ∧
    (∀ e, evaluate nodes = .error e ↔ Refusal nodes e) ∧
    (evaluate nodes = .error .empty ↔ nodes = []) ∧
    (evaluate nodes = .error (.unsupported "'not'") ↔ nodes.length = 2) ∧
    (∀ n, evaluate nodes = .error (.tooManyParts n) ↔ n = nodes.length ∧ 4 ≤ n ∧ ∀ node ∈ nodes, ¬node.Joins) ∧
    ∀ lhs middle rhs e, nodes = [lhs, middle, rhs] →
      (evaluate nodes = .error e ↔ FirstObjection lhs middle rhs e) := by
  refine ⟨fun r => evaluate_eq_ok_iff, fun e => evaluate_eq_error_iff, ?_, ?_, fun n => ?_, ?_⟩
  · rw [evaluate_eq_error_iff, refusal_empty_iff]
  · rw [evaluate_eq_error_iff, refusal_two_iff]
  · rw [evaluate_eq_error_iff, refusal_tooMany_iff]
  · rintro lhs middle rhs e rfl
    rw [evaluate_eq_error_iff, refusal_three_iff]

theorem evaluate_exact_seven :
    evaluate [.int 0 7, .comparison 0 .equal, .string 0 "+7"] = .ok true ∧
      FirstObjection (.text 0 "x") (.comparison 0 .less) (.ident 0 "y") (.unexpectedNode "text \"x\"") := by
  have hseven : WritesWord "+7" 7 := .plus ['7'] (by decide) (by simp)
  have htext : evaluate [.text 0 "x", .comparison 0 .less, .ident 0 "y"] = .error (.unexpectedNode "text \"x\"") := rfl
  exact ⟨((evaluate_exact _).1 true).2 (.spelled hseven (by decide)),
    ((evaluate_exact _).2.2.2.2.2 _ _ _ _ rfl).1 htext⟩

end Stencil
