import Mathlib.Logic.Relation
import Stencil.Json.Codec
/-!
# Written forms of a node

What is written of a node may be varied at any depth: the fields of an object may come in another order, the record of an
alternative may hold further fields of other names, and a null where a conditional does nothing otherwise may be left out
(`Node.Varies`).  It goes on saying the same node (`Node.Says`), since under each of its own names a record goes on holding
the one value that counts.
-/
namespace Stencil

open Relation (ReflTransGen)

/-! ## What an object holds under a name -/

namespace Json

def under (name : String) : List (String × Json) → List Json
  | [] => []
  | (k, v) :: fields => if k = name then v :: under name fields else under name fields

theorem under_append (name : String) : ∀ l r : List (String × Json), under name (l ++ r) = under name l ++ under name r
  | [], _ => rfl
  | (k, v) :: l, r => by
    rw [List.cons_append, under, under, under_append name l r]
    split <;> rfl

theorem under_perm (name : String) {l r : List (String × Json)} (h : l.Perm r) : (under name l).Perm (under name r) := by
  induction h with
  | nil => exact .refl _
  | cons e _ ih =>
    rw [under, under]
    split
    · exact ih.cons _
    · exact ih
  | swap e f l =>
    simp only [under]
    split <;> split
    · exact .swap ..
    all_goals exact .refl _
  | trans _ _ ih ih' => exact ih.trans ih'

theorem lookup_eq_head? (name : String) : ∀ fields : List (String × Json), fields.lookup name = (under name fields).head?
  | [] => rfl
  | (k, v) :: fields => by
    rw [List.lookup_cons, under]
    by_cases h : k = name
    · subst h
      simp
    · have : (name == k) = false := beq_eq_false_iff_ne.2 (Ne.symm h)
      rw [this, if_neg h, lookup_eq_head? name fields]

def Plain (j : Json) : Prop := (∃ n, j = .int n) ∨ ∃ s, j = .string s

end Json

namespace Node

/-! ## What may be varied -/

def records : List (String × List String) :=
  [("Text", textFields), ("String", literalFields), ("Int", literalFields), ("Identifier", identFields),
    ("Comparison", comparisonFields), ("Block", blockFields), ("If", conditionalFields)]

/-- `Varies j k`: at one place of a written node `j` something was done that makes no difference, and `k` came of it. -/
inductive Varies : Json → Json → Prop
  | reorder {fields fields' : List (String × Json)} (h : fields.Perm fields') : Varies (.object fields) (.object fields')
  | extend {alternative name : String} {names : List String} {fields : List (String × Json)} {value : Json}
    (hnames : records.lookup alternative = some names) (hname : name ∉ names) :
    Varies (.choice alternative (.object fields)) (.choice alternative (.object ((name, value) :: fields)))
  | leaveOut {before behind : List (String × Json)} :
    Varies (.choice "If" (.object (before ++ ("else_branch", .null) :: behind))) (.choice "If" (.object (before ++ behind)))
  | item {before behind : List Json} {j k : Json} (h : Varies j k) :
    Varies (.array (before ++ j :: behind)) (.array (before ++ k :: behind))
  | field {before behind : List (String × Json)} {name : String} {j k : Json} (h : Varies j k) :
    Varies (.object (before ++ (name, j) :: behind)) (.object (before ++ (name, k) :: behind))

/-- What may become of what a record holds under a name. -/
inductive Changes (name : String) : List Json → List Json → Prop
  | reordered {vs vs' : List Json} (h : vs.Perm vs') : Changes name vs vs'
  | varied {before behind : List Json} {v v' : Json} (h : Varies v v') :
    Changes name (before ++ v :: behind) (before ++ v' :: behind)
  | omitted {before behind : List Json} (h : name = "else_branch") :
    Changes name (before ++ .null :: behind) (before ++ behind)

/-! ## What is said -/

def Holds (alternative : String) (entries : List (String × List Json)) (j : Json) : Prop :=
  ∃ fields, j = .choice alternative (.object fields) ∧ ∀ e ∈ entries, Json.under e.1 fields = e.2

mutual

/-- `node.Says j`: `j` is a written form of the node, whatever else it holds and in whatever order. -/
def Says : Node → Json → Prop
  | text start s, j => Holds "Text" [("start", [.ofNat start]), ("text", [.string s])] j
  | string start s, j => Holds "String" [("start", [.ofNat start]), ("value", [.string s])] j
  | int start n, j => Holds "Int" [("start", [.ofNat start]), ("value", [.ofWord n])] j
  | ident start s, j => Holds "Identifier" [("start", [.ofNat start]), ("name", [.string s])] j
  | comparison start c, j => Holds "Comparison" [("start", [.ofNat start]), ("operator", [c.encode])] j
  | block start name arguments body, j => ∃ as bs, SaysAll arguments as ∧ SaysAll body bs ∧
    Holds "Block" [("start", [.ofNat start]), ("name", [.string name]), ("arguments", [.array as]), ("body", [.array bs])] j
  | conditional start condition body none, j => ∃ cs bs vs, SaysAll condition cs ∧ SaysAll body bs ∧
    (vs = [] ∨ vs = [.null]) ∧ Holds "If" [("start", [.ofNat start]), ("expression", [.array cs]), ("body", [.array bs]),
      ("else_branch", vs)] j
  | conditional start condition body (some otherwise), j => ∃ cs bs v, SaysAll condition cs ∧ SaysAll body bs ∧
    otherwise.Says v ∧ Holds "If" [("start", [.ofNat start]), ("expression", [.array cs]), ("body", [.array bs]),
      ("else_branch", [v])] j

def SaysAll : List Node → List Json → Prop
  | [], js => js = []
  | node :: nodes, js => ∃ k ks, js = k :: ks ∧ node.Says k ∧ SaysAll nodes ks

end

theorem Holds.exists_object {alternative : String} {entries : List (String × List Json)} {j : Json}
    (h : Holds alternative entries j) : ∃ fields, j = .object fields := by
  obtain ⟨fields, rfl, -⟩ := h
  exact ⟨_, rfl⟩

theorem Says.exists_object {node : Node} {j : Json} (h : node.Says j) : ∃ fields, j = .object fields := by
  cases node with
  | text | string | int | ident | comparison => exact Holds.exists_object h
  | block =>
    obtain ⟨_, _, -, -, h⟩ := h
    exact h.exists_object
  | conditional start condition body otherwise =>
    cases otherwise with
    | none =>
      obtain ⟨_, _, _, -, -, -, h⟩ := h
      exact h.exists_object
    | some =>
      obtain ⟨_, _, _, -, -, -, h⟩ := h
      exact h.exists_object

/-! ## Variations of records -/

theorem not_varies_plain {v k : Json} (hv : v.Plain) : ¬Varies v k := by
  rintro h
  rcases hv with ⟨n, rfl⟩ | ⟨s, rfl⟩ <;> cases h

theorem eq_of_append_singleton {α : Type} {a b : α} {before behind : List α} (h : before ++ a :: behind = [b]) :
    before = [] ∧ a = b ∧ behind = [] := by
  rcases List.append_eq_singleton_iff.1 h with ⟨hbefore, hrest⟩ | ⟨-, hrest⟩
  · obtain ⟨rfl, rfl⟩ := List.cons.inj hrest
    exact ⟨hbefore, rfl, rfl⟩
  · cases hrest

theorem Changes.of_singleton {name : String} {v : Json} {vs : List Json} (h : Changes name [v] vs) :
    vs = [v] ∨ (∃ v', Varies v v' ∧ vs = [v']) ∨ name = "else_branch" ∧ v = .null ∧ vs = [] := by
  generalize hws : [v] = ws at h
  cases h with
  | reordered h =>
    subst hws
    exact .inl (List.perm_singleton.1 h.symm)
  | varied h =>
    obtain ⟨rfl, rfl, rfl⟩ := eq_of_append_singleton hws.symm
    exact .inr (.inl ⟨_, h, rfl⟩)
  | omitted h =>
    obtain ⟨rfl, hv, rfl⟩ := eq_of_append_singleton hws.symm
    exact .inr (.inr ⟨h, hv.symm, rfl⟩)

theorem Changes.of_nil {name : String} {vs : List Json} (h : Changes name [] vs) : vs = [] := by
  generalize hws : [] = ws at h
  cases h with
  | reordered h =>
    subst hws
    exact List.nil_perm.1 h
  | varied h => exact absurd hws.symm (by simp)
  | omitted h => exact absurd hws.symm (by simp)

theorem Changes.of_plain {name : String} {v : Json} {vs : List Json} (hv : v.Plain) (h : Changes name [v] vs) :
    vs = [v] := by
  rcases h.of_singleton with h | ⟨v', h, -⟩ | ⟨-, rfl, -⟩
  · exact h
  · exact absurd h (not_varies_plain hv)
  · rcases hv with ⟨n, hn⟩ | ⟨s, hs⟩ <;> contradiction

theorem Changes.same {name : String} {vs : List Json} : Changes name vs vs := .reordered (.refl vs)

theorem changes_field {before behind : List (String × Json)} {key : String} {v v' : Json} (h : Varies v v')
    (name : String) : Changes name (Json.under name (before ++ (key, v) :: behind))
      (Json.under name (before ++ (key, v') :: behind)) := by
  rw [Json.under_append, Json.under_append, Json.under, Json.under]
  by_cases hkey : key = name
  · rw [if_pos hkey, if_pos hkey]
    exact .varied h
  · rw [if_neg hkey, if_neg hkey]
    exact .same

theorem changes_leaveOut (before behind : List (String × Json)) (name : String) :
    Changes name (Json.under name (before ++ ("else_branch", .null) :: behind)) (Json.under name (before ++ behind)) := by
  rw [Json.under_append, Json.under_append, Json.under]
  by_cases hkey : "else_branch" = name
  · rw [if_pos hkey]
    exact .omitted hkey.symm
  · rw [if_neg hkey]
    exact .same

theorem ne_alternative {fields : List (String × Json)} {start : Nat} (hstart : Json.under "start" fields = [.ofNat start])
    (alternative : String) (record : List (String × Json)) : fields ≠ [(alternative, .object record)] := by
  rintro rfl
  rw [Json.under, Json.under] at hstart
  split at hstart <;> cases hstart

/-- A record is varied in what it holds under a name, or in the order of its fields. -/
theorem Varies.of_record {fields : List (String × Json)} {start : Nat} {k : Json}
    (hstart : Json.under "start" fields = [.ofNat start]) (h : Varies (.object fields) k) :
    ∃ fields', k = .object fields' ∧ ∀ name, Changes name (Json.under name fields) (Json.under name fields') := by
  generalize hj : Json.object fields = j at h
  cases h with
  | reorder h =>
    cases hj
    exact ⟨_, rfl, fun name => .reordered (Json.under_perm name h)⟩
  | extend | leaveOut =>
    cases hj
    exact absurd rfl (ne_alternative hstart _ _)
  | item => cases hj
  | field h =>
    cases hj
    exact ⟨_, rfl, changes_field h⟩

/-- An alternative is varied in its record, which may be given a field of another name or lose a null, or within it. -/
theorem Varies.of_alternative {alternative : String} {names : List String} {fields : List (String × Json)} {start : Nat}
    {k : Json} (hnames : records.lookup alternative = some names) (hstart : Json.under "start" fields = [.ofNat start])
    (h : Varies (.choice alternative (.object fields)) k) : ∃ fields', k = .choice alternative (.object fields') ∧
      ∀ name ∈ names, Changes name (Json.under name fields) (Json.under name fields') := by
  generalize hj : Json.choice alternative (.object fields) = j at h
  cases h with
  | reorder h =>
    cases hj
    rw [← List.singleton_perm.1 h]
    exact ⟨_, rfl, fun _ _ => .same⟩
  | extend hnames' hname =>
    cases hj
    cases hnames.symm.trans hnames'
    refine ⟨_, rfl, fun name hmem => ?_⟩
    rw [Json.under, if_neg (ne_of_mem_of_not_mem hmem hname).symm]
    exact .same
  | leaveOut =>
    cases hj
    exact ⟨_, rfl, fun name _ => changes_leaveOut _ _ name⟩
  | item => cases hj
  | field h =>
    obtain ⟨rfl, hcontent, rfl⟩ := eq_of_append_singleton (Json.object.inj hj).symm
    cases hcontent
    obtain ⟨fields', rfl, hchanges⟩ := h.of_record hstart
    exact ⟨fields', rfl, fun name _ => hchanges name⟩

theorem Holds.vary {alternative : String} {entries : List (String × List Json)} {start : Nat} {j k : Json}
    (h : Holds alternative (("start", [.ofNat start]) :: entries) j)
    (hnames : records.lookup alternative = some ("start" :: entries.map Prod.fst)) (hv : Varies j k) :
    ∃ held : String → List Json,
      Holds alternative (("start", [.ofNat start]) :: entries.map fun e => (e.1, held e.1)) k ∧
        ∀ e ∈ entries, Changes e.1 e.2 (held e.1) := by
  obtain ⟨fields, rfl, hheld⟩ := h
  obtain ⟨hstart, hheld⟩ := List.forall_mem_cons.1 hheld
  obtain ⟨fields', rfl, hchanges⟩ := hv.of_alternative hnames hstart
  refine ⟨fun name => Json.under name fields', ⟨fields', rfl, List.forall_mem_cons.2 ⟨?_, ?_⟩⟩, fun e he => ?_⟩
  · have hsame := hchanges "start" List.mem_cons_self
    rw [hstart] at hsame
    exact hsame.of_plain (.inl ⟨_, rfl⟩)
  · intro e he
    obtain ⟨f, -, rfl⟩ := List.mem_map.1 he
    rfl
  · rw [← hheld e he]
    exact hchanges e.1 (List.mem_cons_of_mem _ (List.mem_map_of_mem he))

theorem Holds.vary_plain {alternative : String} {entries : List (String × List Json)} {start : Nat} {j k : Json}
    (h : Holds alternative (("start", [.ofNat start]) :: entries) j)
    (hnames : records.lookup alternative = some ("start" :: entries.map Prod.fst))
    (hplain : ∀ e ∈ entries, ∃ v, e.2 = [v] ∧ v.Plain) (hv : Varies j k) :
    Holds alternative (("start", [.ofNat start]) :: entries) k := by
  obtain ⟨held, hk, hchanges⟩ := h.vary hnames hv
  have hsame : (entries.map fun e => (e.1, held e.1)) = entries := by
    refine (List.map_congr_left fun e he => ?_).trans (List.map_id entries)
    obtain ⟨v, hv, hplain⟩ := hplain e he
    have hchange := hchanges e he
    rw [hv] at hchange
    exact Prod.ext rfl ((hchange.of_plain hplain).trans hv.symm)
  rwa [hsame] at hk

theorem plain_ofWord (n : Int64) : (Json.ofWord n).Plain := .inl ⟨_, rfl⟩

theorem plain_string (s : String) : (Json.string s).Plain := .inr ⟨s, rfl⟩

theorem Changes.of_nodes {name : String} {nodes : List Node} {items vs : List Json} (h : Changes name [.array items] vs)
    (hitems : SaysAll nodes items)
    (hvary : ∀ {before behind : List Json} {j k : Json}, SaysAll nodes (before ++ j :: behind) → Varies j k →
      SaysAll nodes (before ++ k :: behind)) : ∃ items', vs = [.array items'] ∧ SaysAll nodes items' := by
  rcases h.of_singleton with rfl | ⟨k, hv, rfl⟩ | ⟨-, hnull, -⟩
  · exact ⟨items, rfl, hitems⟩
  · cases hv with
    | item hv => exact ⟨_, rfl, hvary hitems hv⟩
  · cases hnull

/-! ## Variations of nodes -/

mutual

/-- A written form that is varied at one place is a written form of the same node. -/
theorem Says.vary : ∀ {node : Node} {j k : Json}, node.Says j → Varies j k → node.Says k
  | .text _ s, _, _, h, hv | .string _ s, _, _, h, hv | .ident _ s, _, _, h, hv =>
    Holds.vary_plain h rfl (List.forall_mem_singleton.2 ⟨_, rfl, plain_string s⟩) hv
  | .int _ n, _, _, h, hv => Holds.vary_plain h rfl (List.forall_mem_singleton.2 ⟨_, rfl, plain_ofWord n⟩) hv
  | .comparison _ c, _, _, h, hv =>
    Holds.vary_plain h rfl (List.forall_mem_singleton.2 ⟨_, rfl, plain_string c.written⟩) hv
  | .block start name arguments body, _, _, ⟨as, bs, has, hbs, h⟩, hv => by
    obtain ⟨held, hk, hchanges⟩ := h.vary rfl hv
    simp only [List.forall_mem_cons] at hchanges
    obtain ⟨hname, harguments, hbody, -⟩ := hchanges
    obtain ⟨as', has'eq, has'⟩ := harguments.of_nodes has SaysAll.vary
    obtain ⟨bs', hbs'eq, hbs'⟩ := hbody.of_nodes hbs SaysAll.vary
    refine ⟨as', bs', has', hbs', ?_⟩
    rw [← has'eq, ← hbs'eq, ← hname.of_plain (plain_string name)]
    exact hk
  | .conditional start condition body none, _, _, ⟨cs, bs, vs, hcs, hbs, hvs, h⟩, hv => by
    obtain ⟨held, hk, hchanges⟩ := h.vary rfl hv
    simp only [List.forall_mem_cons] at hchanges
    obtain ⟨hcondition, hbody, hotherwise, -⟩ := hchanges
    obtain ⟨cs', hcs'eq, hcs'⟩ := hcondition.of_nodes hcs SaysAll.vary
    obtain ⟨bs', hbs'eq, hbs'⟩ := hbody.of_nodes hbs SaysAll.vary
    refine ⟨cs', bs', held "else_branch", hcs', hbs', ?_, ?_⟩
    · rcases hvs with rfl | rfl
      · exact .inl hotherwise.of_nil
      · rcases hotherwise.of_singleton with hsame | ⟨v, hv, -⟩ | ⟨-, -, hnil⟩
        · exact .inr hsame
        · cases hv
        · exact .inl hnil
    · rw [← hcs'eq, ← hbs'eq]
      exact hk
  | .conditional start condition body (some otherwise), _, _, ⟨cs, bs, v, hcs, hbs, hotherwise, h⟩, hv => by
    obtain ⟨held, hk, hchanges⟩ := h.vary rfl hv
    simp only [List.forall_mem_cons] at hchanges
    obtain ⟨hcondition, hbody, hbranch, -⟩ := hchanges
    obtain ⟨cs', hcs'eq, hcs'⟩ := hcondition.of_nodes hcs SaysAll.vary
    obtain ⟨bs', hbs'eq, hbs'⟩ := hbody.of_nodes hbs SaysAll.vary
    have hkept : ∃ v', held "else_branch" = [v'] ∧ otherwise.Says v' := by
      rcases hbranch.of_singleton with hsame | ⟨v', hv', hsame⟩ | ⟨-, rfl, -⟩
      · exact ⟨v, hsame, hotherwise⟩
      · exact ⟨v', hsame, hotherwise.vary hv'⟩
      · obtain ⟨_, hnull⟩ := hotherwise.exists_object
        cases hnull
    obtain ⟨v', hv'eq, hv'⟩ := hkept
    refine ⟨cs', bs', v', hcs', hbs', hv', ?_⟩
    rw [← hcs'eq, ← hbs'eq, ← hv'eq]
    exact hk

theorem SaysAll.vary : ∀ {nodes : List Node} {before behind : List Json} {j k : Json},
    SaysAll nodes (before ++ j :: behind) → Varies j k → SaysAll nodes (before ++ k :: behind)
  | [], _, _, _, _, h, _ => absurd h (by simp [SaysAll])
  | _ :: _, [], _, _, _, ⟨_, _, heq, hnode, hnodes⟩, hv => by
    obtain ⟨rfl, rfl⟩ := List.cons.inj heq
    exact ⟨_, _, rfl, hnode.vary hv, hnodes⟩
  | _ :: _, _ :: _, _, _, _, ⟨_, _, heq, hnode, hnodes⟩, hv => by
    obtain ⟨rfl, rfl⟩ := List.cons.inj heq
    exact ⟨_, _, rfl, hnode, SaysAll.vary hnodes hv⟩

end

theorem Says.varied {node : Node} {j k : Json} (h : node.Says j) (hv : ReflTransGen Varies j k) : node.Says k := by
  induction hv with
  | refl => exact h
  | tail _ hstep ih => exact ih.vary hstep

/-! ## What is written -/

mutual

theorem says_encode : ∀ node : Node, node.Says node.encode
  | .text .. | .string .. | .int .. | .ident .. | .comparison .. => ⟨_, rfl, by simp [Json.under]⟩
  | .block _ _ arguments body =>
    ⟨_, _, saysAll_encodeAll arguments, saysAll_encodeAll body, _, rfl, by simp [Json.under]⟩
  | .conditional _ condition body none =>
    ⟨_, _, _, saysAll_encodeAll condition, saysAll_encodeAll body, .inr rfl, _, rfl, by simp [Json.under]⟩
  | .conditional _ condition body (some otherwise) =>
    ⟨_, _, _, saysAll_encodeAll condition, saysAll_encodeAll body, says_encode otherwise, _, rfl, by simp [Json.under]⟩

theorem saysAll_encodeAll (nodes : List Node) : SaysAll nodes (encodeAll nodes) := by
  cases nodes with
  | nil => rfl
  | cons node nodes => exact ⟨_, _, rfl, says_encode node, saysAll_encodeAll nodes⟩

end

end Node
end Stencil
