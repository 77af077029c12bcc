import Stencil.Proofs.Forms
/-!
# Written forms lose nothing

What is written as JSON is read back as it was, as long as its numbers fit into words.  Of a node, every written form is.
-/
namespace Stencil

open Relation (ReflTransGen)

def FitsWord (n : Nat) : Prop := n < 0x10000000000000000

namespace Json

variable {α : Type} {name : String} {fields : List (String × Json)}

theorem bind_of_eq {β : Type} {x : Option α} {a : α} (h : x = some a) (f : α → Option β) : (x >>= f) = f a := by
  rw [h]
  rfl

/-! ## Fields -/

theorem field?_of_under (names : List String) {v : Json} (h : under name fields = [v]) :
    (object fields).field? names name = some v := by
  rw [field?, lookup_eq_head?, h]
  rfl

theorem bind_nat {n : Nat} (hn : FitsWord n) (names : List String) (h : under name fields = [.ofNat n])
    (f : Nat → Option α) : (do f (← (← (object fields).field? names name).nat?)) = f n := by
  rw [bind_of_eq (field?_of_under names h), bind_of_eq (nat?_ofNat hn)]

theorem bind_word {n : Int64} (names : List String) (h : under name fields = [.ofWord n]) (f : Int64 → Option α) :
    (do f (← (← (object fields).field? names name).word?)) = f n := by
  rw [bind_of_eq (field?_of_under names h), bind_of_eq (word?_ofWord n)]

theorem bind_string {s : String} (names : List String) (h : under name fields = [.string s]) (f : String → Option α) :
    (do f (← (← (object fields).field? names name).string?)) = f s := by
  rw [bind_of_eq (field?_of_under names h)]
  rfl

theorem part?_of_under (names : List String) {v : Json} (h : under name fields = [v]) :
    ∃ hv, (object fields).part? names name = some ⟨v, hv⟩ := by
  refine ⟨sizeOf_lt_of_field? (field?_of_under names h), ?_⟩
  unfold part?
  split
  · rename_i w hw
    cases (field?_of_under names h).symm.trans hw
    rfl
  · rename_i hnone
    cases (field?_of_under names h).symm.trans hnone

theorem part?_of_under_nil (names : List String) (h : under name fields = []) : (object fields).part? names name = none := by
  have hnone : (object fields).field? names name = none := by
    rw [field?, lookup_eq_head?, h]
    rfl
  unfold part?
  split
  · rename_i v hv
    cases hnone.symm.trans hv
  · rfl

/-! ## Alternatives -/

theorem alternative?_choice (name : String) (content : Json) : (choice name content).alternative? = some (name, content) :=
  rfl

theorem bare?_choice_ne {name s : String} (h : name ≠ s) (content : Json) : (choice name content).bare? ≠ some s := by
  cases content with
  | null => exact fun heq => h (Option.some.inj heq)
  | bool | int | decimal | string | array | object => exact fun heq => by cases heq

end Json

/-! ## Nodes -/

namespace Node

mutual

/-- Whether the offsets of a node and of all nodes in it fit into words. -/
def Fits : Node → Prop
  | text start _ | string start _ | int start _ | ident start _ | comparison start _ => FitsWord start
  | block start _ arguments body => FitsWord start ∧ AllFit arguments ∧ AllFit body
  | conditional start condition body none => FitsWord start ∧ AllFit condition ∧ AllFit body
  | conditional start condition body (some otherwise) =>
    FitsWord start ∧ AllFit condition ∧ AllFit body ∧ otherwise.Fits

def AllFit : List Node → Prop
  | [] => True
  | node :: nodes => node.Fits ∧ AllFit nodes

end

theorem decodeAll?_array (items : List Json) : decodeAll? (.array items) = items.mapM decode? := by
  rw [decodeAll?, List.mapM_subtype (fun _ _ => rfl), List.unattach_attach]

theorem decode?_conditional {fields : List (String × Json)} {start : Nat} {cs bs : Json} {condition body : List Node}
    (hfits : FitsWord start) (hstart : Json.under "start" fields = [.ofNat start])
    (hcs : Json.under "expression" fields = [cs]) (hbs : Json.under "body" fields = [bs])
    (hcondition : decodeAll? cs = some condition) (hbody : decodeAll? bs = some body) :
    decode? (.choice "If" (.object fields)) = match (Json.object fields).part? conditionalFields "else_branch" with
      | none => some (.conditional start condition body none)
      | some ⟨.null, _⟩ => some (.conditional start condition body none)
      | some ⟨otherwise, _⟩ => do return .conditional start condition body (some (← decode? otherwise)) := by
  obtain ⟨_, hconditionPart⟩ := Json.part?_of_under conditionalFields hcs
  obtain ⟨_, hbodyPart⟩ := Json.part?_of_under conditionalFields hbs
  rw [Json.choice, decode?]
  simp only [String.reduceEq, ↓reduceIte, Json.bind_nat hfits _ hstart]
  rw [Json.bind_of_eq hconditionPart, Json.bind_of_eq hbodyPart, hcondition, hbody]
  rcases (Json.object fields).part? conditionalFields "else_branch" with _ | ⟨v, hv⟩
  · rfl
  · cases v <;> rfl

mutual

/-- Every written form of a node is read as the node. -/
theorem Says.read : ∀ {node : Node} {j : Json}, node.Says j → node.Fits → decode? j = some node
  | .text _ _, _, ⟨_, hj, hheld⟩, hfits | .string _ _, _, ⟨_, hj, hheld⟩, hfits | .ident _ _, _, ⟨_, hj, hheld⟩, hfits => by
    subst hj
    simp only [List.forall_mem_cons] at hheld
    rw [Json.choice, decode?]
    simp only [String.reduceEq, ↓reduceIte, Json.bind_nat hfits _ hheld.1, Json.bind_string _ hheld.2.1]
    rfl
  | .int _ _, _, ⟨_, hj, hheld⟩, hfits => by
    subst hj
    simp only [List.forall_mem_cons] at hheld
    rw [Json.choice, decode?]
    simp only [String.reduceEq, ↓reduceIte, Json.bind_nat hfits _ hheld.1, Json.bind_word _ hheld.2.1]
    rfl
  | .comparison _ c, _, ⟨_, hj, hheld⟩, hfits => by
    subst hj
    simp only [List.forall_mem_cons] at hheld
    rw [Json.choice, decode?]
    simp only [String.reduceEq, ↓reduceIte, Json.bind_nat hfits _ hheld.1]
    rw [Json.bind_of_eq (Json.field?_of_under _ hheld.2.1), Json.bind_of_eq c.decode?_encode]
    rfl
  | .block start name arguments body, _, ⟨as, bs, has, hbs, fields, hj, hheld⟩, ⟨hfits, harguments, hbody⟩ => by
    subst hj
    simp only [List.forall_mem_cons] at hheld
    obtain ⟨hstart, hname, has', hbs', -⟩ := hheld
    obtain ⟨_, hargumentsPart⟩ := Json.part?_of_under blockFields has'
    obtain ⟨_, hbodyPart⟩ := Json.part?_of_under blockFields hbs'
    rw [Json.choice, decode?]
    simp only [String.reduceEq, ↓reduceIte, Json.bind_nat hfits _ hstart, Json.bind_string _ hname]
    rw [Json.bind_of_eq hargumentsPart, Json.bind_of_eq hbodyPart, has.read harguments, hbs.read hbody]
    rfl
  | .conditional start condition body none, _, ⟨cs, bs, vs, hcs, hbs, hvs, fields, hj, hheld⟩,
      ⟨hfits, hcondition, hbody⟩ => by
    subst hj
    simp only [List.forall_mem_cons] at hheld
    obtain ⟨hstart, hcs', hbs', hotherwise, -⟩ := hheld
    rw [decode?_conditional hfits hstart hcs' hbs' (hcs.read hcondition) (hbs.read hbody)]
    rcases hvs with rfl | rfl
    · rw [Json.part?_of_under_nil conditionalFields hotherwise]
    · obtain ⟨_, hpart⟩ := Json.part?_of_under conditionalFields hotherwise
      rw [hpart]
  | .conditional start condition body (some otherwise), _,
      ⟨cs, bs, v, hcs, hbs, hotherwise, fields, hj, hheld⟩, ⟨hfits, hcondition, hbody, hfits'⟩ => by
    subst hj
    simp only [List.forall_mem_cons] at hheld
    obtain ⟨hstart, hcs', hbs', hotherwise', -⟩ := hheld
    obtain ⟨_, hpart⟩ := Json.part?_of_under conditionalFields hotherwise'
    rw [decode?_conditional hfits hstart hcs' hbs' (hcs.read hcondition) (hbs.read hbody), hpart]
    -- an object is no null, so what is done otherwise is read
    have hread := hotherwise.read hfits'
    obtain ⟨_, rfl⟩ := hotherwise.exists_object
    simp only [hread]
    rfl

theorem SaysAll.read : ∀ {nodes : List Node} {items : List Json}, SaysAll nodes items → AllFit nodes →
    decodeAll? (.array items) = some nodes
  | [], _, h, _ => by
    rw [show _ = [] from h, decodeAll?_array]
    rfl
  | node :: nodes, _, ⟨k, ks, heq, hnode, hnodes⟩, hfits => by
    have ih := hnodes.read hfits.2
    rw [decodeAll?_array] at ih
    rw [heq, decodeAll?_array, List.mapM_cons, hnode.read hfits.1, ih]
    rfl

end

end Node

/-! ## Tokens and faults -/

def Place.Fits (p : Place) : Prop := FitsWord p.offset ∧ FitsWord p.line ∧ FitsWord p.column

theorem Token.decode?_of_fits {t : Token} (h : t.place.Fits) : Token.decode? t.encode = some t := by
  obtain ⟨hoffset, hline, hcolumn⟩ := h
  rw [Token.decode?, Token.encode, Json.bind_of_eq (Json.field?_of_under _ rfl), Json.bind_of_eq t.kind.decode?_encode,
    Json.bind_nat hoffset _ rfl, Json.bind_string _ rfl, Json.bind_nat hline _ rfl, Json.bind_nat hcolumn _ rfl]
  rfl

theorem ParseCause.decode?_encode (c : ParseCause) : ParseCause.decode? c.encode = some c := by
  cases c <;> rfl

theorem ParseFault.decode?_of_fits {f : ParseFault} (h : f.place.Fits) : ParseFault.decode? f.encode = some f := by
  obtain ⟨hoffset, hline, hcolumn⟩ := h
  rw [ParseFault.decode?, ParseFault.encode, Json.bind_nat hline _ rfl, Json.bind_nat hcolumn _ rfl,
    Json.bind_nat hoffset _ rfl, Json.bind_of_eq (Json.field?_of_under _ rfl), Json.bind_of_eq f.cause.decode?_encode]
  rfl

def EvalFault.Fits : EvalFault → Prop
  | tooManyParts count => FitsWord count
  | _ => True

theorem EvalFault.decode?_of_fits : ∀ {f : EvalFault}, f.Fits → EvalFault.decode? f.encode = some f
  | .empty, _ | .unsupported _, _ | .unexpectedNode _, _ | .expectedComparison _, _ | .notBool _, _ | .notInt _, _
  | .incomparable .., _ => rfl
  | .tooManyParts count, h => by
    rw [encode, written, decode?, if_neg (Json.bare?_choice_ne (by decide) _), Json.bind_of_eq (Json.alternative?_choice _ _)]
    simp only [String.reduceEq, ↓reduceIte]
    rw [Json.bind_of_eq (show Json.named? "count" _ = _ from rfl), Json.bind_of_eq (Json.nat?_ofNat h)]
    rfl

def Fault.Fits : Fault → Prop
  | parse f => f.place.Fits
  | eval f => f.Fits
  | cancelled | unparsed _ => True

theorem Fault.decode?_of_fits : ∀ {f : Fault}, f.Fits → Fault.decode? f.encode = some f
  | .cancelled, _ | .unparsed _, _ => rfl
  | .parse f, h => by
    rw [encode, decode?, if_neg (Json.bare?_choice_ne (by decide) _), Json.bind_of_eq (Json.alternative?_choice _ _)]
    simp only [↓reduceIte, ParseFault.decode?_of_fits h]
    rfl
  | .eval f, h => by
    rw [encode, decode?, if_neg (Json.bare?_choice_ne (by decide) _), Json.bind_of_eq (Json.alternative?_choice _ _)]
    simp only [String.reduceEq, ↓reduceIte, EvalFault.decode?_of_fits h]
    rfl

/-- **Written forms lose nothing.**  A node, a token and a fault are read back as they were written if their numbers fit
into words, and a node is however what is written of it is varied. -/
theorem written_lossless :
    (∀ node : Node, node.Fits → Node.decode? node.encode = some node ∧
      ∀ j, ReflTransGen Node.Varies node.encode j → Node.decode? j = some node) ∧
    (∀ t : Token, t.place.Fits → Token.decode? t.encode = some t) ∧
      ∀ f : Fault, f.Fits → Fault.decode? f.encode = some f :=
  ⟨fun node hfits => ⟨node.says_encode.read hfits, fun _ hv => (node.says_encode.varied hv).read hfits⟩,
    fun _ => Token.decode?_of_fits, fun _ => Fault.decode?_of_fits⟩

/-! ## A conditional within another, told in its own way -/

def within : Node := .conditional 5 [.ident 8 "b"] [] none

def withinRetold : Json :=
  .choice "If" (.object [("note", .bool true), ("start", .ofNat 5), ("expression", .array [(Node.ident 8 "b").encode]),
    ("body", .array [])])

theorem within_varies : ReflTransGen Node.Varies within.encode withinRetold :=
  .head (@Node.Varies.leaveOut [("start", .ofNat 5), ("expression", .array [(Node.ident 8 "b").encode]),
    ("body", .array [])] []) (.single (.extend rfl (by decide)))

def outer : Node := .conditional 0 [.ident 3 "a"] [within] (some (.text 30 "no"))

def outerAround (j : Json) : Json :=
  .choice "If" (.object [("start", .ofNat 0), ("expression", .array [(Node.ident 3 "a").encode]), ("body", .array [j]),
    ("else_branch", (Node.text 30 "no").encode)])

theorem outerAround_varies {j k : Json} (h : Node.Varies j k) : Node.Varies (outerAround j) (outerAround k) :=
  @Node.Varies.field [] [] "If" _ _ (@Node.Varies.field [_, _] [_] "body" _ _ (@Node.Varies.item [] [] _ _ h))

def outerRetold : Json :=
  .choice "If" (.object [("body", .array [withinRetold]), ("start", .ofNat 0),
    ("expression", .array [(Node.ident 3 "a").encode]), ("else_branch", (Node.text 30 "no").encode)])

theorem outer_varies : ReflTransGen Node.Varies outer.encode outerRetold := by
  have hwithin : ReflTransGen Node.Varies outer.encode (outerAround withinRetold) :=
    ReflTransGen.lift outerAround (fun _ _ => outerAround_varies) _ _ within_varies
  refine hwithin.tail (@Node.Varies.field [] [] "If" _ _ (.reorder ?_))
  exact (List.Perm.cons _ (.swap ..)).trans (.swap ..)

theorem written_lossless_retold :
    outer.Fits ∧ ReflTransGen Node.Varies outer.encode outerRetold ∧ Node.decode? outerRetold = some outer ∧
      Token.decode? (Token.encode ⟨.text, "no", 30, 2, 4⟩) = some ⟨.text, "no", 30, 2, 4⟩ ∧
      Fault.decode? (Fault.encode (.parse ⟨⟨30, 2, 4⟩, .unknownTag "no"⟩)) = some (.parse ⟨⟨30, 2, 4⟩, .unknownTag "no"⟩) ∧
      Fault.decode? (Fault.encode (.eval (.tooManyParts 4))) = some (.eval (.tooManyParts 4)) := by
  have hfits : outer.Fits := by simp [outer, within, Node.Fits, Node.AllFit, FitsWord]
  have hplace : Place.Fits ⟨30, 2, 4⟩ := by simp [Place.Fits, FitsWord]
  obtain ⟨hnode, htoken, hfault⟩ := written_lossless
  refine ⟨hfits, outer_varies, (hnode outer hfits).2 _ outer_varies, htoken _ hplace, hfault _ hplace, hfault _ ?_⟩
  simp [Fault.Fits, EvalFault.Fits, FitsWord]

end Stencil
