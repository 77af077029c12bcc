import Stencil.Proofs.Branches
import Stencil.Proofs.Origins
import Stencil.Proofs.Shape
import Stencil.Proofs.Verdicts
/-!
# The course of a rendering

A rendering takes the nodes of a template in order, and of a conditional the branch that its condition tells.  `Takes`
follows it from node to node: what has come out so far are texts, and what is still to come is a list of nodes.  Since
only texts, blocks and conditionals stand in what was read, a rendering can stop nowhere but at a conditional whose
condition is a fault, and it comes to its end if there is none on its way.
-/
namespace Stencil

/-- `Takes nodes passed rest`: of `nodes`, with branches taken in order, the texts `passed` have come out and `rest` is
still to come. -/
inductive Takes : List Node → List (Nat × String) → List Node → Prop
  | refl (nodes : List Node) : Takes nodes [] nodes
  | text {start : Nat} {s : String} {nodes : List Node} {passed : List (Nat × String)} {rest : List Node}
    (h : Takes nodes passed rest) : Takes (.text start s :: nodes) ((start, s) :: passed) rest
  | block {start : Nat} {name : String} {arguments body nodes : List Node} {passed : List (Nat × String)} {rest : List Node}
    (h : Takes (body ++ nodes) passed rest) : Takes (.block start name arguments body :: nodes) passed rest
  | body {start : Nat} {condition body nodes : List Node} {otherwise : Option Node} {passed : List (Nat × String)}
    {rest : List Node} (hc : evaluate condition = .ok true) (h : Takes (body ++ nodes) passed rest) :
    Takes (.conditional start condition body otherwise :: nodes) passed rest
  | otherwise {start : Nat} {condition body nodes : List Node} {otherwise : Option Node} {passed : List (Nat × String)}
    {rest : List Node} (hc : evaluate condition = .ok false) (h : Takes (otherwise.toList ++ nodes) passed rest) :
    Takes (.conditional start condition body otherwise :: nodes) passed rest

/-- With branches taken in order from some nodes on, a conditional with this condition comes next. -/
def ComesTo (nodes condition : List Node) : Prop :=
  ∃ passed start body otherwise rest, Takes nodes passed (.conditional start condition body otherwise :: rest)

/-- Texts one after another. -/
def joined (texts : List (Nat × String)) : String := String.join (texts.map Prod.snd)

theorem joined_nil : joined [] = "" := rfl

theorem joined_cons (start : Nat) (s : String) (texts : List (Nat × String)) :
    joined ((start, s) :: texts) = s ++ joined texts := String.join_cons

namespace Takes

variable {as bs cs nodes rest : List Node} {passed ps qs : List (Nat × String)}

theorem append (h : Takes as ps bs) (more : List Node) : Takes (as ++ more) ps (bs ++ more) := by
  induction h with
  | refl => exact .refl _
  | text _ ih => exact .text ih
  | block _ ih =>
    rw [List.append_assoc] at ih
    exact .block ih
  | body hc _ ih =>
    rw [List.append_assoc] at ih
    exact .body hc ih
  | otherwise hc _ ih =>
    rw [List.append_assoc] at ih
    exact .otherwise hc ih

theorem trans (h : Takes as ps bs) (h' : Takes bs qs cs) : Takes as (ps ++ qs) cs := by
  induction h with
  | refl => exact h'
  | text _ ih => exact .text (ih h')
  | block _ ih => exact .block (ih h')
  | body hc _ ih => exact .body hc (ih h')
  | otherwise hc _ ih => exact .otherwise hc (ih h')

theorem sublist_textsOf (h : Takes nodes passed rest) : (passed ++ textsOf rest).Sublist (textsOf nodes) := by
  induction h with
  | refl => exact .refl _
  | text _ ih =>
    rw [textsOf_cons, textsOf_singleton]
    exact ih.cons_cons _
  | block _ ih =>
    rw [textsOf_cons, textsOf_block]
    rwa [textsOf_append] at ih
  | body _ _ ih =>
    rw [textsOf_append] at ih
    rw [textsOf_cons, textsOf_conditional]
    exact ih.trans (.append ((List.sublist_append_left _ _).trans (List.sublist_append_right _ _)) (.refl _))
  | otherwise _ _ ih =>
    rw [textsOf_append] at ih
    rw [textsOf_cons, textsOf_conditional]
    exact ih.trans (.append ((List.sublist_append_right _ _).trans (List.sublist_append_right _ _)) (.refl _))

end Takes

namespace ComesTo

variable {as bs condition : List Node}

theorem after {ps : List (Nat × String)} (h : Takes as ps bs) (hbs : ComesTo bs condition) : ComesTo as condition := by
  obtain ⟨qs, start, body, otherwise, rest, hqs⟩ := hbs
  exact ⟨_, start, body, otherwise, rest, h.trans hqs⟩

theorem append (h : ComesTo as condition) (bs : List Node) : ComesTo (as ++ bs) condition := by
  obtain ⟨ps, start, body, otherwise, rest, hps⟩ := h
  exact ⟨ps, start, body, otherwise, rest ++ bs, hps.append bs⟩

end ComesTo

/-! ## Rendering takes this course -/

theorem renderAllOnto_cons_of_eq {node : Node} {body : List Node} {out : String}
    (h : node.renderOnto true out = renderAllOnto true out body) (nodes : List Node) :
    renderAllOnto true out (node :: nodes) = renderAllOnto true out (body ++ nodes) := by
  rw [renderAllOnto, renderAllOnto_append_nodes, h]
  cases renderAllOnto true out body <;> rfl

/-- Whatever comes of what is still to come, it comes out behind the texts that have come out. -/
theorem Takes.renderAllOnto_eq {nodes rest : List Node} {passed : List (Nat × String)} (h : Takes nodes passed rest) :
    ∀ out, renderAllOnto true out nodes = renderAllOnto true (out ++ joined passed) rest := by
  induction h with
  | refl nodes =>
    intro out
    rw [joined_nil, String.append_empty]
  | @text start s nodes passed rest _ ih =>
    intro out
    rw [joined_cons, ← String.append_assoc]
    exact ih (out ++ s)
  | @block _ _ _ body nodes _ _ _ ih =>
    intro out
    rw [← ih out]
    exact renderAllOnto_cons_of_eq (by rw [Node.renderOnto, if_pos rfl]) nodes
  | @body _ _ _ nodes _ _ _ hc _ ih =>
    intro out
    rw [← ih out]
    exact renderAllOnto_cons_of_eq (by rw [renderOnto_conditional, hc]) nodes
  | @otherwise _ _ _ nodes otherwise _ _ hc _ ih =>
    intro out
    rw [← ih out]
    refine renderAllOnto_cons_of_eq ?_ nodes
    rw [renderOnto_conditional, hc]
    cases otherwise with
    | none => rfl
    | some node => exact (renderAllOnto_singleton node out).symm

theorem Takes.renderAll_eq_ok {nodes : List Node} {passed : List (Nat × String)} (h : Takes nodes passed []) :
    renderAll true nodes = .ok (joined passed) := by
  rw [renderAll, h.renderAllOnto_eq, String.empty_append]
  rfl

theorem ComesTo.renderAll_eq_error {nodes condition : List Node} {x : EvalFault} (h : ComesTo nodes condition)
    (hx : evaluate condition = .error x) : renderAll true nodes = .error (.eval x) := by
  obtain ⟨passed, start, body, otherwise, rest, h⟩ := h
  rw [renderAll, h.renderAllOnto_eq, renderAllOnto, renderOnto_conditional, hx]

/-! ## Where a rendering ends -/

/-- A rendering comes to its end, or to a condition that is a fault, with nothing but operands in it. -/
def Concludes (nodes : List Node) : Prop :=
  (∃ passed, Takes nodes passed []) ∨
    ∃ condition x, ComesTo nodes condition ∧ (∀ n ∈ condition, IsOperand n) ∧ evaluate condition = .error x

namespace Concludes

variable {as bs nodes body condition : List Node}

theorem after {ps : List (Nat × String)} (h : Takes as ps bs) (hbs : Concludes bs) : Concludes as := by
  rcases hbs with ⟨qs, hqs⟩ | ⟨condition, x, hcomes, hoperands, hx⟩
  · exact .inl ⟨_, h.trans hqs⟩
  · exact .inr ⟨condition, x, hcomes.after h, hoperands, hx⟩

theorem append (has : Concludes as) (hbs : Concludes bs) : Concludes (as ++ bs) := by
  rcases has with ⟨ps, hps⟩ | ⟨condition, x, hcomes, hoperands, hx⟩
  · exact hbs.after (hps.append bs)
  · exact .inr ⟨condition, x, hcomes.append bs, hoperands, hx⟩

theorem conditional {start : Nat} {otherwise : Option Node} (hcondition : ∀ n ∈ condition, IsOperand n)
    (hbody : Concludes body) (hother : Concludes otherwise.toList) (hrest : Concludes nodes) :
    Concludes (.conditional start condition body otherwise :: nodes) := by
  cases hc : evaluate condition with
  | error x => exact .inr ⟨condition, x, ⟨[], start, body, otherwise, nodes, .refl _⟩, hcondition, hc⟩
  | ok holds =>
    cases holds with
    | true => exact (hbody.append hrest).after (.body hc (.refl _))
    | false => exact (hother.append hrest).after (.otherwise hc (.refl _))

end Concludes

theorem concludes_nil : Concludes [] := .inl ⟨[], .refl []⟩

theorem Writable.concludes {nodes : List Node} (h : Writable nodes) : Concludes nodes := by
  induction h with
  | nil => exact concludes_nil
  | text _ _ _ _ ih => exact ih.after (.text (.refl _))
  | block _ _ _ ihbody ih => exact (ihbody.append ih).after (.block (.refl _))
  | conditional hcondition _ _ ihbody ih => exact .conditional hcondition ihbody concludes_nil ih
  | otherwise hcondition _ _ _ ihbody ihother ih =>
    exact .conditional hcondition ihbody ((ihother.append concludes_nil).after (.block (.refl _))) ih

/-! ## Which faults there are -/

/-- A comparison that stands where a condition needs a value, with nothing wrong before it. -/
inductive Misplaced : List Node → Comparison → Prop
  | alone {start : Nat} {c : Comparison} : Misplaced [.comparison start c] c
  | left {start start' : Nat} {c d : Comparison} {rhs : Node} :
    Misplaced [.comparison start c, .comparison start' d, rhs] c
  | right {start start' : Nat} {c d : Comparison} {lhs : Node} {a : Operand} (hlhs : lhs.HasValue a) :
    Misplaced [lhs, .comparison start' d, .comparison start c] c

theorem Misplaced.evaluate_eq {condition : List Node} {c : Comparison} (h : Misplaced condition c) :
    evaluate condition = .error (.unexpectedNode ("comparison " ++ c.symbol)) := by
  cases h with
  | alone | left => rfl
  | right hlhs => cases hlhs <;> rfl

theorem IsOperand.eq_comparison {n : Node} (h : IsOperand n) (hvalue : ∀ a, ¬n.HasValue a) :
    ∃ start c, n = .comparison start c := by
  cases h with
  | int => exact absurd (.int _ _) (hvalue _)
  | string => exact absurd (.string _ _) (hvalue _)
  | ident => exact absurd (.name _ _) (hvalue _)
  | comparison => exact ⟨_, _, rfl⟩

theorem exists_misplaced {condition : List Node} (hoperands : ∀ n ∈ condition, IsOperand n) {found : String}
    (h : evaluate condition = .error (.unexpectedNode found)) :
    ∃ c, Misplaced condition c ∧ found = "comparison " ++ c.symbol := by
  generalize he : EvalFault.unexpectedNode found = e at h
  cases evaluate_eq_error_iff.1 h with
  | @noValue node hvalue =>
    obtain ⟨start, c, rfl⟩ := (hoperands node List.mem_cons_self).eq_comparison hvalue
    exact ⟨c, .alone, EvalFault.unexpectedNode.inj he⟩
  | @three lhs middle rhs _ hthree =>
    obtain ⟨k, hk, hsound⟩ := hthree
    cases hk with
    | left hvalue =>
      obtain ⟨start', d, rfl⟩ := hsound.exists_comparison (by omega)
      obtain ⟨start, c, rfl⟩ := (hoperands lhs List.mem_cons_self).eq_comparison hvalue
      exact ⟨c, .left, EvalFault.unexpectedNode.inj he⟩
    | right hvalue =>
      obtain ⟨start', d, rfl⟩ := hsound.exists_comparison (by omega)
      obtain ⟨a, ha⟩ := hsound.exists_left (by omega)
      obtain ⟨start, c, rfl⟩ := (hoperands rhs (by simp)).eq_comparison hvalue
      exact ⟨c, .right ha, EvalFault.unexpectedNode.inj he⟩
    | middle | name | incomparable | spelling => cases he
  | empty | name | noTruth | two | joined | tooMany => cases he

theorem unsupported_of_evaluate {condition : List Node} {what : String}
    (h : evaluate condition = .error (.unsupported what)) :
    what ∈ ["identifier resolution", "'not'", "'and'/'or' combination"] := by
  generalize he : EvalFault.unsupported what = e at h
  cases evaluate_eq_error_iff.1 h with
  | name | two | joined => simp [EvalFault.unsupported.inj he]
  | three hthree =>
    obtain ⟨k, hk, -⟩ := hthree
    cases hk with
    | name => simp [EvalFault.unsupported.inj he]
    | middle | left | right | incomparable | spelling => cases he
  | empty | noValue | noTruth | tooMany => cases he

theorem evaluate_ne_resolving (condition : List Node) (s : String) :
    evaluate condition ≠ .error (.unsupported ("resolving identifier '" ++ s ++ "'")) := by
  intro h
  have hstarts : ("resolving identifier '" ++ s ++ "'").toList.head? = some 'r' := by simp
  have hothers : ∀ what ∈ ["identifier resolution", "'not'", "'and'/'or' combination"], what.toList.head? ≠ some 'r' := by
    decide
  exact hothers _ (unsupported_of_evaluate h) hstarts

/-! ## What comes of what is read -/

namespace Writable

variable {nodes : List Node} (h : Writable nodes)
include h

theorem fault_of_renderAll {f : Fault} (hf : renderAll true nodes = .error f) :
    ∃ condition x, ComesTo nodes condition ∧ (∀ n ∈ condition, IsOperand n) ∧ evaluate condition = .error x ∧
      f = .eval x := by
  rcases h.concludes with ⟨passed, hpassed⟩ | ⟨condition, x, hcomes, hoperands, hx⟩
  · cases hf.symm.trans hpassed.renderAll_eq_ok
  · cases hf.symm.trans (hcomes.renderAll_eq_error hx)
    exact ⟨condition, x, hcomes, hoperands, hx, rfl⟩

theorem renderAll_eq_error_iff {f : Fault} : renderAll true nodes = .error f ↔
    ∃ condition x, ComesTo nodes condition ∧ evaluate condition = .error x ∧ f = .eval x := by
  constructor
  · intro hf
    obtain ⟨condition, x, hcomes, -, hx, hf⟩ := h.fault_of_renderAll hf
    exact ⟨condition, x, hcomes, hx, hf⟩
  · rintro ⟨condition, x, hcomes, hx, rfl⟩
    exact hcomes.renderAll_eq_error hx

theorem renderAll_eq_ok_iff {out : String} : renderAll true nodes = .ok out ↔
    ∃ passed, Takes nodes passed [] ∧ out = joined passed := by
  constructor
  · intro hout
    rcases h.concludes with ⟨passed, hpassed⟩ | ⟨condition, x, hcomes, -, hx⟩
    · cases hout.symm.trans hpassed.renderAll_eq_ok
      exact ⟨passed, hpassed, rfl⟩
    · cases hout.symm.trans (hcomes.renderAll_eq_error hx)
  · rintro ⟨passed, hpassed, rfl⟩
    exact hpassed.renderAll_eq_ok

theorem renderAll_eq_unexpected_iff {found : String} : renderAll true nodes = .error (.eval (.unexpectedNode found)) ↔
    ∃ condition c, ComesTo nodes condition ∧ Misplaced condition c ∧ found = "comparison " ++ c.symbol := by
  constructor
  · intro hfound
    obtain ⟨condition, x, hcomes, hoperands, hx, hf⟩ := h.fault_of_renderAll hfound
    obtain rfl := Fault.eval.inj hf
    obtain ⟨c, hc, rfl⟩ := exists_misplaced hoperands hx
    exact ⟨condition, c, hcomes, hc, rfl⟩
  · rintro ⟨condition, c, hcomes, hc, rfl⟩
    exact hcomes.renderAll_eq_error hc.evaluate_eq

end Writable

/-- **A rendering fails only at a condition that it comes to.**  What is read from a source has the shape that can be
written out again.  So with leave a rendering takes branches in order, comes out as the texts that it passes, which are
texts of the template in the order of the source, and ends in a fault exactly where it comes to a condition that is one.
A node is unexpected only if it is a comparison that stands in place of a value, and there is no other fault than those
of conditions: no name to resolve, no leave that is missing, no template that was not read. -/
theorem Draft.course_of_parse {d : Draft} (hd : d.tags = .empty) {source : String}
    (h : (d.parse source).2.transcript.fault = none) :
    let root := (d.parse source).1.root
    let outcome := (d.parse source).1.render true
    Writable root ∧
    (∀ f, outcome = .error f ↔ ∃ condition x, ComesTo root condition ∧ evaluate condition = .error x ∧ f = .eval x) ∧
    (∀ out, outcome = .ok out ↔ ∃ passed, Takes root passed [] ∧ out = joined passed) ∧
    (∀ passed rest, Takes root passed rest →
      passed.Sublist (textsOf root) ∧ passed.Pairwise (fun a b => a.1 < b.1)) ∧
    (∀ found, outcome = .error (.eval (.unexpectedNode found)) ↔
      ∃ condition c, ComesTo root condition ∧ Misplaced condition c ∧ found = "comparison " ++ c.symbol) ∧
    ∀ f, outcome = .error f → f ≠ .cancelled ∧ (∀ name, f ≠ .unparsed name) ∧
      ∀ s, f ≠ .eval (.unsupported ("resolving identifier '" ++ s ++ "'")) := by
  intro root outcome
  have hwritable : Writable root := writable_of_parse hd h
  have hrender : outcome = renderAll true root := render_parseSupply h true
  rw [hrender]
  refine ⟨hwritable, fun _ => hwritable.renderAll_eq_error_iff, fun _ => hwritable.renderAll_eq_ok_iff,
    fun passed rest htakes => ?_, fun _ => hwritable.renderAll_eq_unexpected_iff, fun f hf => ?_⟩
  · have hsub : passed.Sublist (textsOf root) := (List.sublist_append_left _ _).trans htakes.sublist_textsOf
    exact ⟨hsub, (pairwise_textsOf hd h).sublist hsub⟩
  · obtain ⟨condition, x, -, hx, rfl⟩ := hwritable.renderAll_eq_error_iff.1 hf
    refine ⟨nofun, nofun, fun s hs => evaluate_ne_resolving condition s ?_⟩
    rw [hx, Fault.eval.inj hs]

theorem Draft.course_of_chained : ((Draft.fresh "t" .empty).parse chained).2.transcript.fault = none ∧
    ((Draft.fresh "t" .empty).parse chained).1.render true = .ok "b" := by
  obtain ⟨haccepts, hroot⟩ := accepts_chained
  have htakes : Takes ((Draft.fresh "t" .empty).parse chained).1.root [(23, "b")] [] := by
    rw [hroot]
    exact .otherwise rfl (.block (.body rfl (.text (.refl []))))
  obtain ⟨-, -, hok, -⟩ := course_of_parse (d := .fresh "t" .empty) rfl haccepts
  exact ⟨haccepts, (hok "b").2 ⟨_, htakes, rfl⟩⟩

open Layout in
def bareComparison : List (Item []) :=
  [.tag (.of ⟨.tagStart, "\x7b%", ⟨0, 1, 1⟩⟩)
    (.conditional (.of ⟨.ifWord, "if", ⟨3, 1, 4⟩⟩)
      ⟨[⟨⟨.comparison, "==", ⟨6, 1, 7⟩⟩, .comparison 6 .equal, .comparison _ rfl .equal rfl⟩],
        .of ⟨.tagEnd, "%\x7d", ⟨9, 1, 10⟩⟩⟩
      [.text (.of ⟨.text, "x", ⟨11, 1, 12⟩⟩)]
      (.close ⟨.of ⟨.tagStart, "\x7b%", ⟨12, 1, 13⟩⟩, ⟨⟨.identifier, "endif", ⟨15, 1, 16⟩⟩, by decide⟩,
        (plainCloser "endif").skipped,
        some (.of ⟨.tagEnd, "%\x7d", ⟨21, 1, 22⟩⟩)⟩))]

open Layout in
/-- **A template that is accepted can come out as an unexpected node**, if a comparison is all that a condition is. -/
theorem Draft.bareComparison_unexpected :
    ((Draft.fresh "t" .empty).parse "\x7b% if == %\x7dx\x7b% endif %\x7d").2.transcript.fault = none ∧
      ((Draft.fresh "t" .empty).parse "\x7b% if == %\x7dx\x7b% endif %\x7d").1.render true =
        .error (.eval (.unexpectedNode "comparison ==")) := by
  have hscans : Scans .text .origin "\x7b% if == %\x7dx\x7b% endif %\x7d".toList
      (tokensOf bareComparison ++ [⟨.endOfInput, "", ⟨23, 1, 24⟩⟩]) :=
    .opening .tag <| .blank rfl <| .lexeme "if".toList rfl <| .blank rfl <| .lexeme "==".toList rfl <| .blank rfl <|
    .closing .tag <| .run ['x'] rfl <|
    .opening .tag <| .blank rfl <| .lexeme "endif".toList rfl <| .blank rfl <| .closing .tag <| .done _
  have hlayout : Derives (tokensOf bareComparison) bareComparison :=
    ⟨rfl, ⟨⟨trivial, trivial⟩, fun h => by cases h⟩, trivial⟩
  obtain ⟨hfault, hroot⟩ := parse_of_layout (d := .fresh "t" .empty) rfl hscans.eq_scan.symm rfl (by decide) hlayout
  refine ⟨hfault, ?_⟩
  rw [parse, render_parseSupply hfault, ← parse, hroot]
  rfl

end Stencil
