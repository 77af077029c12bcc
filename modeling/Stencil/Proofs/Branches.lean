import Stencil.Proofs.Acceptance
import Stencil.Proofs.Spots
/-!
# The branch that is taken

A conditional with further conditions is read as conditionals one inside the other, and comes out as one of its branches:
the conditions are tried in order, and the first that is anything but false decides.  If it is a fault, that fault is all
that comes out; if it holds, its body does; and if there is none, what is done otherwise (`Decides`).  Nothing else in the
conditional is looked at, so nothing else matters.
-/
namespace Stencil

/-! ## Branches -/

structure Branch where
  condition : List Node
  body : List Node

def AllFalse (branches : List Branch) : Prop := ∀ b ∈ branches, evaluate b.condition = .ok false

/-- What comes of branches that are tried in order. -/
structure Decides (branches : List Branch) (fallback : Option (List Node)) (result : Except Fault String) : Prop where
  fault : ∀ {skipped b later x}, branches = skipped ++ b :: later → AllFalse skipped → evaluate b.condition = .error x →
    result = .error (.eval x)
  body : ∀ {skipped b later}, branches = skipped ++ b :: later → AllFalse skipped → evaluate b.condition = .ok true →
    result = renderAll true b.body
  otherwise : ∀ {nodes}, AllFalse branches → fallback = some nodes → result = renderAll true nodes
  nothing : AllFalse branches → fallback = none → result = .ok ""

def tryInOrder (fallback : Option (List Node)) : List Branch → Except Fault String
  | [] => renderAll true (fallback.getD [])
  | b :: bs =>
    match evaluate b.condition with
    | .error x => .error (.eval x)
    | .ok true => renderAll true b.body
    | .ok false => tryInOrder fallback bs

theorem tryInOrder_of_allFalse {fallback : Option (List Node)} : ∀ {skipped : List Branch} (later : List Branch),
    AllFalse skipped →
    tryInOrder fallback (skipped ++ later) = tryInOrder fallback later
  | [], _, _ => rfl
  | b :: bs, later, h => by
    obtain ⟨hb, hbs⟩ := List.forall_mem_cons.1 h
    rw [List.cons_append, tryInOrder, hb]
    exact tryInOrder_of_allFalse later hbs

theorem decides_tryInOrder (fallback : Option (List Node)) (branches : List Branch) :
    Decides branches fallback (tryInOrder fallback branches) := by
  have hall : AllFalse branches → tryInOrder fallback branches = renderAll true (fallback.getD []) := by
    intro h
    rw [← List.append_nil branches, tryInOrder_of_allFalse [] h]
    rfl
  constructor
  case fault =>
    rintro skipped b later x rfl hskipped hb
    rw [tryInOrder_of_allFalse _ hskipped, tryInOrder, hb]
  case body =>
    rintro skipped b later rfl hskipped hb
    rw [tryInOrder_of_allFalse _ hskipped, tryInOrder, hb]
  case otherwise =>
    rintro nodes h rfl
    exact hall h
  case nothing =>
    rintro h rfl
    exact hall h

/-- What comes of branches is told by the first whose condition is anything but false. -/
theorem Decides.eq_of_branch {branches branches' skipped skipped' later later' : List Branch} {b : Branch}
    {fallback fallback' : Option (List Node)} {result result' : Except Fault String}
    (h : Decides branches fallback result) (h' : Decides branches' fallback' result') (hb : evaluate b.condition ≠ .ok false)
    (hbranches : branches = skipped ++ b :: later) (hskipped : AllFalse skipped)
    (hbranches' : branches' = skipped' ++ b :: later') (hskipped' : AllFalse skipped') : result' = result := by
  cases hc : evaluate b.condition with
  | error x => rw [h.fault hbranches hskipped hc, h'.fault hbranches' hskipped' hc]
  | ok holds =>
    cases holds with
    | false => exact absurd hc hb
    | true => rw [h.body hbranches hskipped hc, h'.body hbranches' hskipped' hc]

/-! ## Rendering -/

theorem renderAllOnto_eq_map (nodes : List Node) (out : String) :
    renderAllOnto true out nodes = (renderAll true nodes).map (out ++ ·) := by
  have h := renderAllOnto_append true out nodes ""
  rwa [String.append_empty] at h

theorem renderAllOnto_singleton (node : Node) (out : String) :
    renderAllOnto true out [node] = node.renderOnto true out := by
  rw [renderAllOnto]
  cases node.renderOnto true out <;> rfl

theorem renderOnto_group (start : Nat) (node : Node) (out : String) :
    (Node.group start [node]).renderOnto true out = node.renderOnto true out := by
  rw [Node.group, Node.renderOnto, if_pos rfl]
  exact renderAllOnto_singleton node out

theorem renderOnto_conditional (start : Nat) (condition body : List Node) (otherwise : Option Node) (out : String) :
    (Node.conditional start condition body otherwise).renderOnto true out =
      match evaluate condition with
      | .error x => .error (.eval x)
      | .ok true => renderAllOnto true out body
      | .ok false =>
        match otherwise with
        | some node => node.renderOnto true out
        | none => .ok out := by
  cases otherwise with
  | none | some =>
    rw [Node.renderOnto]
    exact if_pos rfl

namespace Layout

def Ending.branches : Ending [] → List Branch
  | .close _ => []
  | .otherwise _ _ _ _ _ => []
  | .another _ _ condition body ending => ⟨condition.nodes, nodesOf body⟩ :: ending.branches

def Ending.fallback : Ending [] → Option (List Node)
  | .close _ => none
  | .otherwise _ _ _ body _ => some (nodesOf body)
  | .another _ _ _ _ ending => ending.fallback

/-- A conditional comes out as the branch that is taken, behind what is there. -/
theorem renderOnto_branches (start : Nat) (condition body : List Node) (ending : Ending []) (out : String) :
    (Node.conditional start condition body ending.node).renderOnto true out =
      (tryInOrder ending.fallback (⟨condition, body⟩ :: ending.branches)).map (out ++ ·) := by
  rw [renderOnto_conditional, tryInOrder]
  cases hc : evaluate condition with
  | error x => rfl
  | ok holds =>
    cases holds with
    | true => exact renderAllOnto_eq_map body out
    | false =>
      cases ending with
      | close closer =>
        show Except.ok out = .ok (out ++ "")
        rw [String.append_empty]
      | otherwise opening keyword closing inner closer => 
        show (Node.group _ _).renderOnto true out = _
        rw [Node.group, Node.renderOnto, if_pos rfl]
        exact renderAllOnto_eq_map _ out
      | another opening keyword condition' body' ending =>
        show (Node.group _ _).renderOnto true out = _
        rw [renderOnto_group]
        exact renderOnto_branches _ _ _ ending out

def branches (condition : Condition) (body : List (Item [])) (ending : Ending []) : List Branch :=
  ⟨condition.nodes, nodesOf body⟩ :: ending.branches

end Layout

/-! ## Drafts -/

theorem Draft.render_parseSupply {d : Draft} {supply : Supply} (h : (d.parseSupply supply).2.transcript.fault = none)
    (leave : Bool) : (d.parseSupply supply).1.render leave = renderAll leave (d.parseSupply supply).1.root := by
  have hparsed : (d.parseSupply supply).1.parsed = true := by
    rw [parsed_parseSupply, ← transcript_parseSupply, h]
    rfl
  rw [render, nodes, if_pos hparsed]
  rfl

open Layout in
/-- **A conditional comes out as its first branch whose condition is anything but false.**  In a template that is accepted,
wherever the conditional stands, one thing comes of its branches (`Decides`); it comes out behind what is there, and of a
template that is nothing but the conditional it is all that comes out.  **Nothing else in it matters**: whatever comes
to the same branch, behind conditions that are false, comes out the same. -/
theorem Draft.render_branches {d : Draft} (hd : d.tags = .empty) {supply : Supply} {us : List Token} {e : Token}
    (htokens : supply.tokens = us ++ [e]) (he : e.kind = .endOfInput)
    (hus : ∀ t ∈ us, t.kind ≠ .endOfInput ∧ t.kind ≠ .error) {s : Spot} {opening : TokenOf .tagStart}
    {keyword : TokenOf .ifWord} {condition : Condition} {body : List (Item [])} {ending : Layout.Ending []}
    (h : Derives us (s.fill [.tag opening (.conditional keyword condition body ending)])) :
    let node := (Tag.conditional keyword condition body ending).node
    let read := d.parseSupply supply
    ∃ result, Decides (branches condition body ending) ending.fallback result ∧
      read.2.transcript.fault = none ∧
      read.1.root = nodesOf (s.fill [.tag opening (.conditional keyword condition body ending)]) ∧
      (∀ out, node.renderOnto true out = result.map (out ++ ·)) ∧
      (s = .here [] [] → read.1.render true = result) ∧
      ∀ {keyword' condition' body' ending' b skipped skipped' later later'}, evaluate b.condition ≠ .ok false →
        branches condition body ending = skipped ++ b :: later → AllFalse skipped →
        branches condition' body' ending' = skipped' ++ b :: later' → AllFalse skipped' →
        ∀ out, (Tag.conditional keyword' condition' body' ending').node.renderOnto true out = node.renderOnto true out := by
  intro node read
  have hout : ∀ keyword condition body ending out, (Tag.conditional keyword condition body ending).node.renderOnto true out =
      (tryInOrder ending.fallback (branches condition body ending)).map (out ++ ·) :=
    fun _ _ _ _ => renderOnto_branches _ _ _ _
  obtain ⟨hfault, hroot⟩ := transcript_of_layout (serves_nil .empty) he hus h
  rw [← htokens, ← hd] at hfault hroot
  refine ⟨_, decides_tryInOrder _ _, hfault, hroot, hout keyword condition body ending, ?_, ?_⟩
  · rintro rfl
    rw [render_parseSupply hfault, show read.1.root = [node] from hroot, renderAll, renderAllOnto, hout]
    cases tryInOrder ending.fallback (branches condition body ending) with
    | error x => rfl
    | ok out => exact congrArg Except.ok String.empty_append
  · intro keyword' condition' body' ending' b skipped skipped' later later' hb hbranches hskipped hbranches' hskipped' out
    rw [hout, hout, (decides_tryInOrder _ _).eq_of_branch (decides_tryInOrder _ _) hb hbranches hskipped hbranches' hskipped']

namespace Layout

def numberCondition (text : String) (n : Int64) (h : WritesWord text n) : Condition :=
  ⟨[⟨⟨.number, text, .origin⟩, .int 0 n, .number _ rfl n h⟩], .of ⟨.tagEnd, "%\x7d", .origin⟩⟩

def threeWays : List (Item []) :=
  [.tag (.of ⟨.tagStart, "\x7b%", .origin⟩)
    (.conditional (.of ⟨.ifWord, "if", .origin⟩) (numberCondition "0" 0 writesWord_zero)
      [.text (.of ⟨.text, "a", .origin⟩)]
      (.another (.of ⟨.tagStart, "\x7b%", .origin⟩) (.of ⟨.elifWord, "elif", .origin⟩)
        (numberCondition "+1" 1 writesWord_plusOne) [.text (.of ⟨.text, "b", .origin⟩)]
        (.another (.of ⟨.tagStart, "\x7b%", .origin⟩) (.of ⟨.elifWord, "elif", .origin⟩)
          ⟨[], .of ⟨.tagEnd, "%\x7d", .origin⟩⟩ [.text (.of ⟨.text, "c", .origin⟩)] (.close (plainCloser "endif")))))]

end Layout

open Layout in
theorem Draft.render_threeWays :
    Derives (tokensOf threeWays) ((Spot.here [] []).fill threeWays) ∧
      ((Draft.fresh "t" .empty).parseTokens (tokensOf threeWays ++ [⟨.endOfInput, "", .origin⟩])).1.render true = .ok "b" := by
  have hlayout : Derives (tokensOf threeWays) ((Spot.here [] []).fill threeWays) :=
    ⟨rfl, ⟨⟨trivial, trivial⟩, ⟨trivial, trivial⟩, ⟨trivial, trivial⟩, fun h => by cases h⟩, trivial⟩
  have htokens := Supply.tokens_silent (tokensOf threeWays ++ [⟨.endOfInput, "", .origin⟩])
  have hfirst : AllFalse [⟨[.int 0 0], [.text 0 "a"]⟩] := List.forall_mem_singleton.2 rfl
  obtain ⟨result, hdecides, -, -, -, hrender, -⟩ :=
    render_branches (d := .fresh "t" .empty) rfl htokens rfl (by decide) hlayout
  have hsecond := hdecides.body rfl hfirst rfl
  exact ⟨hlayout, (hrender rfl).trans hsecond⟩

end Stencil
