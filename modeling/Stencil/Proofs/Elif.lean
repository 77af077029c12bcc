import Stencil.Proofs.Acceptance
import Stencil.Proofs.Spots
/-!
# Conditionals with further conditions

A conditional may go on with further conditions, one `elif` after the other, and be closed once.  The same can be said
without `elif`: each becomes an `else` with a conditional of its own in it, and each of these conditionals is closed for
itself.  Wherever the one stands in a template the other may stand, and the template stands for the same nodes; what an
`elif` stands for is one group, with one conditional in it (`ladder`).
-/
namespace Stencil
namespace Layout

/-! ## The two spellings -/

/-- A further condition and its body, with the tokens that it takes to say it with `elif`, and those to say it with `else`
and a conditional. -/
structure Arm where
  condition : Condition
  body : List (Item [])
  complete : Complete body
  opening : TokenOf .tagStart
  elifWord : TokenOf .elifWord
  elseOpening : TokenOf .tagStart
  elseWord : TokenOf .elseWord
  elseClosing : TokenOf .tagEnd
  ifOpening : TokenOf .tagStart
  ifWord : TokenOf .ifWord
  /-- What closes the conditional in the `else`.  Another closer comes behind it, so it has its end. -/
  closer : Closer "endif"
  closes : closer.closing ≠ none

structure Otherwise where
  opening : TokenOf .tagStart
  keyword : TokenOf .elseWord
  closing : TokenOf .tagEnd
  body : List (Item [])
  complete : Complete body

structure Chain where
  opening : TokenOf .tagStart
  keyword : TokenOf .ifWord
  condition : Condition
  body : List (Item [])
  complete : Complete body
  arms : List Arm
  otherwise : Option Otherwise
  closer : Closer "endif"

/-! ### As tokens -/

def Otherwise.tokens (o : Otherwise) : List Token := o.opening.1 :: o.keyword.1 :: o.closing.1 :: tokensOf o.body

def Arm.elifTokens (a : Arm) : List Token := a.opening.1 :: a.elifWord.1 :: (a.condition.tokens ++ tokensOf a.body)

def Arm.elseIfTokens (a : Arm) : List Token :=
  a.elseOpening.1 :: a.elseWord.1 :: a.elseClosing.1 :: a.ifOpening.1 :: a.ifWord.1 ::
    (a.condition.tokens ++ tokensOf a.body)

namespace Chain

variable (c : Chain)

def head : List Token := c.opening.1 :: c.keyword.1 :: (c.condition.tokens ++ tokensOf c.body)

def last : List Token := c.otherwise.toList.flatMap (·.tokens)

/-- The chain with `elif`, closed once. -/
def elifTokens : List Token := c.head ++ (c.arms.flatMap (·.elifTokens) ++ (c.last ++ c.closer.tokens))

/-- The chain with a conditional in each `else`, closed once more for each of them. -/
def elseIfTokens : List Token :=
  c.head ++ (c.arms.flatMap (·.elseIfTokens) ++
    (c.last ++ (c.arms.reverse.flatMap (·.closer.tokens) ++ c.closer.tokens)))

end Chain

/-! ### As layouts -/

def lastEnding : Option Otherwise → Closer "endif" → Ending []
  | none, closer => .close closer
  | some o, closer => .otherwise o.opening o.keyword o.closing o.body closer

def elifs : List Arm → Option Otherwise → Closer "endif" → Ending []
  | [], o, closer => lastEnding o closer
  | a :: as, o, closer => .another a.opening a.elifWord a.condition a.body (elifs as o closer)

def elseIfs : List Arm → Option Otherwise → Closer "endif" → Ending []
  | [], o, closer => lastEnding o closer
  | a :: as, o, closer =>
    .otherwise a.elseOpening a.elseWord a.elseClosing
      [.tag a.ifOpening (.conditional a.ifWord a.condition a.body (elseIfs as o a.closer))] closer

namespace Chain

variable (c : Chain)

def withElif : Item [] :=
  .tag c.opening (.conditional c.keyword c.condition c.body (elifs c.arms c.otherwise c.closer))

def withElseIf : Item [] :=
  .tag c.opening (.conditional c.keyword c.condition c.body (elseIfs c.arms c.otherwise c.closer))

end Chain

theorem tokens_lastEnding (o : Option Otherwise) (closer : Closer "endif") :
    (lastEnding o closer).tokens = o.toList.flatMap (·.tokens) ++ closer.tokens := by
  cases o <;> simp [lastEnding, Ending.tokens, Otherwise.tokens]

theorem tokens_elifs (o : Option Otherwise) (closer : Closer "endif") : ∀ as : List Arm,
    (elifs as o closer).tokens = as.flatMap (·.elifTokens) ++ (o.toList.flatMap (·.tokens) ++ closer.tokens)
  | [] => tokens_lastEnding o closer
  | a :: as => by simp [elifs, Ending.tokens, tokens_elifs o closer as, Arm.elifTokens]

theorem tokens_elseIfs (o : Option Otherwise) : ∀ (as : List Arm) (closer : Closer "endif"),
    (elseIfs as o closer).tokens = as.flatMap (·.elseIfTokens) ++
      (o.toList.flatMap (·.tokens) ++ (as.reverse.flatMap (·.closer.tokens) ++ closer.tokens))
  | [], closer => tokens_lastEnding o closer
  | a :: as, closer => by
    simp [elseIfs, Ending.tokens, tokensOf, Item.tokens, Tag.tokens, tokens_elseIfs o as a.closer, Arm.elseIfTokens]

theorem Chain.tokens_withElif (c : Chain) : tokensOf [c.withElif] = c.elifTokens := by
  simp [withElif, elifTokens, head, last, tokensOf, Item.tokens, Tag.tokens, tokens_elifs]

theorem Chain.tokens_withElseIf (c : Chain) : tokensOf [c.withElseIf] = c.elseIfTokens := by
  simp [withElseIf, elseIfTokens, head, last, tokensOf, Item.tokens, Tag.tokens, tokens_elseIfs]

/-! ## Both may stand where one may -/

variable {rest : List Token} {closer : Closer "endif"}

theorem fits_lastEnding (h : closer.Fits rest) : ∀ o : Option Otherwise, (lastEnding o closer).Fits rest
  | none => h
  | some o => ⟨o.complete _, h⟩

theorem fits_elifs (o : Option Otherwise) (h : closer.Fits rest) : ∀ as : List Arm, (elifs as o closer).Fits rest
  | [] => fits_lastEnding h o
  | a :: as => ⟨a.complete _, fits_elifs o h as⟩

theorem fits_elseIfs (o : Option Otherwise) : ∀ (as : List Arm) {closer : Closer "endif"} {rest : List Token},
    closer.Fits rest → (elseIfs as o closer).Fits rest
  | [], _, _, h => fits_lastEnding h o
  | a :: as, _, _, h => ⟨⟨⟨a.complete _, fits_elseIfs o as fun hnone => absurd hnone a.closes⟩, trivial⟩, h⟩

theorem Chain.fits_withElif {c : Chain} (h : c.closer.Fits rest) : FitsAll [c.withElif] rest :=
  ⟨⟨c.complete _, fits_elifs c.otherwise h c.arms⟩, trivial⟩

theorem Chain.fits_withElseIf {c : Chain} (h : c.closer.Fits rest) : FitsAll [c.withElseIf] rest :=
  ⟨⟨c.complete _, fits_elseIfs c.otherwise c.arms h⟩, trivial⟩

/-! ## Both stand for the same nodes -/

open Reading (SameNodes SameNode sameNodes_cons sameNode_block sameNode_conditional)

/-- What further conditions stand for: each is a group with one conditional in it, which has the next one under it. -/
def ladder : List Arm → Option Otherwise → Option Node
  | [], o => o.map fun o => .group o.keyword.1.place.offset (nodesOf o.body)
  | a :: as, o =>
    some (.group a.elifWord.1.place.offset
      [.conditional a.elifWord.1.place.offset a.condition.nodes (nodesOf a.body) (ladder as o)])

theorem node_lastEnding (closer : Closer "endif") : ∀ o : Option Otherwise, (lastEnding o closer).node = ladder [] o
  | none => rfl
  | some _ => rfl

theorem node_elifs (o : Option Otherwise) (closer : Closer "endif") : ∀ as : List Arm, (elifs as o closer).node = ladder as o
  | [] => node_lastEnding closer o
  | a :: as => by rw [elifs, Ending.node, node_elifs o closer as, ladder]

theorem sameNode_elseIfs (o : Option Otherwise) : ∀ (as : List Arm) (closer : Closer "endif"),
    (elseIfs as o closer).node.map Node.unplaced = (ladder as o).map Node.unplaced
  | [], closer => by rw [elseIfs, node_lastEnding]
  | a :: as, _ =>
    congrArg some (sameNode_block _ _ _
      (sameNodes_cons (sameNode_conditional _ _ rfl ⟨rfl, sameNode_elseIfs o as a.closer⟩) rfl))

theorem Chain.node_withElif (c : Chain) : c.withElif.node =
    .conditional c.keyword.1.place.offset c.condition.nodes (nodesOf c.body) (ladder c.arms c.otherwise) := by
  rw [withElif, Item.node, Tag.node, node_elifs]

theorem Chain.sameNodes (c : Chain) : SameNodes (nodesOf [c.withElif]) (nodesOf [c.withElseIf]) := by
  refine sameNodes_cons (sameNode_conditional _ _ rfl ⟨rfl, ?_⟩) rfl
  rw [node_elifs, sameNode_elseIfs]

end Layout

/-! ## Drafts -/

open Layout in
/-- **An `elif` is an `else` with a conditional in it.**  At a spot of a template a chain of conditions may stand in either
spelling, the second with its tokens in any places; the draft accepts both, and the two roots are the same but for their
places.  **In the first each `elif` is one group with one conditional in it.** -/
theorem Draft.elif_eq_elseIf {d : Draft} (hd : d.tags = .empty) {s : Spot} (hs : s.Open) {c : Chain}
    (hc : c.closer.Fits s.back) {e f : Token} (he : e.kind = .endOfInput) (hf : f.kind = .endOfInput)
    (hplain : ∀ t ∈ s.front ++ (c.elifTokens ++ s.back), t.kind ≠ .endOfInput ∧ t.kind ≠ .error)
    (hplain' : ∀ t ∈ s.front ++ (c.elseIfTokens ++ s.back), t.kind ≠ .endOfInput ∧ t.kind ≠ .error) {vs : List Token}
    (hvs : List.Forall₂ (Token.Alike fun _ _ => True) (s.front ++ (c.elseIfTokens ++ s.back)) vs) :
    let flat := d.parseTokens (s.front ++ (c.elifTokens ++ s.back) ++ [e])
    let nested := d.parseTokens (vs ++ [f])
    flat.2.transcript.fault = none ∧ nested.2.transcript.fault = none ∧
      unplacedAll flat.1.root = unplacedAll nested.1.root ∧ flat.1.root = nodesOf (s.fill [c.withElif]) ∧
        c.withElif.node =
          .conditional c.keyword.1.place.offset c.condition.nodes (nodesOf c.body) (ladder c.arms c.otherwise) := by
  intro flat nested
  have hflat := hs.derives (Chain.fits_withElif hc)
  have hnested := hs.derives (Chain.fits_withElseIf hc)
  rw [c.tokens_withElif] at hflat
  rw [c.tokens_withElseIf] at hnested
  obtain ⟨hfault, hroot⟩ := transcript_of_layout (serves_nil .empty) he hplain hflat
  obtain ⟨hfault', hroot'⟩ := transcript_of_layout (serves_nil .empty) hf hplain' hnested
  have hmoved := List.rel_append hvs (.cons ⟨rfl, rfl, trivial⟩ .nil : List.Forall₂ (Token.Alike _) [f] [f])
  obtain ⟨hsame, ⟨-, hnone⟩ | ⟨_, -, h, -⟩⟩ := transcript_alike hmoved trivial
  · simp only [flat, nested, parseTokens, transcript_parseSupply, root_parseSupply, Supply.tokens_silent, hd]
    refine ⟨hfault, hnone, ?_, hroot, c.node_withElif⟩
    rw [hroot, ← hsame, hroot']
    exact s.sameNodes_fill c.sameNodes
  · cases hfault'.symm.trans h

namespace Layout

def bareArm : Arm where
  condition := ⟨[⟨⟨.identifier, "x", .origin⟩, .ident 0 "x", .name _ rfl⟩], .of ⟨.tagEnd, "%\x7d", .origin⟩⟩
  body := []
  complete _ := trivial
  opening := .of ⟨.tagStart, "\x7b%", .origin⟩
  elifWord := .of ⟨.elifWord, "elif", .origin⟩
  elseOpening := .of ⟨.tagStart, "\x7b%", .origin⟩
  elseWord := .of ⟨.elseWord, "else", .origin⟩
  elseClosing := .of ⟨.tagEnd, "%\x7d", .origin⟩
  ifOpening := .of ⟨.tagStart, "\x7b%", .origin⟩
  ifWord := .of ⟨.ifWord, "if", .origin⟩
  closer := plainCloser "endif"
  closes := by simp [plainCloser]

def shortChain : Chain where
  opening := .of ⟨.tagStart, "\x7b%", .origin⟩
  keyword := .of ⟨.ifWord, "if", .origin⟩
  condition := ⟨[], .of ⟨.tagEnd, "%\x7d", .origin⟩⟩
  body := []
  complete _ := trivial
  arms := [bareArm]
  otherwise := some
    { opening := .of ⟨.tagStart, "\x7b%", .origin⟩
      keyword := .of ⟨.elseWord, "else", .origin⟩
      closing := .of ⟨.tagEnd, "%\x7d", .origin⟩
      body := [.text (.of ⟨.text, "a", .origin⟩)]
      complete := fun _ => ⟨trivial, trivial⟩ }
  closer := plainCloser "endif"

def inBlock : Spot :=
  .within [] (.of ⟨.tagStart, "\x7b%", .origin⟩)
    (.block (.of ⟨.blockWord, "block", .origin⟩) (.of ⟨.identifier, "b", .origin⟩) (.of ⟨.tagEnd, "%\x7d", .origin⟩)
      (plainCloser "endblock")) (.here [] []) []

theorem open_inBlock : inBlock.Open :=
  ⟨.of ⟨.text, "", .origin⟩, rfl, ⟨⟨⟨trivial, trivial⟩, fun h => by cases h⟩, trivial⟩⟩

end Layout

open Layout in
theorem Draft.elif_eq_elseIf_inBlock :
    let flat := (Draft.fresh "t" .empty).parseTokens
      (inBlock.front ++ (shortChain.elifTokens ++ inBlock.back) ++ [⟨.endOfInput, "", .origin⟩])
    let nested := (Draft.fresh "t" .empty).parseTokens
      (inBlock.front ++ (shortChain.elseIfTokens ++ inBlock.back) ++ [⟨.endOfInput, "", .origin⟩])
    flat.2.transcript.fault = none ∧ nested.2.transcript.fault = none ∧
      unplacedAll flat.1.root = unplacedAll nested.1.root ∧
        flat.1.root = [.block 0 "b" [] [.conditional 0 [] [] (some (.group 0
          [.conditional 0 [.ident 0 "x"] [] (some (.group 0 [.text 0 "a"]))]))]] := by
  have h := elif_eq_elseIf (d := .fresh "t" .empty) rfl open_inBlock (c := shortChain) (fun h => by cases h)
    (e := ⟨.endOfInput, "", .origin⟩) (f := ⟨.endOfInput, "", .origin⟩) rfl rfl (by decide) (by decide)
    (List.forall₂_same.2 fun _ _ => ⟨rfl, rfl, trivial⟩)
  exact ⟨h.1, h.2.1, h.2.2.1, h.2.2.2.1⟩

end Stencil
