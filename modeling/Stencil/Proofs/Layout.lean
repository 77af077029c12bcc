import Stencil.Node
import Stencil.Proofs.Decimal
import Stencil.Text.Literal
import Stencil.Token
/-!
# Layouts

The grammar of templates, apart from any reading of it.  A layout is a derivation: it holds the tokens it is made of and
cannot be built of others, so the tokens it spells and the nodes it stands for are two plain functions.

    item      = text | '{%' tag
    tag       = 'block' identifier '%}' item* closer(endblock)
              | 'if' part* '%}' item* ending
              | name skipped '%}' item* closer(end name)
    ending    = closer(endif)
              | '{%' 'else' '%}' item* closer(endif)
              | '{%' 'elif' part* '%}' item* ending
    closer(w) = '{%' w skipped '%}'

The third kind of tag is there for `names` of one's own that enclose a body; without names there is none.  What is
skipped are any tokens but '%}'.  A closer may do without its '%}' where nothing at all comes after it, and whether a
layout keeps to that is the one thing that depends on what comes after it (`Fits`).
-/
namespace Stencil
namespace Layout

/-! ## The parts of a condition -/

/-- What a token stands for in a condition. -/
inductive Stands : Token → Node → Prop
  | string (t : Token) (h : t.kind = .string) : Stands t (.string t.place.offset (literalValue t.text))
  | number (t : Token) (h : t.kind = .number) (n : Int64) (hn : WritesWord t.text n) :
    Stands t (.int t.place.offset n)
  | comparison (t : Token) (h : t.kind = .comparison) (c : Comparison) (hc : t.text = c.symbol) :
    Stands t (.comparison t.place.offset c)
  | name (t : Token) (h : t.kind = .identifier) : Stands t (.ident t.place.offset t.text)

structure Part where
  token : Token
  node : Node
  stands : Stands token node

/-! ## Layouts -/

abbrev TokenOf (kind : Kind) := {t : Token // t.kind = kind}

def TokenOf.of (t : Token) : TokenOf t.kind := ⟨t, rfl⟩

/-- Tokens among which no tag ends. -/
abbrev Skipped := {ts : List Token // ∀ t ∈ ts, t.kind ≠ .tagEnd}

structure Condition where
  parts : List Part
  closing : TokenOf .tagEnd

structure Closer (word : String) where
  opening : TokenOf .tagStart
  name : {t : Token // t.isWord word = true}
  skipped : Skipped
  closing : Option (TokenOf .tagEnd)

def plainCloser (word : String) : Closer word :=
  ⟨.of ⟨.tagStart, "\x7b%", .origin⟩, ⟨⟨.identifier, word, .origin⟩, by simp [Token.isWord]⟩, ⟨[], by simp⟩,
    some (.of ⟨.tagEnd, "%\x7d", .origin⟩)⟩

mutual

inductive Item (names : List String)
  | text (t : TokenOf .text)
  | tag (opening : TokenOf .tagStart) (tag : Tag names)

inductive Tag (names : List String)
  | block (keyword : TokenOf .blockWord) (title : TokenOf .identifier) (closing : TokenOf .tagEnd)
    (body : List (Item names)) (closer : Closer "endblock")
  | conditional (keyword : TokenOf .ifWord) (condition : Condition) (body : List (Item names)) (ending : Ending names)
  | enclosing (name : String) (h : name ∈ names) (word : {t : Token // t.isWord name = true}) (skipped : Skipped)
    (closing : TokenOf .tagEnd) (body : List (Item names)) (closer : Closer ("end" ++ name))

inductive Ending (names : List String)
  | close (closer : Closer "endif")
  | otherwise (opening : TokenOf .tagStart) (keyword : TokenOf .elseWord) (closing : TokenOf .tagEnd)
    (body : List (Item names)) (closer : Closer "endif")
  | another (opening : TokenOf .tagStart) (keyword : TokenOf .elifWord) (condition : Condition)
    (body : List (Item names)) (ending : Ending names)

end

variable {names : List String}

/-! ## The tokens of a layout -/

def Condition.tokens (c : Condition) : List Token := c.parts.map (·.token) ++ [c.closing.1]

def Closer.tokens {word : String} (c : Closer word) : List Token :=
  c.opening.1 :: c.name.1 :: (c.skipped.1 ++ c.closing.toList.map (·.1))

mutual

def Item.tokens : Item names → List Token
  | .text t => [t.1]
  | .tag opening tag => opening.1 :: tag.tokens

def tokensOf : List (Item names) → List Token
  | [] => []
  | i :: is => i.tokens ++ tokensOf is

def Tag.tokens : Tag names → List Token
  | .block keyword title closing body closer =>
    keyword.1 :: title.1 :: closing.1 :: (tokensOf body ++ closer.tokens)
  | .conditional keyword condition body ending =>
    keyword.1 :: (condition.tokens ++ (tokensOf body ++ ending.tokens))
  | .enclosing _ _ word skipped closing body closer =>
    word.1 :: (skipped.1 ++ closing.1 :: (tokensOf body ++ closer.tokens))

def Ending.tokens : Ending names → List Token
  | .close closer => closer.tokens
  | .otherwise opening keyword closing body closer =>
    opening.1 :: keyword.1 :: closing.1 :: (tokensOf body ++ closer.tokens)
  | .another opening keyword condition body ending =>
    opening.1 :: keyword.1 :: (condition.tokens ++ (tokensOf body ++ ending.tokens))

end

/-! ## The nodes of a layout -/

def Condition.nodes (c : Condition) : List Node := c.parts.map (·.node)

mutual

def Item.node : Item names → Node
  | .text t => .text t.1.place.offset t.1.text
  | .tag _ tag => tag.node

def nodesOf : List (Item names) → List Node
  | [] => []
  | i :: is => i.node :: nodesOf is

def Tag.node : Tag names → Node
  | .block keyword title _ body _ => .block keyword.1.place.offset title.1.text [] (nodesOf body)
  | .conditional keyword condition body ending =>
    .conditional keyword.1.place.offset condition.nodes (nodesOf body) ending.node
  | .enclosing name _ word _ _ body _ => .block word.1.place.offset name [] (nodesOf body)

def Ending.node : Ending names → Option Node
  | .close _ => none
  | .otherwise _ keyword _ body _ => some (.group keyword.1.place.offset (nodesOf body))
  | .another _ keyword condition body ending =>
    some (.group keyword.1.place.offset
      [.conditional keyword.1.place.offset condition.nodes (nodesOf body) ending.node])

end

/-! ## What may come after a layout -/

def Closer.Fits {word : String} (c : Closer word) (rest : List Token) : Prop := c.closing = none → rest = []

mutual

/-- Whether a layout may stand before `rest`: only where nothing comes after it a closer does without its end. -/
def Item.Fits : Item names → List Token → Prop
  | .text _, _ => True
  | .tag _ tag, rest => tag.Fits rest

def FitsAll : List (Item names) → List Token → Prop
  | [], _ => True
  | i :: is, rest => i.Fits (tokensOf is ++ rest) ∧ FitsAll is rest

def Tag.Fits : Tag names → List Token → Prop
  | .block _ _ _ body closer, rest => FitsAll body (closer.tokens ++ rest) ∧ closer.Fits rest
  | .conditional _ _ body ending, rest => FitsAll body (ending.tokens ++ rest) ∧ ending.Fits rest
  | .enclosing _ _ _ _ _ body closer, rest => FitsAll body (closer.tokens ++ rest) ∧ closer.Fits rest

def Ending.Fits : Ending names → List Token → Prop
  | .close closer, rest => closer.Fits rest
  | .otherwise _ _ _ body closer, rest => FitsAll body (closer.tokens ++ rest) ∧ closer.Fits rest
  | .another _ _ _ body ending, rest => FitsAll body (ending.tokens ++ rest) ∧ ending.Fits rest

end

def Complete (is : List (Item names)) : Prop := ∀ rest, FitsAll is rest

/-- The layout of a whole template. -/
structure Derives (ts : List Token) (is : List (Item names)) : Prop where
  spells : tokensOf is = ts
  fits : FitsAll is []

end Layout
end Stencil
