import Stencil.Proofs.Passages
import Stencil.Proofs.Spelling
import Stencil.Reading.Operand
/-!
# String literals

Two rules share the syntax of string literals.  A scan looks for the quote that ends a literal, and steps over whatever
stands behind a backslash.  Reading takes the first and the last character for the quotes and resolves what is between
them, without a look at what the scan has found.

They agree, since what a scan finds between two quotes is made of parts: characters that stand for themselves, neither
quotes nor backslashes, and pairs of a backslash and a character.  So the last character is the quote, and no backslash
is left over in front of it.  In the other direction any string can be written between quotes of either kind, and comes
back as it was.
-/
namespace Stencil

/-! ## Parts -/

/-- A part of what stands between two quotes. -/
inductive QuotedPart
  | plain (c : Char)
  | pair (c : Char)

namespace QuotedPart

def chars : QuotedPart → List Char
  | plain c => [c]
  | pair c => ['\\', c]

def value : QuotedPart → Char
  | plain c => c
  | pair 'n' => '\n'
  | pair 't' => '\t'
  | pair 'r' => '\r'
  | pair c => c

/-- Whether a part may stand between quotes of a kind. -/
def Within (quote : Char) : QuotedPart → Prop
  | plain c => c ≠ '\\' ∧ c ≠ quote
  | pair _ => True

theorem escaped_eq_value (c : Char) : escaped c = (pair c).value := by
  unfold escaped value
  split
  · subst c; rfl
  split
  · subst c; rfl
  split
  · subst c; rfl
  · split <;> simp_all

end QuotedPart

variable {quote : Char}

theorem QuotedBody.exists_parts {cs : List Char} (h : QuotedBody quote cs) :
    ∃ parts : List QuotedPart, cs = parts.flatMap QuotedPart.chars ∧ ∀ part ∈ parts, part.Within quote := by
  induction h with
  | nil => exact ⟨[], rfl, by simp⟩
  | @escaped c _ _ _ ih =>
    obtain ⟨parts, rfl, hparts⟩ := ih
    exact ⟨.pair c :: parts, rfl, List.forall_mem_cons.2 ⟨trivial, hparts⟩⟩
  | @plain c _ hslash _ hquote _ ih =>
    obtain ⟨parts, rfl, hparts⟩ := ih
    exact ⟨.plain c :: parts, rfl, List.forall_mem_cons.2 ⟨⟨hslash, hquote⟩, hparts⟩⟩

/-! ## Escapes -/

/-- Resolves the escapes of a text, and gives `tail` for a backslash with nothing after it. -/
def unescapeElse (tail : List Char) : List Char → List Char
  | [] => []
  | ['\\'] => tail
  | '\\' :: c :: cs => escaped c :: unescapeElse tail cs
  | c :: cs => c :: unescapeElse tail cs

theorem unescapeElse_cons_of_ne {c : Char} (h : c ≠ '\\') (tail cs : List Char) :
    unescapeElse tail (c :: cs) = c :: unescapeElse tail cs := by
  rw [unescapeElse]
  · intro hc
    exact absurd hc h
  · intro d ds hc
    exact absurd hc h

theorem unescapeElse_nil : ∀ cs : List Char, unescapeElse [] cs = unescape cs
  | [] => rfl
  | ['\\'] => rfl
  | '\\' :: c :: cs => congrArg (escaped c :: ·) (unescapeElse_nil cs)
  | c :: cs => by
    by_cases hc : c = '\\'
    · subst hc
      cases cs with
      | nil => rfl
      | cons d ds => exact congrArg (escaped d :: ·) (unescapeElse_nil ds)
    · rw [unescapeElse_cons_of_ne hc, unescape_cons_of_ne hc, unescapeElse_nil cs]

theorem unescapeElse_parts (tail : List Char) : ∀ {parts : List QuotedPart}, (∀ part ∈ parts, part.Within quote) →
    unescapeElse tail (parts.flatMap QuotedPart.chars) = parts.map QuotedPart.value
  | [], _ => rfl
  | .plain c :: parts, h => by
    obtain ⟨⟨hslash, -⟩, hparts⟩ := List.forall_mem_cons.1 h
    show unescapeElse tail (c :: parts.flatMap QuotedPart.chars) = _
    rw [unescapeElse_cons_of_ne hslash, unescapeElse_parts tail hparts]
    rfl
  | .pair c :: parts, h => by
    have hparts := (List.forall_mem_cons.1 h).2
    show escaped c :: unescapeElse tail (parts.flatMap QuotedPart.chars) = _
    rw [QuotedPart.escaped_eq_value, unescapeElse_parts tail hparts]
    rfl

/-! ## Literals -/

/-- Between delimiters a string between quotes is taken as one token, whatever comes behind it. -/
theorem Scanner.tokens_literalIn (hquote : quote = '"' ∨ quote = '\'') (s : String) (depth : Nat) (p : Place)
    (rest : List Char) : ((Zone.inside depth).scanner p (literalIn quote s ++ rest)).tokens =
      ⟨.string, String.ofList (literalIn quote s), p⟩ ::
        ((Zone.inside depth).scanner (p.after (literalIn quote s)) rest).tokens := by
  have hpiece : pieceAt depth (literalIn quote s ++ rest) = .lexeme .string (literalIn quote s).length :=
    (quotedBody_flatMap_escapeIn hquote s.toList).pieceAt_append hquote depth rest
  rw [tokens_inside, hpiece, tokensFrom, List.take_left, List.drop_left]
  rfl

theorem Token.IsLexeme.exists_parts {t : Token} (h : t.IsLexeme) (ht : t.kind = .string) :
    ∃ quote, (quote = '"' ∨ quote = '\'') ∧ ∃ parts : List QuotedPart, (∀ part ∈ parts, part.Within quote) ∧
      t.text.toList = quote :: (parts.flatMap QuotedPart.chars ++ [quote]) := by
  rw [IsLexeme, ht] at h
  generalize t.text.toList = cs at h
  cases h with
  | keyword h => simp at h
  | @string quote _ hquote hbody =>
    obtain ⟨parts, rfl, hparts⟩ := hbody.exists_parts
    exact ⟨quote, hquote, parts, hparts, rfl⟩

theorem literalValue_of_parts {s : String} {parts : List QuotedPart} (hparts : ∀ part ∈ parts, part.Within quote)
    (hs : s.toList = quote :: (parts.flatMap QuotedPart.chars ++ [quote])) :
    literalValue s = String.ofList (parts.map QuotedPart.value) := by
  rw [literalValue, hs, List.drop_one, List.tail_cons, List.dropLast_concat, ← unescapeElse_nil,
    unescapeElse_parts [] hparts]

/-- **Scanning and reading agree on string literals.**  Any string, written between quotes of either kind, is one token
wherever a scan stands between delimiters, and is read as that string.  And any string token of a source has a quote at
each end and parts between them, it is read as what the parts stand for, and no backslash ends what is between the
quotes: nothing would change if one stood for something there. -/
theorem literals_agree :
    (∀ quote, quote = '"' ∨ quote = '\'' → ∀ s : String,
      (∀ depth p rest, ((Zone.inside depth).scanner p (literalIn quote s ++ rest)).tokens =
        ⟨.string, String.ofList (literalIn quote s), p⟩ ::
          ((Zone.inside depth).scanner (p.after (literalIn quote s)) rest).tokens) ∧
      ∀ t : Token, t.kind = .string → t.text = String.ofList (literalIn quote s) →
        t.operand = .ok (.string t.place.offset s)) ∧
    ∀ source, ∀ t ∈ scan source, t.kind = .string →
      ∃ quote, (quote = '"' ∨ quote = '\'') ∧ ∃ parts : List QuotedPart, (∀ part ∈ parts, part.Within quote) ∧
        t.text.toList = quote :: (parts.flatMap QuotedPart.chars ++ [quote]) ∧
        t.operand = .ok (.string t.place.offset (String.ofList (parts.map QuotedPart.value))) ∧
        ∀ tail, unescapeElse tail (parts.flatMap QuotedPart.chars) = unescape (parts.flatMap QuotedPart.chars) := by
  have hoperand : ∀ t : Token, t.kind = .string → t.operand = .ok (.string t.place.offset (literalValue t.text)) := by
    intro t ht
    simp [Token.operand, ht]
  constructor
  · intro quote hquote s
    refine ⟨Scanner.tokens_literalIn hquote s, fun t ht htext => ?_⟩
    rw [hoperand t ht, htext, literalValue_literalIn hquote]
  · intro source t hmem ht
    have hlexeme : t.IsLexeme := (scans_scan source).isLexeme t hmem (by rw [ht]; rfl)
    obtain ⟨quote, hquote, parts, hparts, htext⟩ := hlexeme.exists_parts ht
    refine ⟨quote, hquote, parts, hparts, htext, ?_, fun tail => ?_⟩
    · rw [hoperand t ht, literalValue_of_parts hparts htext]
    · rw [unescapeElse_parts tail hparts, ← unescapeElse_nil, unescapeElse_parts [] hparts]

theorem literals_agree_apostrophe : String.ofList (literalIn '\'' "it's") = "'it\\'s'" ∧
    Token.operand ⟨.string, "'it\\'s'", .origin⟩ = .ok (.string 0 "it's") :=
  ⟨by decide, (literals_agree.1 '\'' (.inr rfl) "it's").2 _ rfl (by decide)⟩

end Stencil
