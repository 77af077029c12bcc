import Stencil.Proofs.Lexical
import Stencil.Proofs.Scans
/-!
# What the tokens of a scan add up to

A scan delivers passages: runs of text, never two of them side by side, and tags, each with an opening delimiter, some
lexemes and a closing delimiter, all on one line.  Every lexeme has the characters of its kind, and the parentheses of a
tag match.  Behind the last passage comes the end of the source or an error, and before the error there may be a tag that
has no closing delimiter yet.

The theorem is an induction on the scan.  In the text it says just this of what is left; between delimiters it says that
the tag goes on in this way from the number of parentheses that are open (`Zone.Delivers`).
-/
namespace Stencil

/-! ## Parentheses -/

/-- No parenthesis closes that is not open, if `depth` are open in front. -/
def NeverBelow (depth : Nat) (kinds : List Kind) : Prop :=
  ∀ ks, ks <+: kinds → ks.count .rightParen ≤ depth + ks.count .leftParen

/-- Parentheses that match, if `depth` are open in front. -/
structure Matching (depth : Nat) (kinds : List Kind) : Prop where
  never : NeverBelow depth kinds
  all : kinds.count .rightParen = depth + kinds.count .leftParen

theorem neverBelow_nil (depth : Nat) : NeverBelow depth [] := by
  intro ks hks
  rw [List.prefix_nil.1 hks]
  exact Nat.zero_le _

theorem Kind.depthAfter_add {kind : Kind} {depth : Nat} (h : ¬(kind = .rightParen ∧ depth = 0)) (kinds : List Kind) :
    depth + (kind :: kinds).count .leftParen + kinds.count .rightParen =
      kind.depthAfter depth + kinds.count .leftParen + (kind :: kinds).count .rightParen := by
  by_cases hleft : kind = .leftParen
  · subst hleft
    simp [depthAfter]
    omega
  by_cases hright : kind = .rightParen
  · subst hright
    have hdepth : depth ≠ 0 := fun h0 => h ⟨rfl, h0⟩
    simp [depthAfter]
    omega
  · rw [depthAfter_of_ne ⟨hleft, hright⟩, List.count_cons_of_ne hleft, List.count_cons_of_ne hright]

theorem neverBelow_cons {kind : Kind} {kinds : List Kind} {depth : Nat} :
    NeverBelow depth (kind :: kinds) ↔
      ¬(kind = .rightParen ∧ depth = 0) ∧ NeverBelow (kind.depthAfter depth) kinds := by
  constructor
  · intro h
    have hfirst : ¬(kind = .rightParen ∧ depth = 0) := by
      rintro ⟨rfl, rfl⟩
      exact absurd (h [.rightParen] ⟨kinds, rfl⟩) (by decide)
    refine ⟨hfirst, fun ks hks => ?_⟩
    have hlonger := h (kind :: ks) (List.cons_prefix_cons.2 ⟨rfl, hks⟩)
    have hadd := Kind.depthAfter_add hfirst ks
    omega
  · rintro ⟨hfirst, h⟩ ks hks
    cases ks with
    | nil => exact Nat.zero_le _
    | cons k ks =>
      obtain ⟨rfl, htail⟩ := List.cons_prefix_cons.1 hks
      have hshorter : ks.count .rightParen ≤ k.depthAfter depth + ks.count .leftParen := h ks htail
      have hadd := Kind.depthAfter_add hfirst ks
      omega

theorem matching_nil {depth : Nat} : Matching depth [] ↔ depth = 0 := by
  constructor
  · intro h
    have hall : 0 = depth + 0 := h.all
    omega
  · rintro rfl
    exact ⟨neverBelow_nil 0, rfl⟩

theorem matching_cons {kind : Kind} {kinds : List Kind} {depth : Nat} :
    Matching depth (kind :: kinds) ↔
      ¬(kind = .rightParen ∧ depth = 0) ∧ Matching (kind.depthAfter depth) kinds := by
  constructor
  · intro h
    obtain ⟨hfirst, hnever⟩ := neverBelow_cons.1 h.never
    have hadd := Kind.depthAfter_add hfirst kinds
    have hall := h.all
    exact ⟨hfirst, hnever, by omega⟩
  · rintro ⟨hfirst, hnever, hall⟩
    have hadd := Kind.depthAfter_add hfirst kinds
    exact ⟨neverBelow_cons.2 ⟨hfirst, hnever⟩, by omega⟩

/-! ## Passages -/

/-- A run of text, or what stands from an opening delimiter to a closing one. -/
inductive Passage
  | text (t : Token)
  | tag (opener : Token) (inner : List Token) (closer : Token)

def Passage.tokens : Passage → List Token
  | .text t => [t]
  | .tag opener inner closer => opener :: (inner ++ [closer])

namespace Token

structure IsText (t : Token) : Prop where
  kind : t.kind = .text
  ne : t.text ≠ ""
  plain : '{' ∉ t.text.toList

theorem isText_ofList {cs : List Char} (hne : cs ≠ []) (hcs : ∀ c ∈ cs, c ≠ '{') (p : Place) :
    IsText ⟨.text, String.ofList cs, p⟩ := by
  constructor
  case kind => rfl
  case ne => exact fun h => hne (String.ofList_eq_empty_iff.1 h)
  case plain =>
    rw [String.toList_ofList]
    exact fun hmem => hcs _ hmem rfl

def IsOpener (t : Token) : Prop := ∃ d : Delimiter, t.kind = d.openKind ∧ t.text.toList = d.openText

def IsCloser (t : Token) : Prop := ∃ d : Delimiter, t.kind = d.closeKind ∧ t.text.toList = d.closeText

/-- A token that has the characters of its kind. -/
def IsLexeme (t : Token) : Prop := Lexical t.kind t.text.toList

end Token

/-- Passages as a scan delivers them: no text beside another one, and in each tag only parentheses that match. -/
inductive WellFormed : List Passage → Prop
  | nil : WellFormed []
  | text {t : Token} {ps : List Passage} (ht : t.IsText) (hnext : ∀ u, ps.head? ≠ some (.text u))
    (hrest : WellFormed ps) : WellFormed (.text t :: ps)
  | tag {opener : Token} {inner : List Token} {closer : Token} {ps : List Passage} (hopener : opener.IsOpener)
    (hinner : ∀ t ∈ inner, t.IsLexeme) (hmatching : Matching 0 (inner.map (·.kind))) (hcloser : closer.IsCloser)
    (hrest : WellFormed ps) : WellFormed (.tag opener inner closer :: ps)

def OnOneLine (ts : List Token) : Prop := ∃ line, ∀ t ∈ ts, t.place.line = line

/-- What comes behind the last passage: the end of the source, or an error, if need be in a tag that is still open. -/
inductive EndsScan : List Token → Prop
  | finished {t : Token} (h : t.kind = .endOfInput) : EndsScan [t]
  | stopped {t : Token} (h : t.kind = .error) : EndsScan [t]
  | cut {opener : Token} {inner : List Token} {t : Token} (hopener : opener.IsOpener) (hinner : ∀ u ∈ inner, u.IsLexeme)
    (hnever : NeverBelow 0 (inner.map (·.kind))) (hline : OnOneLine (opener :: (inner ++ [t]))) (h : t.kind = .error) :
    EndsScan (opener :: (inner ++ [t]))

/-- Tokens that add up to some passages and an end. -/
structure AddsUp (ts : List Token) (ps : List Passage) (ending : List Token) : Prop where
  tokens : ts = ps.flatMap Passage.tokens ++ ending
  wellFormed : WellFormed ps
  lines : ∀ p ∈ ps, OnOneLine p.tokens
  ends : EndsScan ending

theorem AddsUp.text {ts : List Token} {ps : List Passage} {ending : List Token} (h : AddsUp ts ps ending) {t : Token}
    (ht : t.IsText) (hnext : ∀ u, ps.head? ≠ some (.text u)) : AddsUp (t :: ts) (.text t :: ps) ending := by
  constructor
  case tokens =>
    rw [h.tokens]
    rfl
  case wellFormed => exact .text ht hnext h.wellFormed
  case lines => exact List.forall_mem_cons.2 ⟨⟨t.place.line, by simp [Passage.tokens]⟩, h.lines⟩
  case ends => exact h.ends

/-! ## Between delimiters -/

theorem Place.line_after {cs : List Char} (h : '\n' ∉ cs) (p : Place) : (p.after cs).line = p.line := by
  induction cs generalizing p with
  | nil => rfl
  | cons c cs ih =>
    rw [List.mem_cons, not_or] at h
    rw [after_cons, ih h.2, next, if_neg (Ne.symm h.1)]

theorem Delimiter.lineFeed_notMem_openText (d : Delimiter) : '\n' ∉ d.openText := by cases d <;> decide

/-- How a scan goes on that stands between delimiters: lexemes up to a closing delimiter, and then passages, or up to an
error. -/
structure GoesOn (depth : Nat) (p : Place) (inner : List Token) (t : Token) (rest : List Token) : Prop where
  lexemes : ∀ u ∈ inner, u.IsLexeme
  never : NeverBelow depth (inner.map (·.kind))
  line : ∀ u ∈ inner ++ [t], u.place.line = p.line
  ends : t.kind = .error ∧ rest = [] ∨
    t.IsCloser ∧ Matching depth (inner.map (·.kind)) ∧ ∃ ps ending, AddsUp rest ps ending

namespace GoesOn

variable {depth : Nat} {p : Place} {inner : List Token} {t : Token} {rest : List Token}

theorem onLine (h : GoesOn depth p inner t rest) {q : Place} (hline : p.line = q.line) : GoesOn depth q inner t rest :=
  ⟨h.lexemes, h.never, fun u hu => (h.line u hu).trans hline, h.ends⟩

theorem lexeme {kind : Kind} {cs : List Char} (h : GoesOn (kind.depthAfter depth) (p.after cs) inner t rest)
    (hcs : Lexical kind cs) (hdepth : ¬(kind = .rightParen ∧ depth = 0)) :
    GoesOn depth p (⟨kind, String.ofList cs, p⟩ :: inner) t rest := by
  have hline := Place.line_after hcs.lineFeed_notMem p
  constructor
  case lexemes =>
    refine List.forall_mem_cons.2 ⟨?_, h.lexemes⟩
    rw [Token.IsLexeme, String.toList_ofList]
    exact hcs
  case never => exact neverBelow_cons.2 ⟨hdepth, h.never⟩
  case line => exact List.forall_mem_cons.2 ⟨rfl, fun u hu => (h.line u hu).trans hline⟩
  case ends =>
    rcases h.ends with herror | ⟨hcloser, hmatching, hrest⟩
    · exact .inl herror
    · exact .inr ⟨hcloser, matching_cons.2 ⟨hdepth, hmatching⟩, hrest⟩

theorem opened (h : GoesOn 0 p inner t rest) {opener : Token} (hopener : opener.IsOpener)
    (hline : opener.place.line = p.line) :
    ∃ ps ending, AddsUp (opener :: (inner ++ t :: rest)) ps ending ∧ ∀ u, ps.head? ≠ some (.text u) := by
  have hlines : OnOneLine (opener :: (inner ++ [t])) := ⟨p.line, List.forall_mem_cons.2 ⟨hline, h.line⟩⟩
  rcases h.ends with ⟨herror, rfl⟩ | ⟨hcloser, hmatching, ps, ending, hps⟩
  · exact ⟨[], _, ⟨rfl, .nil, by simp, .cut hopener h.lexemes h.never hlines herror⟩, by simp⟩
  · refine ⟨.tag opener inner t :: ps, ending, ?_, by simp⟩
    constructor
    case tokens =>
      rw [hps.tokens]
      simp [Passage.tokens]
    case wellFormed => exact .tag hopener h.lexemes hmatching hcloser hps.wellFormed
    case lines => exact List.forall_mem_cons.2 ⟨hlines, hps.lines⟩
    case ends => exact hps.ends

end GoesOn

/-! ## Scans -/

def Zone.Delivers : Zone → Place → List Char → List Token → Prop
  | .text, _, cs, ts =>
    ∃ ps ending, AddsUp ts ps ending ∧ ((∀ c ∈ cs.head?, c = '{') → ∀ u, ps.head? ≠ some (.text u))
  | .inside depth, p, _, ts => ∃ inner t rest, ts = inner ++ t :: rest ∧ GoesOn depth p inner t rest

theorem Scans.delivers {zone : Zone} {p : Place} {cs : List Char} {ts : List Token} (h : Scans zone p cs ts) :
    zone.Delivers p cs ts := by
  induction h with
  | done p => exact ⟨[], _, ⟨rfl, .nil, by simp, .finished rfl⟩, by simp⟩
  | @text p cs rest ts hne hcs hrest _ ih =>
    obtain ⟨ps, ending, hps, hhead⟩ := ih
    refine ⟨_, ending, hps.text (Token.isText_ofList hne hcs p) (hhead hrest), fun hbrace => ?_⟩
    obtain ⟨c, more, rfl⟩ := List.exists_cons_of_ne_nil hne
    exact absurd (hbrace c rfl) (hcs c List.mem_cons_self)
  | @opening p d rest ts _ ih =>
    obtain ⟨inner, t, rest, rfl, hinner⟩ := ih
    have hopener : Token.IsOpener ⟨d.openKind, String.ofList d.openText, p⟩ := ⟨d, rfl, String.toList_ofList⟩
    have hline := Place.line_after d.lineFeed_notMem_openText p
    obtain ⟨ps, ending, hps, hhead⟩ := (hinner.onLine hline).opened hopener rfl
    exact ⟨ps, ending, hps, fun _ => hhead⟩
  | stray => exact ⟨[], _, ⟨rfl, .nil, by simp, .stopped rfl⟩, by simp⟩
  | @blank _ p c _ _ hblank _ ih =>
    obtain ⟨inner, t, rest, rfl, hinner⟩ := ih
    have hc : c ≠ '\n' := by
      obtain ⟨_, _, hcons, hc⟩ := pieceAt_eq_blank hblank
      rw [(List.cons.inj hcons).1]
      rcases hc with rfl | rfl <;> decide
    exact ⟨inner, t, rest, rfl, hinner.onLine (by rw [Place.next, if_neg hc])⟩
  | lexeme cs hpiece _ ih =>
    obtain ⟨inner, t, rest, rfl, hinner⟩ := ih
    exact ⟨_, t, rest, rfl, hinner.lexeme (lexical_of_piece hpiece) (pieceAt_eq_lexeme hpiece).2.2.2⟩
  | @closing p d _ _ _ ih =>
    obtain ⟨ps, ending, hps, -⟩ := ih
    have hcloser : Token.IsCloser ⟨d.closeKind, String.ofList d.closeText, p⟩ := ⟨d, rfl, String.toList_ofList⟩
    exact ⟨[], _, _, rfl, by simp, neverBelow_nil 0, by simp, .inr ⟨hcloser, matching_nil.2 rfl, ps, ending, hps⟩⟩
  | @fault depth => exact ⟨[], _, [], rfl, by simp, neverBelow_nil depth, by simp, .inl ⟨rfl, rfl⟩⟩

theorem Scans.isLexeme {zone : Zone} {p : Place} {cs : List Char} {ts : List Token} (h : Scans zone p cs ts) :
    ∀ t ∈ ts, t.kind.isInner = true → t.IsLexeme := by
  induction h with
  | done | stray | fault => exact List.forall_mem_singleton.2 nofun
  | text _ _ _ _ _ ih => exact List.forall_mem_cons.2 ⟨nofun, ih⟩
  | opening d _ ih | closing d _ ih =>
    refine List.forall_mem_cons.2 ⟨fun hinner => ?_, ih⟩
    cases d <;> cases hinner
  | blank _ _ ih => exact ih
  | lexeme cs hpiece _ ih =>
    refine List.forall_mem_cons.2 ⟨fun _ => ?_, ih⟩
    rw [Token.IsLexeme, String.toList_ofList]
    exact lexical_of_piece hpiece

theorem Scans.isText {zone : Zone} {p : Place} {cs : List Char} {ts : List Token} (h : Scans zone p cs ts) :
    ∀ t ∈ ts, t.kind = .text → t.IsText := by
  induction h with
  | done | stray | fault => exact List.forall_mem_singleton.2 nofun
  | @text p _ _ _ hne hcs _ _ ih => exact List.forall_mem_cons.2 ⟨fun _ => Token.isText_ofList hne hcs p, ih⟩
  | opening d _ ih | closing d _ ih =>
    refine List.forall_mem_cons.2 ⟨fun htext => ?_, ih⟩
    cases d <;> cases htext
  | blank _ _ ih => exact ih
  | lexeme cs hpiece _ ih =>
    refine List.forall_mem_cons.2 ⟨?_, ih⟩
    rintro rfl
    cases (pieceAt_eq_lexeme hpiece).2.2.1

/-- **The tokens of a source are runs of text and tags**: runs that are not empty, have no opening brace in them and stand
beside no other one, and tags on one line from an opening delimiter to a closing one, with parentheses that match
and lexemes that have the characters of their kind.  Only the last tag may have no closing delimiter, and then an error
comes behind it. -/
theorem scan_addsUp (source : String) : ∃ ps ending, AddsUp (scan source) ps ending := by
  obtain ⟨ps, ending, hps, -⟩ := (scans_scan source).delivers
  exact ⟨ps, ending, hps⟩

end Stencil
