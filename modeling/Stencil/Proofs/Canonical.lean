import Stencil.Proofs.Passages
import Stencil.Proofs.Written
/-!
# Passages written out

Passages can be written out: the text as it is, and each tag with one space between any two of its lexemes.  A scan of
what is written delivers these passages again, in places of their own, and then the end of the source.

A space ends every lexeme (`Lexical.before_blank`), so what is needed beyond that is that a closing parenthesis always
finds one that is open, and that no parenthesis is open where the tag closes.
-/
namespace Stencil

def Passage.written : Passage → List Char
  | .text t => t.text.toList
  | .tag opener inner closer => opener.text.toList ++ (spaced (inner.map (·.text.toList)) ++ ' ' :: closer.text.toList)

def writtenPassages (ps : List Passage) : String := String.ofList (ps.flatMap Passage.written)

theorem Token.content_ofList {t : Token} {kind : Kind} {cs : List Char} (hkind : t.kind = kind) (htext : t.text.toList = cs)
    (p : Place) : Token.content ⟨kind, String.ofList cs, p⟩ = t.content := by
  rw [content, content, ← hkind, ← htext, String.ofList_toList]

/-- Lexemes with a space in front of each are read again, if their parentheses match. -/
theorem Scans.spaced {inner : List Token} (hinner : ∀ t ∈ inner, t.IsLexeme) : ∀ {depth : Nat} {p : Place}
    {rest : List Char} {us : List Token}, Matching depth (inner.map (·.kind)) →
      Scans (.inside 0) (p.after (spaced (inner.map (·.text.toList)))) (' ' :: rest) us →
      ∃ ts, ts.map Token.content = inner.map Token.content ∧
        Scans (.inside depth) p (spaced (inner.map (·.text.toList)) ++ ' ' :: rest) (ts ++ us) := by
  induction inner with
  | nil =>
    intro depth p rest us hmatching tail
    obtain rfl : depth = 0 := matching_nil.1 hmatching
    exact ⟨[], rfl, tail⟩
  | cons t inner ih =>
    intro depth p rest us hmatching tail
    obtain ⟨hlexeme, hinner⟩ := List.forall_mem_cons.1 hinner
    obtain ⟨hdepth, hmatching⟩ := matching_cons.1 hmatching
    rw [List.map_cons, spaced_cons, Place.after_cons, Place.after_append] at tail
    obtain ⟨ts, hts, hscan⟩ := ih hinner hmatching tail
    refine ⟨⟨t.kind, String.ofList t.text.toList, p.next ' '⟩ :: ts, ?_, ?_⟩
    · rw [List.map_cons, List.map_cons, hts, Token.content_ofList rfl rfl]
    · obtain ⟨more, hmore⟩ := spaced_append (inner.map (·.text.toList)) rest
      rw [List.map_cons, spaced_cons, List.cons_append, List.append_assoc, hmore]
      rw [hmore] at hscan
      exact .between_spaces (hlexeme.before_blank hdepth (.inl rfl)) hscan

theorem WellFormed.starts {ps : List Passage} (h : WellFormed ps) (hnext : ∀ u, ps.head? ≠ some (.text u)) :
    ∀ c ∈ (ps.flatMap Passage.written).head?, c = '{' := by
  cases h with
  | nil => simp
  | text => exact absurd rfl (hnext _)
  | tag hopener =>
    obtain ⟨d, -, htext⟩ := hopener
    cases d <;> simp [Passage.written, htext, Delimiter.openText]

theorem Scans.tagWritten {opener closer : Token} {inner : List Token} (hopener : opener.IsOpener)
    (hinner : ∀ t ∈ inner, t.IsLexeme) (hmatching : Matching 0 (inner.map (·.kind))) (hcloser : closer.IsCloser)
    {p : Place} {rest : List Char} {us : List Token}
    (tail : Scans .text (p.after (Passage.tag opener inner closer).written) rest us) :
    ∃ ts, ts.map Token.content = (Passage.tag opener inner closer).tokens.map Token.content ∧
      Scans .text p ((Passage.tag opener inner closer).written ++ rest) (ts ++ us) := by
  obtain ⟨d, hopenKind, hopenText⟩ := hopener
  obtain ⟨e, hcloseKind, hcloseText⟩ := hcloser
  rw [Passage.written, hopenText, hcloseText, Place.after_append, Place.after_append, Place.after_cons] at tail
  obtain ⟨ts, hts, hscan⟩ := Scans.spaced hinner hmatching (.blank (pieceAt_blank (.inl rfl) 0 _) (.closing e tail))
  refine ⟨⟨d.openKind, String.ofList d.openText, p⟩ :: (ts ++ [⟨e.closeKind, String.ofList e.closeText,
    ((p.after d.openText).after (Stencil.spaced (inner.map (·.text.toList)))).next ' '⟩]), ?_, ?_⟩
  · simp only [Passage.tokens, List.map_cons, List.map_append, List.map_nil, hts,
      Token.content_ofList hopenKind hopenText, Token.content_ofList hcloseKind hcloseText]
  · simp only [Passage.written, hopenText, hcloseText, List.append_assoc, List.cons_append, List.nil_append]
    exact .opening d hscan

theorem Scans.written {ps : List Passage} (h : WellFormed ps) : ∀ p : Place, ∃ ts last, last.content = (.endOfInput, "") ∧
    ts.map Token.content = (ps.flatMap Passage.tokens).map Token.content ∧
      Scans .text p (ps.flatMap Passage.written) (ts ++ [last]) := by
  induction h with
  | nil => exact fun p => ⟨[], _, rfl, rfl, .done p⟩
  | @text t ps ht hnext hrest ih =>
    intro p
    obtain ⟨ts, last, hlast, hts, hscan⟩ := ih (p.after t.text.toList)
    have hne : t.text.toList ≠ [] := fun h => ht.ne (String.toList_eq_nil_iff.1 h)
    have hplain : ∀ c ∈ t.text.toList, c ≠ '{' := by
      rintro c hc rfl
      exact ht.plain hc
    have hends : ∀ c ∈ (ps.flatMap Passage.written).head?, c = '{' := hrest.starts hnext
    refine ⟨⟨.text, String.ofList t.text.toList, p⟩ :: ts, last, hlast, ?_, ?_⟩
    · simp only [List.flatMap_cons, Passage.tokens, List.singleton_append, List.map_cons, hts, Token.content_ofList ht.kind rfl]
    · exact .text _ hne hplain hends hscan
  | @tag opener inner closer ps hopener hinner hmatching hcloser _ ih =>
    intro p
    obtain ⟨us, last, hlast, hus, hscan⟩ := ih (p.after (Passage.tag opener inner closer).written)
    obtain ⟨ts, hts, hscan⟩ := Scans.tagWritten hopener hinner hmatching hcloser hscan
    refine ⟨ts ++ us, last, hlast, ?_, ?_⟩
    · rw [List.map_append, List.flatMap_cons, List.map_append, hts, hus]
    · rw [List.flatMap_cons, List.append_assoc]
      exact hscan

/-- **A scan of passages that are written out delivers the kinds and texts of these passages**, and then the end of the
source. -/
theorem scan_writtenPassages {ps : List Passage} (h : WellFormed ps) :
    (scan (writtenPassages ps)).map Token.content =
      (ps.flatMap Passage.tokens).map Token.content ++ [(.endOfInput, "")] := by
  obtain ⟨ts, last, hlast, hts, hscan⟩ := Scans.written h .origin
  have hscan' : Scans .text .origin (writtenPassages ps).toList (ts ++ [last]) := by
    rw [writtenPassages, String.toList_ofList]
    exact hscan
  rw [← hscan'.eq_scan, List.map_append, hts, List.map_singleton, hlast]

def sampler : List Passage :=
  [.text ⟨.text, "Hi ", .origin⟩,
    .tag ⟨.tagStart, "\x7b%", .origin⟩
      [⟨.ifWord, "if", .origin⟩, ⟨.leftParen, "(", .origin⟩, ⟨.identifier, "x", .origin⟩, ⟨.comparison, ">=", .origin⟩,
        ⟨.number, "-0x1F.8p+2", .origin⟩, ⟨.rightParen, ")", .origin⟩] ⟨.tagEnd, "%\x7d", .origin⟩,
    .tag ⟨.varStart, "\x7b\x7b", .origin⟩
      [⟨.field, ".1", .origin⟩, ⟨.pipe, "|", .origin⟩, ⟨.string, "'\\''", .origin⟩, ⟨.char, "*", .origin⟩]
      ⟨.varEnd, "\x7d\x7d", .origin⟩]

theorem wellFormed_sampler : WellFormed sampler := by
  refine .text ⟨rfl, by decide, by decide⟩ (by simp) (.tag ⟨.tag, rfl, rfl⟩ ?_ ?_ ⟨.tag, rfl, rfl⟩
    (.tag ⟨.var, rfl, rfl⟩ ?_ ?_ ⟨.var, rfl, rfl⟩ .nil))
  · simp only [List.forall_mem_cons]
    exact ⟨lexical_of_check rfl, lexical_of_check rfl, lexical_of_check rfl, lexical_of_check rfl, lexical_of_check rfl,
      lexical_of_check rfl, by simp⟩
  · simp [matching_cons, matching_nil, Kind.depthAfter]
  · simp only [List.forall_mem_cons]
    exact ⟨lexical_of_check rfl, lexical_of_check rfl, lexical_of_check rfl, lexical_of_check rfl, by simp⟩
  · simp [matching_cons, matching_nil, Kind.depthAfter]

theorem scan_writtenPassages_sampler :
    writtenPassages sampler = "Hi \x7b% if ( x >= -0x1F.8p+2 ) %\x7d\x7b\x7b .1 | '\\'' * \x7d\x7d" ∧
      (scan (writtenPassages sampler)).map Token.content =
        (sampler.flatMap Passage.tokens).map Token.content ++ [(.endOfInput, "")] :=
  ⟨by decide, scan_writtenPassages wellFormed_sampler⟩

end Stencil
