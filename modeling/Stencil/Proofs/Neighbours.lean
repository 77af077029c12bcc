import Stencil.Proofs.Passages
import Stencil.Proofs.Spelling
import Stencil.Proofs.Tiling
/-!
# Tokens and their neighbours

Where the tokens of a scan stand in its source, and what may stand next to them.  Tokens that come one behind another in
a scan are an infix of it, and two that are neighbours an infix of length two; so what is said here of a scan holds of
the tokens of each part of a template, wherever the part stands.
-/
namespace Stencil

theorem infix_parts {α : Type} {as bs cs all : List α} (h : as ++ (bs ++ cs) <:+: all) :
    as <:+: all ∧ bs <:+: all ∧ cs <:+: all :=
  ⟨(List.prefix_append _ _).isInfix.trans h, (List.infix_append' _ _ _).trans h,
    ((List.suffix_append _ _).trans (List.suffix_append _ _)).isInfix.trans h⟩

/-! ## What is left of a source -/

def Remains (source : String) (start : Nat) (cs : List Char) : Prop :=
  ∃ before, source.toList = before ++ cs ∧ byteLength before = start

def StandsAt (source : String) (start : Nat) (cs : List Char) : Prop := ∃ behind, Remains source start (cs ++ behind)

namespace Remains

variable {source : String} {start : Nat} {as bs : List Char}

theorem all (source : String) : Remains source 0 source.toList := ⟨[], rfl, rfl⟩

theorem behind (h : Remains source start (as ++ bs)) : Remains source (start + byteLength as) bs := by
  obtain ⟨before, hsource, rfl⟩ := h
  exact ⟨before ++ as, by rw [hsource, List.append_assoc], byteLength_append before as⟩

theorem after {p : Place} (h : Remains source p.offset (as ++ bs)) : Remains source (p.after as).offset bs := by
  rw [Place.offset_after]
  exact h.behind

/-- An offset is the end of at most one part of a source. -/
theorem unique (ha : Remains source start as) (hb : Remains source start bs) : as = bs := by
  have hnil : ∀ xs ys : List Char, byteLength (xs ++ ys) = byteLength xs → ys = [] := by
    intro xs ys h
    by_cases hne : ys = []
    · exact hne
    · have := byteLength_pos hne
      rw [byteLength_append] at h
      omega
  obtain ⟨xs, hxs, hlen⟩ := ha
  obtain ⟨ys, hys, rfl⟩ := hb
  rcases List.append_eq_append_iff.1 (hxs.symm.trans hys) with ⟨zs, rfl, rfl⟩ | ⟨zs, rfl, rfl⟩
  · rw [hnil xs zs hlen.symm, List.nil_append]
  · rw [hnil ys zs hlen, List.nil_append]

end Remains

/-! ## Where tokens stand -/

theorem IsWord.append {s : String} (hs : IsWord s) {cs : List Char} (hcs : ∀ c ∈ cs, isWordChar c = true) :
    IsWord (s ++ String.ofList cs) := by
  constructor
  case ne => exact fun h => hs.ne (String.append_eq_empty_iff.1 h).1
  case chars =>
    rw [String.toList_append, String.toList_ofList]
    exact fun c hc => (List.mem_append.1 hc).elim (hs.chars c) (hcs c)
  case head =>
    obtain ⟨c, more, hmore, -, hdigit, -⟩ := hs.uncons
    rw [String.toList_append, hmore]
    rintro d hd
    rwa [← Option.some.inj hd]

theorem stops_of_word {depth : Nat} {kind : Kind} {s : String} {rest : List Char} (hs : IsWord s)
    (h : pieceAt depth (s.toList ++ rest) = .lexeme kind s.toList.length) : Stops isWordChar rest := by
  -- the word with all the word characters behind it would be taken instead
  have hlonger : IsWord (s ++ String.ofList (rest.takeWhile isWordChar)) :=
    hs.append (List.all_eq_true.1 List.all_takeWhile)
  have hpiece := hlonger.pieceAt_append (stops_dropWhile isWordChar rest) depth
  rw [String.toList_append, String.toList_ofList, List.append_assoc, List.takeWhile_append_dropWhile, h,
    List.length_append] at hpiece
  have hlen := (Piece.lexeme.inj hpiece).2
  have hnil : rest.takeWhile isWordChar = [] := List.length_eq_zero_iff.1 (by omega)
  have hrest : rest.takeWhile isWordChar ++ rest.dropWhile isWordChar = rest := List.takeWhile_append_dropWhile
  rw [hnil, List.nil_append] at hrest
  rw [← hrest]
  exact stops_dropWhile isWordChar rest

/-- A token stands in a source, and if it is a word it stands there as a whole. -/
def Token.StandsIn (source : String) (t : Token) : Prop :=
  ∃ behind, Remains source t.place.offset (t.text.toList ++ behind) ∧
    (t.kind.isInner = true → IsWord t.text → Stops isWordChar behind)

theorem Token.standsIn_ofList {source : String} {kind : Kind} {p : Place} {cs rest : List Char}
    (h : Remains source p.offset (cs ++ rest))
    (hword : kind.isInner = true → IsWord (String.ofList cs) → Stops isWordChar rest) :
    Token.StandsIn source ⟨kind, String.ofList cs, p⟩ := by
  refine ⟨rest, ?_, hword⟩
  rw [String.toList_ofList]
  exact h

theorem Scans.standsIn {zone : Zone} {p : Place} {cs : List Char} {ts : List Token} (h : Scans zone p cs ts)
    {source : String} (hcs : Remains source p.offset cs) :
    ∀ t ∈ ts, t.kind ≠ .endOfInput ∧ t.kind ≠ .error → t.StandsIn source := by
  induction h with
  | done p => exact List.forall_mem_singleton.2 fun hplain => absurd rfl hplain.1
  | stray | fault => exact List.forall_mem_singleton.2 fun hplain => absurd rfl hplain.2
  | text _ _ _ _ _ ih => exact List.forall_mem_cons.2 ⟨fun _ => Token.standsIn_ofList hcs nofun, ih hcs.after⟩
  | opening d _ ih | closing d _ ih =>
    refine List.forall_mem_cons.2 ⟨fun _ => Token.standsIn_ofList hcs fun hinner => ?_, ih hcs.after⟩
    cases d <;> cases hinner
  | @blank _ p c rest _ _ _ ih =>
    have hc : Remains source p.offset ([c] ++ rest) := hcs
    exact ih hc.after
  | lexeme cs hpiece _ ih =>
    refine List.forall_mem_cons.2 ⟨fun _ => Token.standsIn_ofList hcs fun _ hword => ?_, ih hcs.after⟩
    exact stops_of_word hword (by rwa [String.toList_ofList])

variable {source : String}

theorem scan_standsIn {t : Token} (h : t ∈ scan source) (ht : t.kind ≠ .endOfInput ∧ t.kind ≠ .error) :
    t.StandsIn source :=
  (scans_scan source).standsIn (.all source) t h ht

theorem scan_standsAt {t : Token} (h : t ∈ scan source) (ht : t.kind ≠ .endOfInput ∧ t.kind ≠ .error) :
    StandsAt source t.place.offset t.text.toList := by
  obtain ⟨behind, hremains, -⟩ := scan_standsIn h ht
  exact ⟨behind, hremains⟩

/-- The tokens of a scan start one behind another. -/
theorem offsets_increase {ts : List Token} (h : ts <:+: scan source) :
    ts.Pairwise (fun t u => t.place.offset < u.place.offset) :=
  (scans_scan source).tiles.increasing.sublist h.sublist

/-! ## What stands between two tokens -/

theorem gap_of_neighbours {t u : Token} (h : [t, u] <:+: scan source) : ∃ gap behind,
    Blank gap ∧ Remains source t.stop (gap ++ behind) ∧ u.place.offset = t.stop + byteLength gap := by
  obtain ⟨before, behind, hsplit⟩ := h
  have htiles : Tiles false 0 source.toList (before ++ t :: u :: behind) := by
    rw [List.append_assoc] at hsplit
    exact hsplit ▸ (scans_scan source).tiles
  have hnone : false = true → TagOpen [] := by simp
  obtain ⟨x, gap, y, hsource, hx, hu, hblank, -⟩ := htiles.gap_between hnone
  refine ⟨gap, y, hblank, ⟨x, by rw [hsource, List.append_assoc], ?_⟩, hu.symm⟩
  rwa [Nat.zero_add] at hx

/-- Two words that are neighbours stand with a blank between them. -/
theorem gap_of_words {t u : Token} (h : [t, u] <:+: scan source) (ht : t.kind.isInner = true) (hu : u.kind.isInner = true)
    (htword : IsWord t.text) (huword : IsWord u.text) :
    ∃ gap, Blank gap ∧ gap ≠ [] ∧ StandsAt source t.place.offset (t.text.toList ++ (gap ++ u.text.toList)) := by
  obtain ⟨gap, behind, hblank, hgap, hoffset⟩ := gap_of_neighbours h
  obtain ⟨rest, hrest, hstops⟩ := scan_standsIn (h.subset List.mem_cons_self) (Kind.plain_of_isInner ht)
  obtain ⟨more, hmore, -⟩ := scan_standsIn (h.subset (List.mem_cons_of_mem t List.mem_cons_self)) (Kind.plain_of_isInner hu)
  obtain rfl : rest = gap ++ behind := hrest.behind.unique hgap
  rw [hoffset] at hmore
  obtain rfl : behind = u.text.toList ++ more := hgap.behind.unique hmore
  refine ⟨gap, hblank, ?_, more, ?_⟩
  · rintro rfl
    obtain ⟨c, cs, hcs, hc, -⟩ := huword.uncons
    have hnone : isWordChar c = false := hstops ht htword c (by rw [hcs]; rfl)
    cases hc.symm.trans hnone
  · simpa only [List.append_assoc] using hrest

/-! ## Texts -/

def TextsApart (ts : List Token) : Prop := ∀ t u, [t, u] <:+: ts → ¬(t.kind = .text ∧ u.kind = .text)

theorem textsApart_singleton (t : Token) : TextsApart [t] := by
  intro u v h
  have := h.length_le
  simp at this

theorem TextsApart.cons {t : Token} {ts : List Token} (h : TextsApart ts)
    (ht : t.kind = .text → ∀ u ∈ ts.head?, u.kind ≠ .text) : TextsApart (t :: ts) := by
  rintro u v huv ⟨hu, hv⟩
  rcases List.infix_cons_iff.1 huv with hfirst | hbehind
  · obtain ⟨rfl, rest, rfl⟩ := List.cons_prefix_cons.1 hfirst
    exact ht hu v rfl hv
  · exact h u v hbehind ⟨hu, hv⟩

theorem Scans.head_ne_text {p : Place} {cs : List Char} {ts : List Token} (h : Scans .text p cs ts)
    (hcs : ∀ c ∈ cs.head?, c = '{') : ∀ t ∈ ts.head?, t.kind ≠ .text := by
  intro t ht
  cases h with
  | done | stray =>
    obtain rfl := Option.some.inj ht
    exact Kind.noConfusion
  | text cs hne hplain =>
    obtain ⟨c, more, rfl⟩ := List.exists_cons_of_ne_nil hne
    exact absurd (hcs c rfl) (hplain c List.mem_cons_self)
  | opening d =>
    obtain rfl := Option.some.inj ht
    cases d <;> exact Kind.noConfusion

theorem Scans.textsApart {zone : Zone} {p : Place} {cs : List Char} {ts : List Token} (h : Scans zone p cs ts) :
    TextsApart ts := by
  induction h with
  | done | stray | fault => exact textsApart_singleton _
  | text _ _ _ hrest tail ih => exact ih.cons fun _ => tail.head_ne_text hrest
  | opening d _ ih | closing d _ ih =>
    refine ih.cons fun htext => ?_
    cases d <;> cases htext
  | blank _ _ ih => exact ih
  | lexeme _ hpiece _ ih =>
    refine ih.cons ?_
    rintro rfl
    cases (pieceAt_eq_lexeme hpiece).2.2.1

/-! ## Names and keywords -/

theorem scan_isLexeme {t : Token} (h : t ∈ scan source) (ht : t.kind.isInner = true) : t.IsLexeme :=
  (scans_scan source).isLexeme t h ht

theorem scan_isName {t : Token} (h : t ∈ scan source) (ht : t.kind = .identifier) : IsName t.text := by
  have hlexeme := scan_isLexeme h (by rw [ht]; rfl)
  rw [Token.IsLexeme, ht] at hlexeme
  generalize hcs : t.text.toList = cs at hlexeme
  cases hlexeme with
  | keyword h => simp at h
  | name h =>
    rw [String.toList_inj.1 hcs]
    exact h

theorem Kind.isInner_of_keyword {kind : Kind} (h : kind ∈ [blockWord, ifWord, elseWord, elifWord]) :
    kind.isInner = true := by
  have hall : ∀ k ∈ [blockWord, ifWord, elseWord, elifWord], k.isInner = true := by decide
  exact hall kind h

theorem scan_keyword {t : Token} (h : t ∈ scan source) {kind : Kind} (ht : t.kind = kind)
    (hkind : kind ∈ [Kind.blockWord, .ifWord, .elseWord, .elifWord]) : t.text = kind.label := by
  subst ht
  have hlexeme := scan_isLexeme h (Kind.isInner_of_keyword hkind)
  rw [Token.IsLexeme] at hlexeme
  generalize hcs : t.text.toList = cs at hlexeme
  generalize t.kind = kind at hlexeme hkind
  cases hlexeme with
  | keyword => exact String.toList_inj.1 hcs
  | number | string | bool | name | field | comparison | assign | pipe | leftParen | rightParen | char => simp at hkind

end Stencil
