import Stencil.Proofs.Concatenation
import Stencil.Proofs.Items
import Stencil.Proofs.Places
/-!
# Faults behind other text

A source that is accepted may be put before one that is not, and the fault stays what it was.  It stands further on, by
the bytes and lines of the first source, and on its first line also by the bytes of the line that the first source ends
with (`Place.behind`).

The items of the first source are complete, so they are read to their nodes and leave the rest to be read as a template of
its own (`exists_behind`), and that goes the way of the second source, whose tokens stand in other places
(`Reading.template_alike`).  At the seam two texts may have become one; then that one is the last of the complete items,
and the first text of the second source is a complete item there.
-/
namespace Stencil

open Layout

/-! ## Places behind other text -/

/-- The place in a source that comes to stand behind the source `a`. -/
def Place.behind (p : Place) (a : String) : Place :=
  ⟨p.offset + a.utf8ByteSize, p.line + a.toList.count '\n',
    if p.line = 1 then p.column + byteLength (lastLine a.toList) else p.column⟩

theorem Place.after_behind (a : String) (cs : List Char) :
    origin.after (a.toList ++ cs) = (origin.after cs).behind a := by
  rw [origin_after, origin_after, behind, byteLength_append, byteLength_toList, List.count_append, lastLine_append]
  by_cases h : '\n' ∈ cs
  · have hline : ¬1 + cs.count '\n' = 1 := by
      have := List.count_pos_iff.2 h
      omega
    simp only [if_pos h, if_neg hline, Place.mk.injEq, and_true]
    omega
  · have hline : 1 + cs.count '\n' = 1 := by rw [List.count_eq_zero.2 h]
    simp only [if_neg h, if_pos hline, lastLine_of_notMem h, byteLength_append, Place.mk.injEq]
    omega

/-- Two places at which the same has been read, once from the start of a source and once behind `a`. -/
def Shifted (a : String) (p q : Place) : Prop := ∃ cs, p = Place.origin.after cs ∧ q = Place.origin.after (a.toList ++ cs)

theorem Shifted.start (a : String) : Shifted a .origin (Place.origin.after a.toList) :=
  ⟨[], rfl, by rw [List.append_nil]⟩

theorem Shifted.next {a : String} (p q : Place) (c : Char) (h : Shifted a p q) : Shifted a (p.next c) (q.next c) := by
  obtain ⟨cs, rfl, rfl⟩ := h
  refine ⟨cs ++ [c], (Place.after_append _ cs [c]).symm, ?_⟩
  rw [← List.append_assoc]
  exact (Place.after_append _ (a.toList ++ cs) [c]).symm

theorem Shifted.eq_behind {a : String} {p q : Place} (h : Shifted a p q) : q = p.behind a := by
  obtain ⟨cs, rfl, rfl⟩ := h
  exact Place.after_behind a cs

/-! ## Faults behind complete items -/

section Behind

variable {R : Place → Place → Prop} {ts us : List Token} {e : ParseFault}

/-- Where a token is to be taken from the source, it does not matter what was taken last. -/
theorem template_of_last (n : Nat) {p : Progress} {t : Token} (hfront : p.feed.front = []) (hsource : p.feed.source = t :: ts)
    (last : Place) :
    Reading.template .empty (n + 1) { p with feed := { p.feed with last := last } } = Reading.template .empty (n + 1) p := by
  obtain ⟨⟨front, source, last', ended, asked⟩, journal⟩ := p
  obtain rfl : front = [] := hfront
  obtain rfl : source = t :: ts := hsource
  rfl

theorem fault_of_alike {ns ms : List Node} {o o' : Outcome Unit} (h : o.Alike R (fun _ _ => True) o')
    (he : (Transcript.ofEnding (ns, o)).fault = some e) :
    ∃ e', (Transcript.ofEnding (ms, o')).fault = some e' ∧ e.Alike R e' := by
  cases h with
  | done => cases he
  | failed h =>
    cases he
    exact ⟨_, rfl, h⟩
  | exhausted hfeed =>
    cases he
    exact ⟨_, rfl, hfeed.last, rfl⟩

theorem fault_behind {is js : List (Item [])} (his : Complete is) (hisPlain : Plain (tokensOf is)) (hjs : Complete js)
    (hjsPlain : Plain (tokensOf js)) (hts : List.Forall₂ (Token.Alike R) ts us) (hne : ts ≠ [])
    (he : (Transcript.ofTokens .empty (tokensOf is ++ ts)).fault = some e) :
    ∃ e', (Transcript.ofTokens .empty (tokensOf js ++ us)).fault = some e' ∧ e.Alike R e' := by
  obtain ⟨n, hn, hm⟩ : ∃ n, (tokensOf is ++ ts).length + 1 < n + 1 ∧ (tokensOf js ++ us).length + 1 < n + 1 :=
    ⟨(tokensOf is ++ ts).length + (tokensOf js ++ us).length + 1, by omega, by omega⟩
  obtain ⟨p, hp, hi⟩ := exists_behind his hisPlain hn
  obtain ⟨q, hq, hj⟩ := exists_behind hjs hjsPlain hm
  rw [hi] at he
  rw [hj]
  cases hts with
  | nil => exact absurd rfl hne
  | @cons t u ts us ht hts =>
    rw [← template_of_last n hp.front hp.source t.place] at he
    rw [← template_of_last n hq.front hq.source u.place]
    have hfeeds : Feed.Alike R { p.feed with last := t.place } { q.feed with last := u.place } := by
      refine ⟨?_, ?_, ht.place, hq.ended.trans hp.ended.symm⟩
      · rw [hp.front, hq.front]
        exact .nil
      · rw [hp.source, hq.source]
        exact .cons ht hts
    exact fault_of_alike (Reading.template_alike (n + 1) { p with feed := _ } { q with feed := _ } hfeeds).2 he

end Behind

/-! ## Sources -/

/-- Behind a source that is accepted a source has the fault that it has alone, further on. -/
theorem fault_append {a b : String} (ha : (Transcript.ofTokens .empty (scan a)).fault = none)
    (hvar : ∀ t ∈ scan a, t.kind ≠ .varEnd) {f : ParseFault} (hf : (Transcript.ofTokens .empty (scan b)).fault = some f) :
    ∃ f', (Transcript.ofTokens .empty (scan (a ++ b))).fault = some f' ∧ f.Alike (Shifted a) f' := by
  obtain ⟨us, e, hsa, he, hus⟩ := closed_of_transcript Catalog.neverPutsBack_empty ha
  have hends := tagsEnd_of_scan hsa he hvar
  obtain ⟨vs, last, hsb, -, hlast⟩ := exists_scan b
  obtain ⟨ws, hscan, halike⟩ := exists_scan_behind Shifted.next (Shifted.start a) hsa he b
  rw [hsa] at ha
  rw [hsb] at hf halike
  obtain ⟨is, his, -⟩ := layout_of_transcript he hus ha
  rw [hscan]
  rcases seam_cases us ws with h | ⟨us, t, w, ws, rfl, rfl, ht, hw, h⟩
  · obtain rfl := his.spells
    rw [h]
    exact fault_behind complete_nil plain_nil (his.complete hends) hus halike (by simp) hf
  · -- The first text of the second source is one with the last of the first, and is a complete item here as there.
    obtain ⟨is, rfl, his'⟩ := his.exists_last hends ht
    have hends' : TagsEnd us := hends.of_concat (by rw [ht]; decide)
    obtain rfl := his'.spells
    have hmerged : tokensOf (is ++ [.text ⟨t.merge w, rfl⟩]) = tokensOf is ++ [t.merge w] := tokensOf_append is _
    rw [h]
    generalize hts : vs ++ [last] = ts at hf halike
    cases halike with
    | @cons v _ ts _ hv hrest =>
      have hvk : v.kind = .text := hv.kind.symm.trans hw
      have hne : ts ≠ [] := by
        rintro rfl
        obtain ⟨-, rfl⟩ := last_of_singleton hts
        rcases hlast with hk | hk <;> cases hvk.symm.trans hk
      have hbehind := fault_behind (complete_nil.concat_text ⟨v, hvk⟩) (plain_text hvk)
        ((his'.complete hends').concat_text ⟨t.merge w, rfl⟩)
        (hmerged ▸ plain_append (fun u hu => hus u (List.mem_append_left _ hu)) (plain_text rfl)) hrest hne hf
      rwa [hmerged, List.append_assoc] at hbehind

/-- **Faults shift with what stands before them.**  Behind a source that is accepted, if none of its tokens is '}}', a source
that is not has the same fault as alone, by as many bytes and lines further on as the first source has, and if it is on
the first line of its source also by the bytes that the first one has on its last line. -/
theorem Draft.fault_shifts (d : Draft) (hd : d.tags = .empty) (a b : String) (ha : (d.parse a).2.transcript.fault = none)
    (hvar : ∀ t ∈ scan a, t.kind ≠ .varEnd) (f : ParseFault) (hf : (d.parse b).2.transcript.fault = some f) :
    (d.parse (a ++ b)).2.transcript.fault = some ⟨f.place.behind a, f.cause⟩ := by
  rw [transcript_parse hd] at ha hf ⊢
  obtain ⟨⟨place, cause⟩, hfault, hplace, hcause⟩ := fault_append ha hvar hf
  rw [hfault, ← hplace.eq_behind, ← hcause]

def twoLines : String := "x\né"

theorem scan_twoLines : scan twoLines = [⟨.text, "x\né", ⟨0, 1, 1⟩⟩, ⟨.endOfInput, "", ⟨4, 2, 3⟩⟩] := by
  have h : Scans .text .origin twoLines.toList _ := .run "x\né".toList rfl (.done _)
  exact h.eq_scan.symm

def unendedInline : String := "y\x7b% block"

theorem scan_unendedInline : scan unendedInline =
    [⟨.text, "y", ⟨0, 1, 1⟩⟩, ⟨.tagStart, "\x7b%", ⟨1, 1, 2⟩⟩, ⟨.blockWord, "block", ⟨4, 1, 5⟩⟩,
      ⟨.error, "unclosed action", ⟨9, 1, 10⟩⟩] := by
  have h : Scans .text .origin unendedInline.toList _ :=
    .run "y".toList rfl <| .opening .tag <| .blank rfl <| .lexeme "block".toList rfl <| .fault (f := .unclosed) rfl
  exact h.eq_scan.symm

theorem Draft.fault_shifts_twoLines :
    ((fresh "t" .empty).parse twoLines).2.transcript.fault = none ∧ (∀ t ∈ scan twoLines, t.kind ≠ .varEnd) ∧
      ((fresh "t" .empty).parse unended).2.transcript.fault = some ⟨⟨11, 2, 9⟩, .lexical "unclosed action"⟩ ∧
      ((fresh "t" .empty).parse (twoLines ++ unended)).2.transcript.fault =
        some ⟨⟨15, 3, 9⟩, .lexical "unclosed action"⟩ ∧
      ((fresh "t" .empty).parse unendedInline).2.transcript.fault = some ⟨⟨9, 1, 10⟩, .lexical "unclosed action"⟩ ∧
      ((fresh "t" .empty).parse (twoLines ++ unendedInline)).2.transcript.fault =
        some ⟨⟨13, 2, 12⟩, .lexical "unclosed action"⟩ := by
  have haccepts : ((fresh "t" .empty).parse twoLines).2.transcript.fault = none := by
    rw [transcript_parse rfl, scan_twoLines]
    rfl
  have hvar : ∀ t ∈ scan twoLines, t.kind ≠ .varEnd := by
    rw [scan_twoLines]
    decide
  have hinline : ((fresh "t" .empty).parse unendedInline).2.transcript.fault =
      some ⟨⟨9, 1, 10⟩, .lexical "unclosed action"⟩ := by
    rw [transcript_parse rfl, scan_unendedInline]
    rfl
  exact ⟨haccepts, hvar, fault_unended, fault_shifts _ rfl twoLines unended haccepts hvar _ fault_unended, hinline,
    fault_shifts _ rfl twoLines unendedInline haccepts hvar _ hinline⟩

end Stencil
