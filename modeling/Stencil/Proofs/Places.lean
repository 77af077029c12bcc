import Mathlib.Data.List.DropRight
import Stencil.Proofs.Relocation
import Stencil.Proofs.Sources
/-!
# Where tokens and faults stand

A scan keeps its place as it reads, a character at a time.  The same place can be told from what comes before it, all at
once: its offset is the number of bytes, its line one more than the line feeds, its column one more than the bytes behind
the last line feed (`Place.origin_after`).  Every token stands at a place of its source in this sense, ends and errors
among them.

A fault stands where a token does.  Reading never makes up a place: whatever holds of the place of every token, and of the
start of a source, holds of the place of a fault (`place_of_fault`).
-/
namespace Stencil

/-! ## Places, told from what comes before -/

/-- The characters behind the last line feed; all of them, if there is none. -/
def lastLine (cs : List Char) : List Char := cs.rtakeWhile (· != '\n')

theorem lastLine_concat (cs : List Char) (c : Char) :
    lastLine (cs ++ [c]) = if c = '\n' then [] else lastLine cs ++ [c] := by
  rw [lastLine, List.rtakeWhile_concat]
  by_cases hc : c = '\n' <;> simp [hc, lastLine]

theorem lastLine_append (as cs : List Char) :
    lastLine (as ++ cs) = if '\n' ∈ cs then lastLine cs else lastLine as ++ cs := by
  induction cs using List.reverseRecOn with
  | nil => simp
  | append_singleton cs c ih =>
    rw [← List.append_assoc, lastLine_concat, lastLine_concat, ih]
    by_cases hc : c = '\n'
    · simp [hc]
    · have hmem : '\n' ∈ cs ++ [c] ↔ '\n' ∈ cs := by simp [Ne.symm hc]
      simp only [if_neg hc, hmem]
      split
      · rfl
      · exact List.append_assoc ..

theorem lastLine_of_notMem {cs : List Char} (h : '\n' ∉ cs) : lastLine cs = cs := by
  have happend := lastLine_append [] cs
  rwa [List.nil_append, if_neg h] at happend

/-- A place that a source comes to: its offset lies between two characters, and its line and column count what comes
before it. -/
def Place.Within (p : Place) (source : String) : Prop :=
  ∃ before behind, source.toList = before ++ behind ∧ p.offset = byteLength before ∧
    p.line = 1 + before.count '\n' ∧ p.column = 1 + byteLength (lastLine before)

/-- Reading some characters from the start of a source comes to the place that they tell. -/
theorem Place.origin_after (cs : List Char) :
    origin.after cs = ⟨byteLength cs, 1 + cs.count '\n', 1 + byteLength (lastLine cs)⟩ := by
  induction cs using List.reverseRecOn with
  | nil => rfl
  | append_singleton cs c ih =>
    rw [after_append, ih, after_cons, after_nil, next, lastLine_concat, List.count_append]
    by_cases hc : c = '\n'
    · subst hc
      simp [Nat.add_assoc]
      rfl
    · simp [hc, Nat.add_assoc]

theorem Place.within_after {source : String} {before behind : List Char} (h : source.toList = before ++ behind) :
    (origin.after before).Within source := by
  rw [origin_after]
  exact ⟨before, behind, h, rfl, rfl, rfl⟩

theorem Place.Within.offset_le {p : Place} {source : String} (h : p.Within source) : p.offset ≤ source.utf8ByteSize := by
  obtain ⟨before, behind, hsource, hoffset, -, -⟩ := h
  rw [hoffset, ← byteLength_toList, hsource, byteLength_append]
  exact Nat.le_add_right _ _

/-! ## The places of a scan -/

/-- Every token of a scan stands where some of what the scan has before it has been read. -/
theorem Scans.exists_after {zone : Zone} {p : Place} {cs : List Char} {ts : List Token} (h : Scans zone p cs ts) :
    ∀ t ∈ ts, ∃ before behind, cs = before ++ behind ∧ t.place = p.after before := by
  have step : ∀ {p : Place} (read : List Char) {rest : List Char} {ts : List Token},
      (∀ t ∈ ts, ∃ before behind, rest = before ++ behind ∧ t.place = (p.after read).after before) →
      ∀ t ∈ ts, ∃ before behind, read ++ rest = before ++ behind ∧ t.place = p.after before := by
    intro p read rest ts ih t ht
    obtain ⟨before, behind, rfl, hplace⟩ := ih t ht
    exact ⟨read ++ before, behind, (List.append_assoc ..).symm, by rw [hplace, Place.after_append]⟩
  have here : ∀ (p : Place) (cs : List Char), ∃ before behind, cs = before ++ behind ∧ p = p.after before :=
    fun p cs => ⟨[], cs, rfl, rfl⟩
  induction h with
  | done | stray | fault => exact List.forall_mem_singleton.2 (here _ _)
  | text cs _ _ _ _ ih => exact List.forall_mem_cons.2 ⟨here _ _, step cs ih⟩
  | opening d _ ih => exact List.forall_mem_cons.2 ⟨here _ _, step d.openText ih⟩
  | @blank _ _ c _ _ _ _ ih => exact step [c] ih
  | lexeme cs _ _ ih => exact List.forall_mem_cons.2 ⟨here _ _, step cs ih⟩
  | closing d _ ih => exact List.forall_mem_cons.2 ⟨here _ _, step d.closeText ih⟩

theorem place_of_mem_scan {source : String} {t : Token} (ht : t ∈ scan source) : t.place.Within source := by
  obtain ⟨before, behind, hsource, hplace⟩ := (scans_scan source).exists_after t ht
  rw [hplace]
  exact Place.within_after hsource

theorem exists_mem_scan_origin (source : String) : ∃ t ∈ scan source, t.place = .origin := by
  have h := scans_scan source
  generalize scan source = ts at h
  generalize source.toList = cs at h
  cases h with
  | done | text | opening | stray => exact ⟨_, List.mem_cons_self, rfl⟩

/-! ## The places of faults -/

theorem place_of_fault {P : Place → Prop} {ts : List Token} (hts : ∀ t ∈ ts, P t.place) (h0 : P .origin) {f : ParseFault}
    (h : (Transcript.ofTokens .empty ts).fault = some f) : P f.place := by
  have hsame : List.Forall₂ (Token.Alike fun p q => p = q ∧ P p) ts ts :=
    List.forall₂_same.2 fun t ht => ⟨rfl, rfl, rfl, hts t ht⟩
  obtain ⟨-, ⟨hnone, -⟩ | ⟨e, e', he, -, halike⟩⟩ := transcript_alike hsame ⟨rfl, h0⟩
  · cases h.symm.trans hnone
  · cases h.symm.trans he
    exact halike.place.2

/-- **Every token of a source, its end or its error among them, stands where its place says**: between two characters, on
the line and in the column that the characters before it count to.  **And a draft without tags of its own that finds a
fault in the source finds it at the place of one of these tokens.** -/
theorem Draft.places_of_parse (source : String) :
    (∀ t ∈ scan source, t.place.offset ≤ source.utf8ByteSize ∧ t.place.Within source) ∧
      ∀ (d : Draft) (f : ParseFault), d.tags = .empty → (d.parse source).2.transcript.fault = some f →
        ∃ t ∈ scan source, f.place = t.place := by
  refine ⟨fun t ht => ?_, fun d f hd hf => ?_⟩
  · have h := place_of_mem_scan ht
    exact ⟨h.offset_le, h⟩
  · rw [transcript_parse hd] at hf
    obtain ⟨t, ht, hplace⟩ := exists_mem_scan_origin source
    exact place_of_fault (P := fun p => ∃ t ∈ scan source, p = t.place) (fun t ht => ⟨t, ht, rfl⟩) ⟨t, ht, hplace.symm⟩ hf

def unended : String := "é\n\x7b% block"

theorem scan_unended : scan unended =
    [⟨.text, "é\n", ⟨0, 1, 1⟩⟩, ⟨.tagStart, "\x7b%", ⟨3, 2, 1⟩⟩, ⟨.blockWord, "block", ⟨6, 2, 4⟩⟩,
      ⟨.error, "unclosed action", ⟨11, 2, 9⟩⟩] := by
  have h : Scans .text .origin unended.toList _ :=
    .run "é\n".toList rfl <| .opening .tag <| .blank rfl <| .lexeme "block".toList rfl <| .fault (f := .unclosed) rfl
  exact h.eq_scan.symm

theorem fault_unended : ((Draft.fresh "t" .empty).parse unended).2.transcript.fault =
    some ⟨⟨11, 2, 9⟩, .lexical "unclosed action"⟩ := by
  rw [Draft.transcript_parse rfl, scan_unended]
  rfl

theorem Draft.places_of_unended :
    ((Draft.fresh "t" .empty).parse unended).2.transcript.fault = some ⟨⟨11, 2, 9⟩, .lexical "unclosed action"⟩ ∧
      (∀ t ∈ scan unended, t.place.Within unended) ∧ ∃ t ∈ scan unended, (⟨11, 2, 9⟩ : Place) = t.place := by
  obtain ⟨htokens, hfaults⟩ := places_of_parse unended
  exact ⟨fault_unended, fun t ht => (htokens t ht).2, hfaults _ _ rfl fault_unended⟩

end Stencil
