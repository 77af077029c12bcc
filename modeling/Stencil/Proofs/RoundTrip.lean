import Stencil.Json.Template
import Stencil.Proofs.Concatenation
import Stencil.Proofs.Conservative
import Stencil.Proofs.Enclosing
/-!
# Templates written as JSON and read back

A template loses its tags when it is written, so reading it back reads its source without any.  That reading and the first
one part where the first one handed a tag to a program, and are the same if there is no such place.
-/
namespace Stencil
namespace Template

theorem read_eq (name source : String) (tags : Catalog) : read name source tags =
    (match (Transcript.ofTokens tags (scan source)).fault with
      | none => .ok ⟨name, source, ((Draft.fresh name tags).parse source).1⟩
      | some f => .error (.parse f), ((Draft.fresh name tags).parse source).2) := by
  have htranscript : ((Draft.fresh name tags).parse source).2.transcript = Transcript.ofTokens tags (scan source) :=
    Draft.transcript_scan _ _
  unfold read
  rw [← htranscript]
  rcases (Draft.fresh name tags).parse source with ⟨draft, report⟩
  cases hfault : report.transcript.fault <;> simp only [hfault]

theorem decode_encode_eq (t : Template) : decode t.encode =
    match (read t.name t.source .empty).1 with
    | .ok t => .ok t
    | .error f => .error (.source f) := rfl

theorem renderWhile_congr {d d' : Draft} (hname : d'.name = d.name) (hroot : d'.root = d.root)
    (hparsed : d'.parsed = d.parsed) (leave : Nat → Bool) : d'.renderWhile leave = d.renderWhile leave := by
  rw [Draft.renderWhile, Draft.renderWhile, Draft.nodes, Draft.nodes, hname, hroot, hparsed]

/-- **A template is read back just if no tag was handed to a program while it was read.**  It then has the same name, source
and nodes, and comes out the same with any leave.  If a tag was, it is said of the first one that it is not known. -/
theorem decode_encode {name source : String} {tags : Catalog} {t : Template} (h : (read name source tags).1 = .ok t) :
    ((∃ t', decode t.encode = .ok t') ↔ (read name source tags).2.transcript.dispatches = []) ∧
    (∀ t', decode t.encode = .ok t' → t'.name = t.name ∧ t'.source = t.source ∧ t'.draft.root = t.draft.root ∧
      ∀ leave, t'.renderWhile leave = t.renderWhile leave) ∧
    ∀ first rest, (read name source tags).2.transcript.dispatches = first :: rest → ∃ r, decode t.encode = .error r ∧
      r.message? = some ("Failed to parse template: " ++ (first.fault (.unknownTag first.text)).message) := by
  obtain ⟨hfault, rfl⟩ := read_eq_ok_iff.1 h
  have hdecode := decode_encode_eq ⟨name, source, ((Draft.fresh name tags).parse source).1⟩
  rw [read_eq] at hdecode
  rw [Draft.transcript_scan] at hfault
  rw [read_eq, Draft.transcript_scan]
  rcases transcript_parts tags (scan source) with ⟨first, rest, hfirst, -, hunknown⟩ | ⟨hnone, hsame⟩
  · rw [hunknown] at hdecode
    rw [hdecode]
    have hfirst' : (Transcript.ofTokens (Draft.fresh name tags).tags (scan source)).dispatches = first :: rest := hfirst
    rw [hfirst']
    refine ⟨⟨?_, fun h => by cases h⟩, fun t' h => (by cases h), fun first' rest' h => ?_⟩
    · rintro ⟨t', h⟩
      cases h
    · cases h
      exact ⟨_, rfl, rfl⟩
  · have hfault' : (Transcript.ofTokens .empty (scan source)).fault = none := hsame ▸ hfault
    rw [hfault'] at hdecode
    rw [hdecode]
    refine ⟨⟨fun _ => hnone, fun _ => ⟨_, rfl⟩⟩, fun t' h => ?_, fun first rest h => ?_⟩
    · cases h
      have hroot : ((Draft.fresh name .empty).parse source).1.root = ((Draft.fresh name tags).parse source).1.root := by
        rw [Draft.root_scan, Draft.root_scan]
        exact congrArg Transcript.root hsame.symm
      refine ⟨rfl, rfl, hroot, renderWhile_congr rfl hroot ?_⟩
      rw [Draft.parsed_scan, Draft.parsed_scan]
      exact congrArg (·.fault.isNone) hsame.symm
    · cases hnone.symm.trans h

theorem decode_encode_both :
    (∃ t t', (read "t" titled captious).1 = .ok t ∧ decode t.encode = .ok t' ∧ t'.draft.root = t.draft.root) ∧
      ∃ t r, (read "t" annotated annotating).1 = .ok t ∧ decode t.encode = .error r ∧
        r.message? = some "Failed to parse template: Parse error at line 1, column 4: Unknown tag 'note'" := by
  constructor
  · have hfault : (Transcript.ofTokens .empty (scan titled)).fault = none := by
      rw [← Draft.transcript_parse (d := .fresh "t" .empty) rfl]
      exact accepts_titled.1
    obtain ⟨hsame, hidle⟩ := @transcript_conservative captious (scan titled) fun place name h => by
      cases hfault.symm.trans h
    have hread : (read "t" titled captious).1 = .ok ⟨"t", titled, ((Draft.fresh "t" captious).parse titled).1⟩ := by
      rw [read_eq, hsame, hfault]
    obtain ⟨hiff, hback, -⟩ := decode_encode hread
    obtain ⟨t', ht'⟩ := hiff.2 (by
      rw [read_eq, Draft.transcript_scan]
      exact filterMap_dispatched?_eq_nil_iff.2 hidle)
    exact ⟨_, t', hread, ht', (hback t' ht').2.2.1⟩
  · have hfault : (Transcript.ofTokens annotating (scan annotated)).fault = none := by
      rw [scan_annotated]
      exact (Layout.transcript_of_serves serves_annotating rfl (by decide) derives_annotated).1
    have hunknown : (Transcript.ofTokens .empty (scan annotated)).fault = some ⟨⟨3, 1, 4⟩, .unknownTag "note"⟩ := by
      rw [scan_annotated]
      decide +kernel
    have hread : (read "t" annotated annotating).1 =
        .ok ⟨"t", annotated, ((Draft.fresh "t" annotating).parse annotated).1⟩ := by
      rw [read_eq, hfault]
    rcases transcript_parts annotating (scan annotated) with ⟨first, rest, hfirst, -, hsome⟩ | ⟨-, hsame⟩
    · obtain ⟨r, hr, hmessage⟩ := (decode_encode hread).2.2 first rest (by rw [read_eq, Draft.transcript_scan]; exact hfirst)
      refine ⟨_, r, hread, hr, ?_⟩
      rw [hmessage, Option.some.inj (hsome.symm.trans hunknown)]
      rfl
    · rw [hsame, hunknown] at hfault
      cases hfault

end Template
end Stencil
