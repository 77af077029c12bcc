import Stencil.Proofs.LayoutAppend
import Stencil.Proofs.Seam
import Stencil.Proofs.Texts
import Stencil.Json.Template
/-!
# Templates, one behind the other

A source that is accepted may be put before another that is, and what comes out is what comes out of the one, then of the
other.  The scan of the first goes on with the second (`Scans.append`), whose tokens then stand further on but are read to
the same nodes (`transcript_alike`); the layouts go one behind the other (`Layout.Derives.append`); and a node comes out the
same wherever it stands, and two texts as one come out as the one and the other.
-/
namespace Stencil

namespace Layout

variable {us vs : List Token} {is js : List (Item [])}

/-- The tokens of two layouts with a seam between them have a layout, which comes out as the one and then the other. -/
theorem Derives.seam (hi : Derives us is) (ht : TagsEnd us) (hj : Derives vs js) :
    ∃ ks : List (Item []), Derives (seam us vs) ks ∧
      ∀ leave, renderAll leave (nodesOf ks) = renderAll leave (nodesOf is ++ nodesOf js) := by
  rcases seam_cases us vs with h | ⟨us, t, v, vs, rfl, rfl, htext, hvtext, h⟩
  · refine ⟨is ++ js, ?_, fun leave => ?_⟩
    · rw [h]
      exact hi.append ht hj
    · rw [nodesOf_append]
  · obtain ⟨is, rfl, hi'⟩ := hi.exists_last ht htext
    obtain ⟨js, rfl, hj'⟩ := hj.exists_first hvtext
    have ht' : TagsEnd us := ht.of_concat (by rw [htext]; decide)
    have hm : Derives (t.merge v :: vs) (.text ⟨t.merge v, rfl⟩ :: js) :=
      ⟨congrArg (t.merge v :: ·) hj'.spells, trivial, hj'.fits⟩
    refine ⟨is ++ .text ⟨t.merge v, rfl⟩ :: js, ?_, fun leave => ?_⟩
    · rw [h]
      exact hi'.append ht' hm
    · rw [nodesOf_append, nodesOf_append]
      exact renderAll_merge leave _ _ _ _ _ _ _

end Layout

/-! ## Tokens in other places -/

section Alike

variable {R : Place → Place → Prop} {ts vs : List Token} {e : Token}

theorem exists_concat_of_alike (h : List.Forall₂ (Token.Alike R) (ts ++ [e]) vs) :
    ∃ us e', vs = us ++ [e'] ∧ List.Forall₂ (Token.Alike R) ts us ∧ e.Alike R e' := by
  induction ts generalizing vs with
  | nil =>
    cases h with
    | cons he hnil =>
      cases hnil
      exact ⟨[], _, rfl, .nil, he⟩
  | cons t ts ih =>
    cases h with
    | cons ht hts =>
      obtain ⟨us, e', rfl, hus, he⟩ := ih hts
      exact ⟨_ :: us, e', rfl, .cons ht hus, he⟩

theorem forall_kind_of_alike {P : Kind → Prop} (h : List.Forall₂ (Token.Alike R) ts vs) (hts : ∀ t ∈ ts, P t.kind) :
    ∀ v ∈ vs, P v.kind := by
  induction h with
  | nil => simp
  | cons ht _ ih =>
    obtain ⟨hp, hps⟩ := List.forall_mem_cons.1 hts
    exact List.forall_mem_cons.2 ⟨ht.kind ▸ hp, ih hps⟩

end Alike

/-! ## Sources -/

variable {a b : String}

theorem tagsEnd_of_scan {us : List Token} {e : Token} (hscan : scan a = us ++ [e]) (he : e.kind = .endOfInput)
    (hvar : ∀ t ∈ scan a, t.kind ≠ .varEnd) : Layout.TagsEnd us := by
  intro before o behind hus ho
  obtain ⟨inner, t, more, rfl, -, hend | hvarEnd⟩ := closing_behind_opener hscan he hus (.inl ho)
  · exact ⟨t, by simp, hend⟩
  · exact absurd hvarEnd (hvar t (by rw [hscan, hus]; simp))

/-- A source behind one that is scanned to its end delivers its tokens, in other places, behind the seam.  The places are
related by any `R` that relates the two starts and is kept from one character to the next. -/
theorem exists_scan_behind {R : Place → Place → Prop} (hnext : ∀ p q c, R p q → R (p.next c) (q.next c))
    (hstart : R .origin (Place.origin.after a.toList)) {us : List Token} {e : Token} (ha : scan a = us ++ [e])
    (he : e.kind = .endOfInput) (b : String) :
    ∃ ws, scan (a ++ b) = seam us ws ∧ List.Forall₂ (Token.Alike R) (scan b) ws := by
  obtain ⟨ws, hws, halike⟩ := (scans_scan b).relocate hnext hstart
  have hscan := (ha ▸ scans_scan a).append he hws
  rw [← String.toList_append] at hscan
  exact ⟨ws, hscan.eq_scan.symm, halike⟩

theorem exists_scan_append {us vs : List Token} {e f : Token} (ha : scan a = us ++ [e]) (he : e.kind = .endOfInput)
    (hb : scan b = vs ++ [f]) (hf : f.kind = .endOfInput) :
    ∃ ws g, scan (a ++ b) = seam us ws ++ [g] ∧ List.Forall₂ (Token.Alike fun _ _ => True) vs ws ∧
      f.Alike (fun _ _ => True) g := by
  obtain ⟨ts, hts, halike⟩ := exists_scan_behind (R := fun _ _ => True) (fun _ _ _ h => h) trivial ha he b
  rw [hb] at halike
  obtain ⟨ws, g, rfl, hws, hg⟩ := exists_concat_of_alike halike
  have hgk : g.kind ≠ .text := by
    rw [hg.kind, hf]
    decide
  exact ⟨ws, g, by rw [hts, seam_concat hgk], hws, hg⟩

/-- Tokens in other places have a layout where the tokens of a source do that is read, and it comes out the same. -/
theorem layout_of_alike {vs ws : List Token} {f g : Token} (hf : f.kind = .endOfInput)
    (hvs : ∀ t ∈ vs, t.kind ≠ .endOfInput ∧ t.kind ≠ .error) (h : (Transcript.ofTokens .empty (vs ++ [f])).fault = none)
    (hws : List.Forall₂ (Token.Alike fun _ _ => True) vs ws) (hg : f.Alike (fun _ _ => True) g) :
    ∃ js : List (Layout.Item []), Layout.Derives ws js ∧ ∀ leave,
      renderAll leave (Layout.nodesOf js) = renderAll leave (Transcript.ofTokens .empty (vs ++ [f])).root := by
  obtain ⟨hsame, hnone | ⟨e, -, he, -⟩⟩ := transcript_alike (List.rel_append hws (.cons hg .nil)) trivial
  · obtain ⟨js, hjs, hroot⟩ := Layout.layout_of_transcript (hg.kind.trans hf)
      (forall_kind_of_alike (P := fun k => k ≠ .endOfInput ∧ k ≠ .error) hws hvs) hnone.2
    refine ⟨js, hjs, fun leave => ?_⟩
    rw [← hroot]
    exact (renderAll_of_unplacedAll_eq leave hsame).symm
  · cases h.symm.trans he

theorem transcript_append (ha : (Transcript.ofTokens .empty (scan a)).fault = none)
    (hb : (Transcript.ofTokens .empty (scan b)).fault = none) (hvar : ∀ t ∈ scan a, t.kind ≠ .varEnd) :
    (Transcript.ofTokens .empty (scan (a ++ b))).fault = none ∧
      ∀ leave, renderAll leave (Transcript.ofTokens .empty (scan (a ++ b))).root = do
        return (← renderAll leave (Transcript.ofTokens .empty (scan a)).root) ++
          (← renderAll leave (Transcript.ofTokens .empty (scan b)).root) := by
  obtain ⟨us, e, hsa, he, hus⟩ := closed_of_transcript Catalog.neverPutsBack_empty ha
  obtain ⟨vs, f, hsb, hf, hvs⟩ := closed_of_transcript Catalog.neverPutsBack_empty hb
  obtain ⟨ws, g, hsab, hws, hg⟩ := exists_scan_append hsa he hsb hf
  have hends := tagsEnd_of_scan hsa he hvar
  rw [hsa] at ha ⊢
  rw [hsb] at hb ⊢
  obtain ⟨is, his, hroot⟩ := Layout.layout_of_transcript he hus ha
  obtain ⟨js, hjs, hjsOut⟩ := layout_of_alike hf hvs hb hws hg
  obtain ⟨ks, hks, hksOut⟩ := his.seam hends hjs
  have hplain : ∀ t ∈ seam us ws, t.kind ≠ .endOfInput ∧ t.kind ≠ .error := by
    obtain ⟨ts, last, hts, hplain, -⟩ := exists_scan (a ++ b)
    obtain ⟨hseam, -⟩ := List.append_inj' (hsab.symm.trans hts) rfl
    rwa [hseam]
  obtain ⟨hfault, hksRoot⟩ := Layout.transcript_of_layout (Layout.serves_nil .empty) (hg.kind.trans hf) hplain hks
  rw [hsab]
  refine ⟨hfault, fun leave => ?_⟩
  rw [hksRoot, hksOut, renderAll_append, hjsOut, hroot]

/-! ## Templates -/

namespace Template

theorem read_eq_ok_iff {name source : String} {tags : Catalog} {t : Template} :
    (read name source tags).1 = .ok t ↔
      ((Draft.fresh name tags).parse source).2.transcript.fault = none ∧
        t = ⟨name, source, ((Draft.fresh name tags).parse source).1⟩ := by
  unfold read
  cases h : ((Draft.fresh name tags).parse source).2.transcript.fault with
  | none => simp [h, eq_comm]
  | some f => simp [h]

theorem exists_read_iff (name source : String) : (∃ t, (read name source .empty).1 = .ok t) ↔
    (Transcript.ofTokens .empty (scan source)).fault = none := by
  constructor
  · rintro ⟨t, h⟩
    have hfault := (read_eq_ok_iff.1 h).1
    rwa [Draft.transcript_parse rfl] at hfault
  · intro h
    refine ⟨_, read_eq_ok_iff.2 ⟨?_, rfl⟩⟩
    rw [Draft.transcript_parse rfl, h]

theorem render_of_read {name source : String} {t : Template} (h : (read name source .empty).1 = .ok t) (leave : Bool) :
    t.render leave = renderAll leave (Transcript.ofTokens .empty (scan source)).root := by
  have hfault := (exists_read_iff name source).1 ⟨t, h⟩
  obtain ⟨-, rfl⟩ := read_eq_ok_iff.1 h
  rw [render, Draft.render, Draft.nodes, Draft.parse, Draft.parsed_parseSupply, Draft.root_parseSupply,
    Supply.tokens_ofScan, show (Draft.fresh name .empty).tags = .empty from rfl, hfault]
  rfl

/-- **Rendering a source made of two gives what the one comes out as, then the other**, or the fault of the first, or else
that of the second.  Both must be accepted, and the first must not have a '}}' in it, which would let a tag that closes a
body go on into the second. -/
theorem render_append (name₁ name₂ name₃ : String) {a b : String} {ta tb : Template}
    (ha : (read name₁ a .empty).1 = .ok ta) (hb : (read name₂ b .empty).1 = .ok tb)
    (hvar : ∀ t ∈ scan a, t.kind ≠ .varEnd) : ∃ t, (read name₃ (a ++ b) .empty).1 = .ok t ∧
      ∀ leave, t.render leave = do return (← ta.render leave) ++ (← tb.render leave) := by
  have hta := (exists_read_iff name₁ a).1 ⟨ta, ha⟩
  have htb := (exists_read_iff name₂ b).1 ⟨tb, hb⟩
  obtain ⟨hfault, hout⟩ := transcript_append hta htb hvar
  obtain ⟨t, ht⟩ := (exists_read_iff name₃ (a ++ b)).2 hfault
  refine ⟨t, ht, fun leave => ?_⟩
  rw [render_of_read ht, hout, render_of_read ha, render_of_read hb]

theorem render_titled_append :
    ∃ ta tb t, (read "a" titled .empty).1 = .ok ta ∧ (read "b" "z" .empty).1 = .ok tb ∧
      (∀ u ∈ scan titled, u.kind ≠ .varEnd) ∧ (read "c" (titled ++ "z") .empty).1 = .ok t ∧
        t.render true = .ok "xyz" := by
  obtain ⟨hfault, hroot⟩ := accepts_titled
  rw [Draft.transcript_parse rfl] at hfault
  rw [Draft.root_parse rfl] at hroot
  have hscan : scan "z" = [⟨.text, "z", .origin⟩] ++ [⟨.endOfInput, "", ⟨1, 1, 2⟩⟩] :=
    (Scans.eq_scan (.run ['z'] rfl (.done _))).symm
  have hlayout : Layout.Derives [⟨.text, "z", .origin⟩] ([.text (.of ⟨.text, "z", .origin⟩)] : List (Layout.Item [])) :=
    ⟨rfl, trivial, trivial⟩
  obtain ⟨hzFault, hzRoot⟩ := Draft.parse_of_layout (d := .fresh "b" .empty) rfl hscan rfl (by decide) hlayout
  rw [Draft.transcript_parse rfl] at hzFault
  rw [Draft.root_parse rfl] at hzRoot
  obtain ⟨ta, ha⟩ := (exists_read_iff "a" titled).2 hfault
  obtain ⟨tb, hb⟩ := (exists_read_iff "b" "z").2 hzFault
  have hvar : ∀ u ∈ scan titled, u.kind ≠ .varEnd := by
    rw [scan_titled]
    decide
  obtain ⟨t, ht, hout⟩ := render_append "a" "b" "c" ha hb hvar
  refine ⟨ta, tb, t, ha, hb, hvar, ht, ?_⟩
  rw [hout, render_of_read ha, render_of_read hb, hroot, hzRoot]
  rfl

end Template
end Stencil
