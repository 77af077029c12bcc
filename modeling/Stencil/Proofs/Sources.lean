import Stencil.Proofs.Acceptance
import Stencil.Proofs.Keeps
import Stencil.Proofs.Tiling
/-!
# Sources that are accepted

A source that is read without a fault was scanned to its end, and its tokens have a layout.
-/
namespace Stencil

open Layout

theorem exists_scan (source : String) : ∃ us last, scan source = us ++ [last] ∧
    (∀ t ∈ us, t.kind ≠ .endOfInput ∧ t.kind ≠ .error) ∧ (last.kind = .endOfInput ∨ last.kind = .error) := by
  obtain ⟨us, last, -, -, behind, hts, hproper, hlast, -⟩ := (scans_scan source).tiles.woven
  refine ⟨us, last, hts, fun t ht => (hproper t ht).plain, ?_⟩
  rcases hlast with ⟨hk, -⟩ | hk
  · exact .inl hk
  · exact .inr hk

/-- What is read without a fault was scanned to its end. -/
theorem closed_of_transcript {tags : Catalog} (htags : tags.NeverPutsBack) {source : String}
    (h : (Transcript.ofTokens tags (scan source)).fault = none) :
    ∃ us e, scan source = us ++ [e] ∧ e.kind = .endOfInput ∧ ∀ t ∈ us, t.kind ≠ .endOfInput ∧ t.kind ≠ .error := by
  obtain ⟨us, last, hscan, hus, hlast⟩ := exists_scan source
  rcases hlast with hk | hk
  · exact ⟨us, last, hscan, hk, hus⟩
  · have hopen : ∀ t ∈ scan source, t.kind ≠ .endOfInput := by
      intro t ht
      rw [hscan] at ht
      rcases List.mem_append.1 ht with ht | ht
      · exact (hus t ht).1
      · rw [List.mem_singleton.1 ht, hk]
        decide
    rw [Transcript.ofTokens, fault_ofEnding] at h
    obtain ⟨q, hq⟩ := h
    exact absurd hq (template_ne_done htags _ _ q _ (Feed.unclosed_ofTokens hopen))

namespace Draft

variable {d : Draft} (hd : d.tags = .empty)
include hd

theorem transcript_parse (source : String) :
    (d.parse source).2.transcript = Transcript.ofTokens .empty (scan source) := by
  rw [transcript_scan, hd]

theorem root_parse (source : String) : (d.parse source).1.root = (Transcript.ofTokens .empty (scan source)).root := by
  rw [root_scan, hd]

/-- The tokens of a source that is accepted have a layout, and its root is what the layout stands for. -/
theorem layout_of_parse {source : String} (h : (d.parse source).2.transcript.fault = none) :
    ∃ us e, ∃ is : List (Item []), scan source = us ++ [e] ∧ e.kind = .endOfInput ∧
      (∀ t ∈ us, t.kind ≠ .endOfInput ∧ t.kind ≠ .error) ∧ Derives us is ∧ (d.parse source).1.root = nodesOf is := by
  rw [transcript_parse hd] at h
  obtain ⟨us, e, hscan, he, hus⟩ := closed_of_transcript Catalog.neverPutsBack_empty h
  rw [root_parse hd]
  rw [hscan] at h ⊢
  obtain ⟨is, his, hroot⟩ := layout_of_transcript he hus h
  exact ⟨us, e, is, rfl, he, hus, his, hroot⟩

/-- The root of a source that is accepted is what some layout stands for, and the source starts with its tokens. -/
theorem layout_start {source : String} (h : (d.parse source).2.transcript.fault = none) :
    ∃ is : List (Item []), tokensOf is <+: scan source ∧ (d.parse source).1.root = nodesOf is := by
  obtain ⟨us, e, is, hscan, -, -, ⟨rfl, -⟩, hroot⟩ := layout_of_parse hd h
  exact ⟨is, ⟨[e], hscan.symm⟩, hroot⟩

/-- A source whose tokens have a layout is accepted. -/
theorem parse_of_layout {source : String} {us : List Token} {e : Token} (hscan : scan source = us ++ [e])
    (he : e.kind = .endOfInput) (hus : ∀ t ∈ us, t.kind ≠ .endOfInput ∧ t.kind ≠ .error) {is : List (Item [])}
    (his : Derives us is) :
    (d.parse source).2.transcript.fault = none ∧ (d.parse source).1.root = nodesOf is := by
  rw [transcript_parse hd, root_parse hd, hscan]
  exact transcript_of_layout (serves_nil .empty) he hus his

end Draft
end Stencil
