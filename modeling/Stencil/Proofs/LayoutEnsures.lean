import Stencil.Proofs.LayoutGives
/-!
# Whatever is read is a layout

Without tags of one's own, a reading that comes to a value has taken the tokens of a layout and comes to its nodes.
-/
namespace Stencil
namespace Layout

open Reading (ensures_next ensures_peek ensures_expect ensures_pure ensures_fail ensures_exhausted gives_next gives_note
  gives_skipUntil)

theorem skipped_behind : ∀ ts : List Token, ∃ (s : Skipped) (closing : Option (TokenOf .tagEnd)),
    ts = s.1 ++ closing.toList.map (·.1) ++ Feed.behind .tagEnd ts ∧ (closing = none → Feed.behind .tagEnd ts = [])
  | [] => ⟨⟨[], by simp⟩, none, rfl, fun _ => rfl⟩
  | t :: ts => by
    rw [Feed.behind]
    by_cases ht : t.kind = .tagEnd
    · rw [if_pos ht]
      exact ⟨⟨[], by simp⟩, some ⟨t, ht⟩, rfl, fun h => by cases h⟩
    · rw [if_neg ht]
      obtain ⟨s, closing, hts, hclosing⟩ := skipped_behind ts
      refine ⟨⟨t :: s.1, ?_⟩, closing, congrArg (t :: ·) hts, hclosing⟩
      intro u hu
      rcases List.mem_cons.1 hu with rfl | hu
      · exact ht
      · exact s.2 u hu

/-- Skipping to the end of a tag takes a closer, if its opening delimiter was taken before and its word comes next. -/
theorem ensures_closer {word : String} {opening t : Token} (ho : opening.kind = .tagStart) (ht : t.isWord word = true)
    (ts : List Token) :
    (Reading.skipUntil .tagEnd).Ensures (t :: ts)
      (fun _ rest => ∃ c : Closer word, opening :: t :: ts = c.tokens ++ rest ∧ c.Fits rest) := by
  refine (gives_skipUntil .tagEnd (t :: ts)).ensures ?_
  have hname : t.kind ≠ .tagEnd := by rw [kind_of_isWord ht]; decide
  rw [Feed.behind, if_neg hname]
  obtain ⟨s, closing, hts, hclosing⟩ := skipped_behind ts
  refine ⟨⟨⟨opening, ho⟩, ⟨t, ht⟩, s, closing⟩, ?_, hclosing⟩
  exact congrArg (fun l => opening :: t :: l) hts

mutual

theorem ensures_tag : ∀ (n : Nat) (ts : List Token), (Reading.tag .empty n).Ensures ts
    (fun node rest => ∃ g : Tag [], ts = g.tokens ++ rest ∧ g.Fits rest ∧ node = g.node)
  | 0, _ => ensures_exhausted
  | n + 1, ts => by
    rw [Reading.tag]
    refine (ensures_next ts).bind fun keyword mid h => ?_
    split
    · rename_i hk
      obtain rfl : ts = keyword :: mid := h.resolve_right (by simp [hk])
      refine (ensures_expect mid (by decide)).bind ?_
      rintro title mid' ⟨rfl, htitle⟩
      refine (ensures_expect mid' (by decide)).bind ?_
      rintro closing mid'' ⟨rfl, hclosing⟩
      refine (ensures_body n "endblock" mid'').bind ?_
      rintro nodes rest ⟨is, c, rfl, hf, hc, rfl⟩
      refine ensures_pure ⟨.block ⟨keyword, hk⟩ ⟨title, htitle⟩ ⟨closing, hclosing⟩ is c, ?_, ⟨hf, hc⟩, rfl⟩
      simp [Tag.tokens]
    · rename_i hk
      obtain rfl : ts = keyword :: mid := h.resolve_right (by simp [hk])
      refine (ensures_conditional n keyword mid).weaken ?_
      rintro node rest ⟨c, is, ending, rfl, hf, he, rfl⟩
      refine ⟨.conditional ⟨keyword, hk⟩ c is ending, ?_, ⟨hf, he⟩, rfl⟩
      simp [Tag.tokens]
    · exact ensures_fail
    · exact ensures_fail
    · exact ensures_fail

theorem ensures_body : ∀ (n : Nat) (close : String) (ts : List Token), (Reading.body .empty n close).Ensures ts
    (fun nodes rest => ∃ (is : List (Item [])) (c : Closer close), ts = tokensOf is ++ (c.tokens ++ rest) ∧
      FitsAll is (c.tokens ++ rest) ∧ c.Fits rest ∧ nodes = nodesOf is)
  | 0, _, _ => ensures_exhausted
  | n + 1, close, ts => by
    rw [Reading.body]
    refine (ensures_next ts).bind fun t mid h => ?_
    split
    · rename_i hk
      obtain rfl : ts = t :: mid := h.resolve_right (by simp [hk])
      refine (ensures_body n close mid).bind ?_
      rintro nodes rest ⟨is, c, rfl, hf, hc, rfl⟩
      exact ensures_pure ⟨.text ⟨t, hk⟩ :: is, c, rfl, ⟨trivial, hf⟩, hc, rfl⟩
    · rename_i hk
      obtain rfl : ts = t :: mid := h.resolve_right (by simp [hk])
      refine (ensures_peek mid).bind ?_
      rintro word mid ⟨rfl, hword⟩
      by_cases hw : word.isWord close = true
      · rw [if_pos hw]
        obtain ⟨more, rfl⟩ : ∃ more, mid = word :: more :=
          hword.resolve_right (by simp [kind_of_isWord hw])
        refine (ensures_closer hk hw more).bind ?_
        rintro _ rest ⟨c, hts, hc⟩
        exact ensures_pure ⟨[], c, hts, trivial, hc, rfl⟩
      · rw [if_neg hw]
        refine (ensures_tag n mid).bind ?_
        rintro node mid' ⟨g, rfl, hg, rfl⟩
        refine (ensures_body n close mid').bind ?_
        rintro nodes rest ⟨is, c, rfl, hf, hc, rfl⟩
        refine ensures_pure ⟨.tag ⟨t, hk⟩ g :: is, c, ?_, ⟨hg, hf⟩, hc, rfl⟩
        simp [tokensOf, Item.tokens]
    · exact ensures_fail
    · exact ensures_fail

theorem ensures_conditional : ∀ (n : Nat) (keyword : Token) (ts : List Token),
    (Reading.conditional .empty n keyword).Ensures ts (fun node rest =>
      ∃ (c : Condition) (is : List (Item [])) (ending : Ending []),
        ts = c.tokens ++ (tokensOf is ++ (ending.tokens ++ rest)) ∧ FitsAll is (ending.tokens ++ rest) ∧
          ending.Fits rest ∧ node = .conditional keyword.place.offset c.nodes (nodesOf is) ending.node)
  | 0, _, _ => ensures_exhausted
  | n + 1, keyword, ts => by
    rw [Reading.conditional]
    refine (ensures_condition ts).bind ?_
    rintro _ mid ⟨c, rfl, rfl⟩
    refine (ensures_branches n mid).bind ?_
    rintro ⟨nodes, otherwise⟩ rest ⟨is, ending, rfl, hf, he, hnodes⟩
    cases hnodes
    exact ensures_pure ⟨c, is, ending, rfl, hf, he, rfl⟩

theorem ensures_branches : ∀ (n : Nat) (ts : List Token), (Reading.branches .empty n).Ensures ts
    (fun b rest => ∃ (is : List (Item [])) (ending : Ending []), ts = tokensOf is ++ (ending.tokens ++ rest) ∧
      FitsAll is (ending.tokens ++ rest) ∧ ending.Fits rest ∧ b = (nodesOf is, ending.node))
  | 0, _ => ensures_exhausted
  | n + 1, ts => by
    rw [Reading.branches]
    refine (ensures_next ts).bind fun t mid h => ?_
    split
    · rename_i hk
      obtain rfl : ts = t :: mid := h.resolve_right (by simp [hk])
      refine (ensures_branches n mid).bind ?_
      rintro ⟨nodes, otherwise⟩ rest ⟨is, ending, rfl, hf, he, hnodes⟩
      cases hnodes
      exact ensures_pure ⟨.text ⟨t, hk⟩ :: is, ending, rfl, ⟨trivial, hf⟩, he, rfl⟩
    · rename_i hk
      obtain rfl : ts = t :: mid := h.resolve_right (by simp [hk])
      refine (ensures_peek mid).bind ?_
      rintro word mid ⟨rfl, hword⟩
      split
      · rename_i hw
        obtain ⟨more, rfl⟩ : ∃ more, mid = word :: more := hword.resolve_right (by simp [hw])
        refine (gives_next word more).only.bind ?_
        rintro keyword more ⟨rfl, rfl⟩
        refine (gives_note _ more).only.bind ?_
        rintro _ more ⟨-, rfl⟩
        refine (ensures_conditional n keyword more).bind ?_
        rintro node rest ⟨c, is, ending, rfl, hf, he, rfl⟩
        refine ensures_pure ⟨[], .another ⟨t, hk⟩ ⟨keyword, hw⟩ c is ending, ?_, trivial, ⟨hf, he⟩, rfl⟩
        simp [tokensOf, Ending.tokens]
      · rename_i hw
        obtain ⟨more, rfl⟩ : ∃ more, mid = word :: more := hword.resolve_right (by simp [hw])
        refine (gives_next word more).only.bind ?_
        rintro keyword more ⟨rfl, rfl⟩
        refine (ensures_expect more (by decide)).bind ?_
        rintro closing more ⟨rfl, hclosing⟩
        refine (ensures_body n "endif" more).bind ?_
        rintro nodes rest ⟨is, c, rfl, hf, hc, rfl⟩
        refine ensures_pure ⟨[], .otherwise ⟨t, hk⟩ ⟨keyword, hw⟩ ⟨closing, hclosing⟩ is c, ?_, trivial, ⟨hf, hc⟩, rfl⟩
        simp [tokensOf, Ending.tokens]
      · by_cases hw : word.isWord "endif" = true
        · rw [if_pos hw]
          obtain ⟨more, rfl⟩ : ∃ more, mid = word :: more :=
            hword.resolve_right (by simp [kind_of_isWord hw])
          refine (ensures_closer hk hw more).bind ?_
          rintro _ rest ⟨c, hts, hc⟩
          exact ensures_pure ⟨[], .close c, hts, trivial, hc, rfl⟩
        · rw [if_neg hw]
          refine (ensures_tag n mid).bind ?_
          rintro node more ⟨g, rfl, hg, rfl⟩
          refine (ensures_branches n more).bind ?_
          rintro ⟨nodes, otherwise⟩ rest ⟨is, ending, rfl, hf, he, hnodes⟩
          cases hnodes
          refine ensures_pure ⟨.tag ⟨t, hk⟩ g :: is, ending, ?_, ⟨hg, hf⟩, he, rfl⟩
          simp [tokensOf, Item.tokens]
    · exact ensures_fail
    · exact ensures_fail

end

end Layout
end Stencil
