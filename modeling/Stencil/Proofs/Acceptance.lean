import Stencil.Draft
import Stencil.Proofs.LayoutEnsures
import Stencil.Proofs.LayoutUnique
/-!
# Exactly the layouts are accepted

A draft without tags of its own reads tokens without a fault exactly where they have a layout, and its nodes are those of
the layout.  The rounds of a transcript are never what decides: there is more than one for each token.
-/
namespace Stencil
namespace Layout

open Reading (SameNodes sameNodes_cons)

variable {tags : Catalog} {names : List String}

/-- Before the tokens of items a whole template comes to their nodes. -/
theorem template_of_layout (h : Serves tags names) : ∀ (n : Nat) (is : List (Item names)) (p : Progress),
    FitsAll is [] → (tokensOf is).length < n → p.feed.Faces (tokensOf is) →
      ∃ nodes q, Reading.template tags n p = (nodes, .done () q) ∧ SameNodes nodes (nodesOf is)
  | 0, _, _, _, hl, _ => absurd hl (Nat.not_lt_zero _)
  | n + 1, [], p, _, _, hp => by
    obtain ⟨e, g, hn, he, -⟩ := hp.next_nil
    have hr : Reading.next.run p = .done e { p with feed := g } := by
      rw [Reading.next, Reading.run_ofFeed, hn]
    refine ⟨[], { p with feed := g }, ?_, rfl⟩
    rw [Reading.template, hr]
    simp only [he]
  | n + 1, .text t :: is, p, hf, hl, hp => by
    obtain ⟨q, hq, hqf⟩ := Reading.gives_next t.1 (tokensOf is) p hp
    obtain ⟨nodes, r, hr, hnodes⟩ := template_of_layout h n is q hf.2 (Nat.lt_of_succ_lt_succ hl) hqf
    refine ⟨t.1.textNode :: nodes, r, ?_, sameNodes_cons rfl hnodes⟩
    rw [Reading.template, hq]
    simp only [t.2, hr]
  | n + 1, .tag opening g :: is, p, hf, hl, hp => by
    rw [tokensOf, Item.tokens, List.cons_append] at hp hl
    rw [List.length_cons] at hl
    obtain ⟨q, hq, hqf⟩ := Reading.gives_next opening.1 _ p hp
    have hfit : g.Fits (tokensOf is) := by
      have := hf.1
      rwa [List.append_nil] at this
    obtain ⟨node, r, hr, hnode, hrf⟩ := reaches_tag h n g (tokensOf is) hfit (by omega) q hqf
    rw [List.length_append] at hl
    obtain ⟨nodes, s, hs, hnodes⟩ := template_of_layout h n is r hf.2 (by omega) hrf
    refine ⟨node :: nodes, s, ?_, sameNodes_cons hnode hnodes⟩
    rw [Reading.template, hq]
    simp only [opening.2, hr, hs]

theorem layout_of_template : ∀ (n : Nat) (ts : List Token) (nodes : List Node) (p q : Progress), p.feed.Faces ts →
    Reading.template .empty n p = (nodes, .done () q) → ∃ is : List (Item []), Derives ts is ∧ nodes = nodesOf is
  | 0, ts, nodes, p, q, _, h => by cases h
  | n + 1, ts, nodes, p, q, hp, h => by
    rw [Reading.template] at h
    split at h
    · cases h
    · cases h
    · rename_i t r hr
      obtain ⟨rest, hrf, ht⟩ := Reading.ensures_next ts p r t hp hr
      split at h
      · rename_i hk
        cases h
        rcases ht with rfl | ⟨-, rfl, -⟩
        · exact absurd hk (hp.plain t List.mem_cons_self).1
        · exact ⟨[], ⟨rfl, trivial⟩, rfl⟩
      · rename_i hk
        obtain rfl : ts = t :: rest := ht.resolve_right (by simp [hk])
        obtain ⟨hnodes, hend⟩ := Prod.mk.inj h
        obtain ⟨is, his, his'⟩ := layout_of_template n rest _ r q hrf (Prod.ext rfl hend)
        refine ⟨.text ⟨t, hk⟩ :: is, ⟨congrArg (t :: ·) his.spells, trivial, his.fits⟩, ?_⟩
        exact hnodes.symm.trans (congrArg (t.textNode :: ·) his')
      · rename_i hk
        obtain rfl : ts = t :: rest := ht.resolve_right (by simp [hk])
        split at h
        · cases h
        · cases h
        · rename_i node s hs
          obtain ⟨rest', hsf, g, rfl, hg, rfl⟩ := ensures_tag n rest r s node hrf hs
          obtain ⟨hnodes, hend⟩ := Prod.mk.inj h
          obtain ⟨is, his, his'⟩ := layout_of_template n rest' _ s q hsf (Prod.ext rfl hend)
          refine ⟨.tag ⟨t, hk⟩ g :: is, ⟨?_, ?_, his.fits⟩, ?_⟩
          · rw [tokensOf, his.spells]
            rfl
          · rw [his.spells, List.append_nil]
            exact hg
          · exact hnodes.symm.trans (congrArg (g.node :: ·) his')
      · cases h

/-! ## Transcripts -/

theorem fault_ofEnding (r : List Node × Outcome Unit) :
    (Transcript.ofEnding r).fault = none ↔ ∃ q, r = (r.1, .done () q) := by
  obtain ⟨root, ending⟩ := r
  cases ending <;> simp [Transcript.ofEnding]

theorem root_ofEnding (r : List Node × Outcome Unit) : (Transcript.ofEnding r).root = r.1 := by
  obtain ⟨root, ending⟩ := r
  cases ending <;> rfl

variable {us : List Token} {e : Token}

/-- A layout leaves a transcript without a fault, and its nodes up to their places. -/
theorem transcript_of_serves (h : Serves tags names) (he : e.kind = .endOfInput)
    (hus : ∀ t ∈ us, t.kind ≠ .endOfInput ∧ t.kind ≠ .error) {is : List (Item names)} (his : Derives us is) :
    (Transcript.ofTokens tags (us ++ [e])).fault = none ∧
      SameNodes (Transcript.ofTokens tags (us ++ [e])).root (nodesOf is) := by
  have hlen : (tokensOf is).length < Transcript.rounds (us ++ [e]).length := by
    have := Transcript.lt_rounds (us ++ [e]).length
    rw [his.spells]
    rw [List.length_append] at this ⊢
    omega
  have hfaces := Feed.faces_ofTokens he hus
  rw [← his.spells] at hfaces
  obtain ⟨nodes, q, hq, hnodes⟩ := template_of_layout h _ is ⟨_, []⟩ his.fits hlen hfaces
  rw [his.spells] at hq
  rw [Transcript.ofTokens, fault_ofEnding, root_ofEnding, Feed.ofTokens, hq]
  exact ⟨⟨q, rfl⟩, hnodes⟩

theorem layout_of_transcript (he : e.kind = .endOfInput) (hus : ∀ t ∈ us, t.kind ≠ .endOfInput ∧ t.kind ≠ .error)
    (h : (Transcript.ofTokens .empty (us ++ [e])).fault = none) :
    ∃ is : List (Item []), Derives us is ∧ (Transcript.ofTokens .empty (us ++ [e])).root = nodesOf is := by
  rw [Transcript.ofTokens, fault_ofEnding] at h
  obtain ⟨q, hq⟩ := h
  rw [Transcript.ofTokens, root_ofEnding]
  exact layout_of_template _ us _ _ q (Feed.faces_ofTokens he hus) hq

/-- Without tags of one's own the nodes of a layout are in their places, too: it is the one layout that the tokens have. -/
theorem transcript_of_layout (h : Serves .empty names) (he : e.kind = .endOfInput)
    (hus : ∀ t ∈ us, t.kind ≠ .endOfInput ∧ t.kind ≠ .error) {is : List (Item names)} (his : Derives us is) :
    (Transcript.ofTokens .empty (us ++ [e])).fault = none ∧
      (Transcript.ofTokens .empty (us ++ [e])).root = nodesOf is := by
  cases names with
  | nil =>
    obtain ⟨hfault, -⟩ := transcript_of_serves h he hus his
    obtain ⟨js, hjs, hroot⟩ := layout_of_transcript he hus hfault
    rw [hroot, hjs.unique his]
    exact ⟨hfault, rfl⟩
  | cons name names =>
    obtain ⟨_, hfind, -⟩ := h.find name List.mem_cons_self
    cases hfind

end Layout

/-! ## Drafts -/

open Layout in
/-- **A draft without tags of its own accepts exactly the tokens that have a layout**, which is the only one they have,
and its root is then what the layout stands for. -/
theorem Draft.accepts_iff_layout (d : Draft) (hd : d.tags = .empty) (us : List Token) (e : Token)
    (he : e.kind = .endOfInput) (hus : ∀ t ∈ us, t.kind ≠ .endOfInput ∧ t.kind ≠ .error) :
    ((d.parseTokens (us ++ [e])).2.transcript.fault = none ↔ ∃ is : List (Item []), Derives us is) ∧
      (∀ is js : List (Item []), Derives us is → Derives us js → is = js) ∧
      ∀ is : List (Item []), Derives us is →
        (d.parseTokens (us ++ [e])).1.root = nodesOf is ∧ (d.parseTokens (us ++ [e])).1.parsed = true := by
  rw [parseTokens, transcript_parseSupply, root_parseSupply, parsed_parseSupply, Supply.tokens_silent, hd]
  refine ⟨⟨fun h => ?_, ?_⟩, fun is js => Derives.unique, fun is his => ?_⟩
  · obtain ⟨is, his, -⟩ := layout_of_transcript he hus h
    exact ⟨is, his⟩
  · rintro ⟨is, his⟩
    exact (transcript_of_layout (serves_nil .empty) he hus his).1
  · obtain ⟨hfault, hroot⟩ := transcript_of_layout (serves_nil .empty) he hus his
    exact ⟨hroot, by rw [hfault]; rfl⟩

def bareChain : List Token :=
  [⟨.tagStart, "\x7b%", ⟨0, 1, 1⟩⟩, ⟨.ifWord, "if", ⟨3, 1, 4⟩⟩, ⟨.number, "+1", ⟨6, 1, 7⟩⟩,
    ⟨.tagEnd, "%\x7d", ⟨9, 1, 10⟩⟩, ⟨.tagStart, "\x7b%", ⟨11, 1, 12⟩⟩, ⟨.elifWord, "elif", ⟨14, 1, 15⟩⟩,
    ⟨.tagEnd, "%\x7d", ⟨19, 1, 20⟩⟩, ⟨.tagStart, "\x7b%", ⟨21, 1, 22⟩⟩, ⟨.identifier, "endif", ⟨24, 1, 25⟩⟩,
    ⟨.varEnd, "\x7d\x7d", ⟨30, 1, 31⟩⟩]

theorem writesWord_zero : WritesWord "0" 0 := .plain ['0'] (by decide) (List.forall_mem_singleton.2 rfl)

theorem writesWord_plusOne : WritesWord "+1" 1 := .plus ['1'] (by decide) (List.forall_mem_singleton.2 rfl)

open Layout in
def bareChainLayout : List (Item []) :=
  [.tag (.of ⟨.tagStart, "\x7b%", ⟨0, 1, 1⟩⟩)
    (.conditional (.of ⟨.ifWord, "if", ⟨3, 1, 4⟩⟩)
      ⟨[⟨⟨.number, "+1", ⟨6, 1, 7⟩⟩, .int 6 1, .number _ rfl 1 writesWord_plusOne⟩],
        .of ⟨.tagEnd, "%\x7d", ⟨9, 1, 10⟩⟩⟩ []
      (.another (.of ⟨.tagStart, "\x7b%", ⟨11, 1, 12⟩⟩) (.of ⟨.elifWord, "elif", ⟨14, 1, 15⟩⟩)
        ⟨[], .of ⟨.tagEnd, "%\x7d", ⟨19, 1, 20⟩⟩⟩ []
        (.close ⟨.of ⟨.tagStart, "\x7b%", ⟨21, 1, 22⟩⟩, ⟨⟨.identifier, "endif", ⟨24, 1, 25⟩⟩, by decide⟩,
          ⟨[⟨.varEnd, "\x7d\x7d", ⟨30, 1, 31⟩⟩], by decide⟩, none⟩)))]

theorem Draft.accepts_bareChain :
    (∀ t ∈ bareChain, t.kind ≠ .endOfInput ∧ t.kind ≠ .error) ∧
      ((Draft.fresh "t" .empty).parseTokens (bareChain ++ [⟨.endOfInput, "", ⟨32, 1, 33⟩⟩])).2.transcript.fault = none ∧
      ((Draft.fresh "t" .empty).parseTokens (bareChain ++ [⟨.endOfInput, "", ⟨32, 1, 33⟩⟩])).1.root =
        [.conditional 3 [.int 6 1] [] (some (.group 14 [.conditional 14 [] [] none]))] := by
  have hplain : ∀ t ∈ bareChain, t.kind ≠ .endOfInput ∧ t.kind ≠ .error := by decide
  have hlayout : Layout.Derives bareChain bareChainLayout := ⟨rfl, ⟨trivial, trivial, fun _ => rfl⟩, trivial⟩
  have h := Draft.accepts_iff_layout (.fresh "t" .empty) rfl bareChain ⟨.endOfInput, "", ⟨32, 1, 33⟩⟩ rfl hplain
  exact ⟨hplain, h.1.2 ⟨bareChainLayout, hlayout⟩, (h.2.2 bareChainLayout hlayout).1⟩

end Stencil
