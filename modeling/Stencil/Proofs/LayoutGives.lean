import Stencil.Proofs.Conditions
import Stencil.Proofs.Relocation
/-!
# Every layout is read

Before the tokens of a layout a reading with enough rounds comes to the nodes of the layout, and what comes after the
layout is left.  A round is enough for a token, so the induction is on the rounds.

A tag of one's own may put its block anywhere, so the nodes are those of the layout up to their places.
-/
namespace Stencil
namespace Layout

open Reading (gives_next gives_peek gives_skipUntil gives_expect gives_pure gives_note Reaches reaches_pure SameNode
  SameNodes SameBranches sameNodes_cons sameNode_block sameNode_conditional sameBranches_cons sameBranches_group)

variable {tags : Catalog} {names : List String}

/-- The catalog reads every one of the names as a tag that encloses a body, and no name closes anything. -/
structure Serves (tags : Catalog) (names : List String) : Prop where
  find : ∀ m ∈ names, ∃ program, tags.find? m = some program ∧ program.Encloses m
  apart : ∀ m ∈ names, m ≠ "endif" ∧ m ≠ "endblock" ∧ ∀ k ∈ names, m ≠ "end" ++ k

theorem serves_nil (tags : Catalog) : Serves tags [] where
  find := fun _ h => by cases h
  apart := fun _ h => by cases h

/-! ## Closers -/

theorem behind_append {kind : Kind} : ∀ {ts : List Token}, (∀ t ∈ ts, t.kind ≠ kind) → ∀ rest : List Token,
    Feed.behind kind (ts ++ rest) = Feed.behind kind rest
  | [], _, _ => rfl
  | t :: ts, h, rest => by
    rw [List.cons_append, Feed.behind, if_neg (h t List.mem_cons_self),
      behind_append (fun u hu => h u (List.mem_cons_of_mem t hu)) rest]

theorem kind_of_isWord {t : Token} {word : String} (h : t.isWord word = true) : t.kind = .identifier := by
  unfold Token.isWord at h
  rw [Bool.and_eq_true, beq_iff_eq] at h
  exact h.1

theorem text_of_isWord {t : Token} {word : String} (h : t.isWord word = true) : t.text = word := by
  unfold Token.isWord at h
  rw [Bool.and_eq_true, beq_iff_eq, beq_iff_eq] at h
  exact h.2

theorem behind_closer {word : String} {c : Closer word} {rest : List Token} (hf : c.Fits rest) :
    Feed.behind .tagEnd (c.name.1 :: (c.skipped.1 ++ c.closing.toList.map (·.1)) ++ rest) = rest := by
  have hname : c.name.1.kind ≠ .tagEnd := by rw [kind_of_isWord c.name.2]; decide
  rw [List.cons_append, Feed.behind, if_neg hname, List.append_assoc, behind_append c.skipped.2]
  cases hc : c.closing with
  | none =>
    rw [hf hc]
    rfl
  | some t =>
    show Feed.behind .tagEnd (t.1 :: rest) = rest
    rw [Feed.behind, if_pos t.2]

theorem gives_closer {word : String} {c : Closer word} {rest : List Token} (hf : c.Fits rest) :
    (Reading.skipUntil .tagEnd).Gives (c.name.1 :: (c.skipped.1 ++ c.closing.toList.map (·.1)) ++ rest) () rest := by
  have h := gives_skipUntil .tagEnd (c.name.1 :: (c.skipped.1 ++ c.closing.toList.map (·.1)) ++ rest)
  rwa [behind_closer hf] at h

theorem gives_arguments (skipped : Skipped) (closing : TokenOf .tagEnd) (ts : List Token) :
    (Reading.skipUntil .tagEnd).Gives (skipped.1 ++ closing.1 :: ts) () ts := by
  have h := gives_skipUntil .tagEnd (skipped.1 ++ closing.1 :: ts)
  rwa [behind_append skipped.2, Feed.behind, if_pos closing.2] at h

/-! ## What a tag starts with -/

theorem Tag.starts (g : Tag names) : ∃ t ts, g.tokens = t :: ts ∧ t.kind ≠ .elifWord ∧ t.kind ≠ .elseWord ∧
    ∀ close, (∀ m ∈ names, m ≠ close) → t.isWord close = false := by
  cases g with
  | block keyword =>
    refine ⟨keyword.1, _, rfl, by rw [keyword.2]; decide, by rw [keyword.2]; decide, fun close _ => ?_⟩
    simp [Token.isWord, keyword.2]
  | conditional keyword =>
    refine ⟨keyword.1, _, rfl, by rw [keyword.2]; decide, by rw [keyword.2]; decide, fun close _ => ?_⟩
    simp [Token.isWord, keyword.2]
  | enclosing name h word =>
    have hk := kind_of_isWord word.2
    refine ⟨word.1, _, rfl, by rw [hk]; decide, by rw [hk]; decide, fun close hclose => ?_⟩
    have := hclose name h
    simp [Token.isWord, text_of_isWord word.2, this]

/-! ## Tags that enclose a body -/

section Programs

variable {tag : Reading Node} {body : String → Reading (List Node)} {ts mid rest : List Token} {Q : Node → Prop}

theorem reaches_of_leads {P : Program → Prop} (hP : ∀ program, P program → (program.run tag body).Reaches ts Q rest)
    {program : Program} (h : program.Leads P) : (program.run tag body).Reaches ts Q rest := by
  induction h with
  | there h => exact hP _ h
  | here k _ ih => exact fun p hp => ih p.feed.last p hp
  | peek k _ ih =>
    refine (Reading.reaches_peek ts).attempt.bind fun r hr => ?_
    obtain ⟨t, rfl, -⟩ := hr
    exact ih t
  | report o k _ ih => exact (gives_note _ _).bind_reaches ih

/-- The program of a tag that encloses a body skips what follows the name, and reads the body up to the tag's own closer:
only what comes after that is left. -/
theorem reaches_of_encloses {name : String} {program : Program} (h : program.Encloses name) {nodes : List Node}
    (hs : (Reading.skipUntil .tagEnd).Gives ts () mid)
    (hb : (body ("end" ++ name)).Reaches mid (SameNodes · nodes) rest) (start : Nat) :
    (program.run tag body).Reaches ts (SameNode · (.block start name [] nodes)) rest := by
  refine reaches_of_leads ?_ h
  rintro _ ⟨k, rfl, hk⟩
  refine (hs.reaches (P := (· = ())) rfl).attempt.bind fun r hr => ?_
  obtain ⟨-, rfl, -⟩ := hr
  refine reaches_of_leads ?_ hk
  rintro _ ⟨k, rfl, hk⟩
  refine hb.attempt.bind fun r hr => ?_
  obtain ⟨nodes', rfl, hnodes⟩ := hr
  refine reaches_of_leads ?_ (hk nodes')
  rintro _ ⟨start', rfl⟩
  exact reaches_pure (sameNode_block start' start name hnodes) rest

end Programs

/-! ## The induction -/

mutual

theorem reaches_tag (h : Serves tags names) : ∀ (n : Nat) (g : Tag names) (rest : List Token), g.Fits rest →
    (g.tokens ++ rest).length < n → (Reading.tag tags n).Reaches (g.tokens ++ rest) (SameNode · g.node) rest
  | 0, _, _, _, hl => absurd hl (Nat.not_lt_zero _)
  | n + 1, .block keyword title closing body closer, rest, hf, hl => by
    rw [Tag.tokens, List.cons_append, List.cons_append, List.cons_append, List.append_assoc] at hl ⊢
    rw [Reading.tag]
    refine (gives_next _ _).bind_reaches ?_
    simp only [keyword.2]
    refine (gives_expect title.2).bind_reaches ?_
    refine (gives_expect closing.2).bind_reaches ?_
    refine (reaches_body h n "endblock" (fun m hm => (h.apart m hm).2.1) body closer rest hf.1 hf.2 ?_).bind
      fun nodes hnodes => ?_
    · simp only [List.length_cons] at hl
      omega
    · exact reaches_pure (sameNode_block _ _ _ hnodes) rest
  | n + 1, .conditional keyword condition body ending, rest, hf, hl => by
    rw [Tag.tokens, List.cons_append, List.append_assoc, List.append_assoc] at hl ⊢
    rw [Reading.tag]
    refine (gives_next _ _).bind_reaches ?_
    simp only [keyword.2]
    refine reaches_conditional h n keyword.1 condition body ending rest hf.1 hf.2 ?_
    simp only [List.length_cons] at hl
    omega
  | n + 1, .enclosing name hname word skipped closing body closer, rest, hf, hl => by
    rw [Tag.tokens, List.cons_append, List.append_assoc, List.cons_append, List.append_assoc] at hl ⊢
    obtain ⟨program, hfind, hprogram⟩ := h.find name hname
    rw [Reading.tag]
    refine (gives_next _ _).bind_reaches ?_
    simp only [kind_of_isWord word.2, text_of_isWord word.2, hfind]
    refine (gives_note _ _).bind_reaches ?_
    refine reaches_of_encloses hprogram (gives_arguments skipped closing _) ?_ _
    refine reaches_body h n ("end" ++ name) (fun m hm => (h.apart m hm).2.2 name hname) body closer rest hf.1 hf.2 ?_
    simp only [List.length_cons, List.length_append] at hl ⊢
    omega

theorem reaches_body (h : Serves tags names) : ∀ (n : Nat) (close : String), (∀ m ∈ names, m ≠ close) →
    ∀ (is : List (Item names)) (closer : Closer close) (rest : List Token), FitsAll is (closer.tokens ++ rest) →
      closer.Fits rest → (tokensOf is ++ (closer.tokens ++ rest)).length < n →
        (Reading.body tags n close).Reaches (tokensOf is ++ (closer.tokens ++ rest)) (SameNodes · (nodesOf is)) rest
  | 0, _, _, _, _, _, _, _, hl => absurd hl (Nat.not_lt_zero _)
  | n + 1, close, hclose, [], closer, rest, _, hc, hl => by
    rw [Reading.body]
    refine (gives_next closer.opening.1 _).bind_reaches ?_
    simp only [closer.opening.2]
    refine (gives_peek closer.name.1 _).bind_reaches ?_
    rw [if_pos closer.name.2]
    exact (gives_closer hc).bind_reaches (reaches_pure (A := SameNodes) rfl rest)
  | n + 1, close, hclose, .text t :: is, closer, rest, hf, hc, hl => by
    rw [tokensOf, Item.tokens, List.append_assoc, List.singleton_append] at hl ⊢
    rw [Reading.body]
    refine (gives_next t.1 _).bind_reaches ?_
    simp only [t.2]
    refine (reaches_body h n close hclose is closer rest hf.2 hc ?_).bind fun nodes hnodes =>
      reaches_pure (sameNodes_cons rfl hnodes) rest
    rw [List.length_cons] at hl
    omega
  | n + 1, close, hclose, .tag opening g :: is, closer, rest, hf, hc, hl => by
    obtain ⟨t, ts, hg, -, -, hword⟩ := g.starts
    rw [tokensOf, Item.tokens, List.append_assoc, List.cons_append] at hl ⊢
    rw [List.length_cons, List.length_append] at hl
    rw [Reading.body]
    refine (gives_next opening.1 _).bind_reaches ?_
    simp only [opening.2]
    have hpeek := gives_peek t (ts ++ (tokensOf is ++ (closer.tokens ++ rest)))
    rw [← List.cons_append, ← hg] at hpeek
    refine hpeek.bind_reaches ?_
    rw [if_neg (by rw [hword close hclose]; decide)]
    refine (reaches_tag h n g _ hf.1 ?_).bind fun node hnode => ?_
    · rw [List.length_append]
      omega
    · refine (reaches_body h n close hclose is closer rest hf.2 hc ?_).bind fun nodes hnodes =>
        reaches_pure (sameNodes_cons hnode hnodes) rest
      omega

theorem reaches_conditional (h : Serves tags names) : ∀ (n : Nat) (keyword : Token) (condition : Condition)
    (is : List (Item names)) (ending : Ending names) (rest : List Token), FitsAll is (ending.tokens ++ rest) →
      ending.Fits rest → (condition.tokens ++ (tokensOf is ++ (ending.tokens ++ rest))).length < n →
        (Reading.conditional tags n keyword).Reaches (condition.tokens ++ (tokensOf is ++ (ending.tokens ++ rest)))
          (SameNode · (.conditional keyword.place.offset condition.nodes (nodesOf is) ending.node)) rest
  | 0, _, _, _, _, _, _, _, hl => absurd hl (Nat.not_lt_zero _)
  | n + 1, keyword, condition, is, ending, rest, hf, he, hl => by
    rw [Reading.conditional]
    refine (gives_condition condition _).bind_reaches ?_
    refine (reaches_branches h n is ending rest hf he ?_).bind fun branches hbranches =>
      reaches_pure (sameNode_conditional _ _ rfl hbranches) rest
    simp only [Condition.tokens, List.length_append, List.length_singleton] at hl ⊢
    omega

theorem reaches_branches (h : Serves tags names) : ∀ (n : Nat) (is : List (Item names)) (ending : Ending names)
    (rest : List Token), FitsAll is (ending.tokens ++ rest) → ending.Fits rest →
      (tokensOf is ++ (ending.tokens ++ rest)).length < n →
        (Reading.branches tags n).Reaches (tokensOf is ++ (ending.tokens ++ rest))
          (SameBranches · (nodesOf is, ending.node)) rest
  | 0, _, _, _, _, _, hl => absurd hl (Nat.not_lt_zero _)
  | n + 1, [], .close closer, rest, _, he, hl => by
    rw [Reading.branches]
    refine (gives_next closer.opening.1 _).bind_reaches ?_
    simp only [closer.opening.2]
    refine (gives_peek closer.name.1 _).bind_reaches ?_
    simp only [kind_of_isWord closer.name.2, if_pos closer.name.2]
    exact (gives_closer he).bind_reaches (reaches_pure (A := SameBranches) ⟨rfl, rfl⟩ rest)
  | n + 1, [], .otherwise opening keyword closing body closer, rest, _, he, hl => by
    rw [Ending.tokens, List.cons_append, List.cons_append, List.cons_append, List.append_assoc] at hl ⊢
    rw [Reading.branches]
    refine (gives_next opening.1 _).bind_reaches ?_
    simp only [opening.2]
    refine (gives_peek keyword.1 _).bind_reaches ?_
    simp only [keyword.2]
    refine (gives_next keyword.1 _).bind_reaches ?_
    refine (gives_expect closing.2).bind_reaches ?_
    refine (reaches_body h n "endif" (fun m hm => (h.apart m hm).1) body closer rest he.1 he.2 ?_).bind
      fun nodes hnodes => reaches_pure (sameBranches_group _ _ hnodes) rest
    simp only [tokensOf, List.nil_append, List.length_cons] at hl
    omega
  | n + 1, [], .another opening keyword condition body ending, rest, _, he, hl => by
    rw [Ending.tokens, List.cons_append, List.cons_append, List.append_assoc, List.append_assoc] at hl ⊢
    rw [Reading.branches]
    refine (gives_next opening.1 _).bind_reaches ?_
    simp only [opening.2]
    refine (gives_peek keyword.1 _).bind_reaches ?_
    simp only [keyword.2]
    refine (gives_next keyword.1 _).bind_reaches ?_
    refine (gives_note _ _).bind_reaches ?_
    refine (reaches_conditional h n keyword.1 condition body ending rest he.1 he.2 ?_).bind fun inner hinner =>
      reaches_pure (sameBranches_group _ _ (sameNodes_cons hinner rfl)) rest
    simp only [tokensOf, List.nil_append, List.length_cons] at hl
    omega
  | n + 1, .text t :: is, ending, rest, hf, he, hl => by
    rw [tokensOf, Item.tokens, List.append_assoc, List.singleton_append] at hl ⊢
    rw [Reading.branches]
    refine (gives_next t.1 _).bind_reaches ?_
    simp only [t.2]
    refine (reaches_branches h n is ending rest hf.2 he ?_).bind fun branches hbranches =>
      reaches_pure (sameBranches_cons rfl hbranches) rest
    rw [List.length_cons] at hl
    omega
  | n + 1, .tag opening g :: is, ending, rest, hf, he, hl => by
    obtain ⟨t, ts, hg, helif, helse, hword⟩ := g.starts
    rw [tokensOf, Item.tokens, List.append_assoc, List.cons_append] at hl ⊢
    rw [List.length_cons, List.length_append] at hl
    rw [Reading.branches]
    refine (gives_next opening.1 _).bind_reaches ?_
    simp only [opening.2]
    have hpeek := gives_peek t (ts ++ (tokensOf is ++ (ending.tokens ++ rest)))
    rw [← List.cons_append, ← hg] at hpeek
    refine hpeek.bind_reaches ?_
    split
    · rename_i hk
      exact absurd hk helif
    · rename_i hk
      exact absurd hk helse
    · rw [if_neg (by rw [hword "endif" (fun m hm => (h.apart m hm).1)]; decide)]
      refine (reaches_tag h n g _ hf.1 ?_).bind fun node hnode => ?_
      · rw [List.length_append]
        omega
      · refine (reaches_branches h n is ending rest hf.2 he ?_).bind fun branches hbranches =>
          reaches_pure (sameBranches_cons hnode hbranches) rest
        omega

end

end Layout
end Stencil
