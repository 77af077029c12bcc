import Stencil.Proofs.FirstFault
import Stencil.Proofs.Items
/-!
# What a fault leaves

A draft that was read with a fault keeps the items that were complete before it, all of them and nothing else.  Tokens
start with a longest list of complete items: items are told apart by their tokens, so two such lists go the same way as
far as the shorter one goes.  These are read to their nodes, and where no complete item comes next the reading adds no
node, unless a tag is ended by the end of the source, and then there is no fault.
-/
namespace Stencil

open Layout

variable {ts us rest : List Token}

/-- Tokens of complete items, one behind the other. -/
def Whole (us : List Token) : Prop := ∃ is : List (Item []), tokensOf is = us ∧ Complete is ∧ Plain us

/-- No complete item comes next. -/
def NoItem (ts : List Token) : Prop :=
  ∀ (i : Item []) (rest : List Token), ts = i.tokens ++ rest → Plain i.tokens → ¬∀ us, i.Fits us

/-! ## The longest list of complete items -/

theorem exists_whole_prefix (ts : List Token) : ∃ us rest, ts = us ++ rest ∧ Whole us ∧ NoItem rest := by
  by_cases h : ∃ (i : Item []) (rest : List Token), ts = i.tokens ++ rest ∧ Plain i.tokens ∧ ∀ us, i.Fits us
  · obtain ⟨i, more, rfl, hplain, hi⟩ := h
    obtain ⟨t, us, ht, -⟩ := i.exists_lead
    have : more.length < (i.tokens ++ more).length := by
      rw [ht, List.length_append, List.length_cons]
      omega
    obtain ⟨us, rest, rfl, ⟨is, rfl, his, hus⟩, hrest⟩ := exists_whole_prefix more
    refine ⟨i.tokens ++ tokensOf is, rest, (List.append_assoc ..).symm, ⟨i :: is, rfl, fun us => ⟨hi _, his us⟩, ?_⟩, hrest⟩
    exact plain_append hplain hus
  · exact ⟨[], ts, rfl, ⟨[], rfl, complete_nil, plain_nil⟩, fun i rest hts hplain hi =>
      h ⟨i, rest, hts, hplain, hi⟩⟩
termination_by ts.length

/-- Complete items go no further than to where no complete item comes next. -/
theorem length_le_of_noItem : ∀ (js is : List (Item [])) {x : List Token}, tokensOf js ++ x = tokensOf is ++ rest →
    Complete js → Plain (tokensOf js) → Complete is → NoItem rest → (tokensOf js).length ≤ (tokensOf is).length
  | [], _, _, _, _, _, _, _ => Nat.zero_le _
  | j :: js, [], x, h, hjs, hplain, _, hrest => by
    rw [tokensOf, tokensOf, List.append_assoc, List.nil_append] at h
    exact absurd hjs.uncons.1 (hrest j _ h.symm fun t ht => hplain t (List.mem_append_left _ ht))
  | j :: js, i :: is, x, h, hjs, hplain, his, hrest => by
    rw [tokensOf, tokensOf, List.append_assoc, List.append_assoc] at h
    obtain ⟨rfl, htail⟩ := Item.unique j i _ _ h (hjs.uncons.1 _) (his.uncons.1 _)
    have := length_le_of_noItem js is htail hjs.uncons.2 (fun t ht => hplain t (List.mem_append_right _ ht)) his.uncons.2 hrest
    rw [tokensOf, tokensOf, List.length_append, List.length_append]
    exact Nat.add_le_add_left this _

/-! ## Where no complete item comes next -/

theorem template_of_over {n : Nat} {p : Progress} (hfront : p.feed.front = []) (hsource : p.feed.source = [])
    (hended : p.feed.ended = true) : ∃ q, Reading.template .empty (n + 1) p = ([], .done () q) := by
  have hup : p.feed.upcoming = [] := by rw [Feed.upcoming, hfront, hsource]; rfl
  obtain ⟨g, hn, -⟩ := Feed.next_of_upcoming_nil hup ((Feed.closes_of_upcoming_nil hup).trans hended)
  refine ⟨{ p with feed := g }, ?_⟩
  rw [Reading.template, Reading.next, Reading.run_ofFeed, hn]
  rfl

theorem over_of_tag {n : Nat} {p q : Progress} {node : Node} (hts : EndsOnce ts) (hp : p.feed.Follows ts)
    (hfront : p.feed.front = []) (hr : (Reading.tag .empty n).run p = .done node q) (hended : q.feed.ended = true) :
    q.feed.front = [] ∧ q.feed.source = [] := by
  have hblamed := (Reading.lockstep_blames ts).tag n p hp
  rw [hr] at hblamed
  refine ⟨Reading.clears_tag n p q node (Feed.shows_of_bare hfront) hr, hblamed.follows.source.trans ?_⟩
  obtain ⟨t, ht, hk⟩ := List.any_eq_true.1 (hblamed.follows.ended.symm.trans hended)
  exact List.drop_of_length_le (Nat.le_of_not_lt fun hlt => hts.take hlt t ht (beq_iff_eq.1 hk))

/-- Where no complete item comes next a template adds no node, or is read to its end. -/
theorem template_of_noItem {n : Nat} {p : Progress} (hts : EndsOnce (us ++ rest)) (hp : p.feed.Bare us rest)
    (hrest : NoItem rest) :
    (Reading.template .empty (n + 2) p).1 = [] ∨ ∃ q, (Reading.template .empty (n + 2) p).2 = .done () q := by
  rw [Reading.template, Reading.next, Reading.run_ofFeed]
  rcases hn : p.feed.next with ⟨e | t, g⟩
  · exact .inl rfl
  simp only
  split
  · exact .inl rfl
  · rename_i hk
    obtain ⟨more, rfl, herror, -⟩ := hp.of_next hn (by rw [hk]; decide)
    refine absurd (fun _ => trivial) (hrest (.text ⟨t, hk⟩) more rfl ?_)
    exact List.forall_mem_singleton.2 ⟨by rw [hk]; decide, herror⟩
  · rename_i hk
    obtain ⟨more, rfl, herror, hg⟩ := hp.of_next hn (by rw [hk]; decide)
    rcases hr : (Reading.tag .empty (n + 1)).run { p with feed := g } with ⟨node, r⟩ | ⟨e, r⟩ | r
    · cases hended : r.feed.ended with
      | false =>
        obtain ⟨tag, more', rfl, htag, -, hr'⟩ := tag_of_run hg hr hended
        refine absurd htag (hrest (.tag ⟨t, hk⟩ tag) more' rfl fun u hu => hr'.plain u ?_)
        rw [List.append_assoc]
        exact List.mem_append_right us hu
      | true =>
        have hfollows := hg.follows
        rw [List.append_assoc] at hfollows
        obtain ⟨hfront, hsource⟩ := over_of_tag (p := { p with feed := g }) hts hfollows hg.front hr hended
        obtain ⟨q, hq⟩ := template_of_over (n := n) hfront hsource hended
        simp only [hq]
        exact .inr ⟨q, rfl⟩
    · exact .inl rfl
    · exact .inl rfl
  · exact .inl rfl

/-- **What a fault leaves are the complete items before it.**  Tokens of which only the last may be an end of input, and
that a draft without tags of its own cannot read, start with a longest list of complete items.  These alone, with an end of
input behind them, are read without a fault, and the root of the draft is then the same. -/
theorem Draft.remains_of_fault (d : Draft) (hd : d.tags = .empty) (ts : List Token) (hts : EndsOnce ts) (f : ParseFault)
    (hf : (d.parseTokens ts).2.transcript.fault = some f) :
    ∃ us, us <+: ts ∧ Whole us ∧ (∀ vs, vs <+: ts → Whole vs → vs.length ≤ us.length) ∧
      ∀ e : Token, e.kind = .endOfInput → (d.parseTokens (us ++ [e])).2.transcript.fault = none ∧
        (d.parseTokens (us ++ [e])).1.root = (d.parseTokens ts).1.root := by
  simp only [parseTokens, transcript_parseSupply, root_parseSupply, Supply.tokens_silent, hd] at hf ⊢
  obtain ⟨us, rest, rfl, ⟨is, rfl, his, hplain⟩, hrest⟩ := exists_whole_prefix ts
  refine ⟨tokensOf is, List.prefix_append _ rest, ⟨is, rfl, his, hplain⟩, ?_, fun e he => ?_⟩
  · rintro vs ⟨x, hx⟩ ⟨js, rfl, hjs, hjsPlain⟩
    exact length_le_of_noItem js is hx hjs hjsPlain his hrest
  · obtain ⟨hfault, hroot⟩ := transcript_of_layout (serves_nil .empty) he hplain ⟨rfl, his []⟩
    refine ⟨hfault, hroot.trans ?_⟩
    obtain ⟨q, hq, htranscript⟩ := exists_behind (n := (tokensOf is ++ rest).length + 2) his hplain (Nat.lt_succ_self _)
    rw [htranscript] at hf ⊢
    rw [root_ofEnding]
    rcases template_of_noItem hts hq hrest with hnone | ⟨r, hr⟩
    · rw [hnone, List.append_nil]
    · rw [hr] at hf
      cases hf

def unfinished : List Token :=
  [⟨.text, "x", ⟨0, 1, 1⟩⟩, ⟨.tagStart, "\x7b%", ⟨1, 1, 2⟩⟩, ⟨.blockWord, "block", ⟨4, 1, 5⟩⟩,
    ⟨.identifier, "a", ⟨10, 1, 11⟩⟩, ⟨.tagEnd, "%\x7d", ⟨12, 1, 13⟩⟩, ⟨.tagStart, "\x7b%", ⟨14, 1, 15⟩⟩,
    ⟨.identifier, "endblock", ⟨17, 1, 18⟩⟩, ⟨.tagEnd, "%\x7d", ⟨26, 1, 27⟩⟩, ⟨.tagStart, "\x7b%", ⟨28, 1, 29⟩⟩,
    ⟨.ifWord, "if", ⟨31, 1, 32⟩⟩, ⟨.tagEnd, "%\x7d", ⟨34, 1, 35⟩⟩, ⟨.text, "y", ⟨36, 1, 37⟩⟩]

theorem fault_unfinished : (Transcript.ofTokens .empty unfinished).fault = some ⟨⟨36, 1, 37⟩, closedEarly⟩ := by
  decide +kernel

theorem Draft.remains_of_unfinished :
    ((fresh "t" .empty).parseTokens unfinished).2.transcript.fault = some ⟨⟨36, 1, 37⟩, closedEarly⟩ ∧
      ∃ us, us <+: unfinished ∧ Whole us ∧ (∀ vs, vs <+: unfinished → Whole vs → vs.length ≤ us.length) ∧
        ∀ e : Token, e.kind = .endOfInput → ((fresh "t" .empty).parseTokens (us ++ [e])).2.transcript.fault = none ∧
          ((fresh "t" .empty).parseTokens (us ++ [e])).1.root = ((fresh "t" .empty).parseTokens unfinished).1.root := by
  have hfault : ((fresh "t" .empty).parseTokens unfinished).2.transcript.fault = some ⟨⟨36, 1, 37⟩, closedEarly⟩ := by
    rw [parseTokens, transcript_parseSupply, Supply.tokens_silent]
    exact fault_unfinished
  have hends : EndsOnce unfinished := by
    unfold EndsOnce
    decide
  exact ⟨hfault, remains_of_fault (fresh "t" .empty) rfl unfinished hends _ hfault⟩

end Stencil
