import Stencil.Proofs.Keeps
import Stencil.Proofs.LayoutAppend
import Stencil.Proofs.LayoutEnsures
/-!
# What ends too early can be completed

A reading that fails only because the end of input has come has not met a token that does not belong there: what it has
read can be extended to a layout.  While it goes on nothing has been read but what a layout starts with, and wherever the
end may come there are tokens that close all that is open.

The induction is on the reading.  Behind a piece that was read the piece is part of the layout; only a closer at the very
end may lack its own end, and then that is put in first (`Tag.exists_closed`).
-/
namespace Stencil
namespace Layout

/-! ## Tokens that go on -/

/-- Tokens that are neither ends of input nor faults. -/
def Plain (ts : List Token) : Prop := ∀ t ∈ ts, t.kind ≠ .endOfInput ∧ t.kind ≠ .error

/-- The tokens `us` are `ts` with plain tokens behind them. -/
def Extends (us ts : List Token) : Prop := ∃ more, us = ts ++ more ∧ Plain more

theorem plain_append {ts us : List Token} (hts : Plain ts) (hus : Plain us) : Plain (ts ++ us) := fun t ht =>
  (List.mem_append.1 ht).elim (hts t) (hus t)

namespace Extends

variable {us ts : List Token}

theorem refl (ts : List Token) : Extends ts ts := ⟨[], (List.append_nil ts).symm, fun _ h => by cases h⟩

theorem of_plain (h : Plain us) : Extends us [] := ⟨us, rfl, h⟩

theorem plain (h : Extends us []) : Plain us := by
  obtain ⟨more, rfl, hmore⟩ := h
  exact hmore

theorem cons (t : Token) (h : Extends us ts) : Extends (t :: us) (t :: ts) := by
  obtain ⟨more, rfl, hmore⟩ := h
  exact ⟨more, rfl, hmore⟩

theorem prepend (before : List Token) (h : Extends us ts) : Extends (before ++ us) (before ++ ts) := by
  obtain ⟨more, rfl, hmore⟩ := h
  exact ⟨more, (List.append_assoc ..).symm, hmore⟩

theorem append {vs : List Token} (h : Extends us ts) (hvs : Plain vs) : Extends (us ++ vs) ts := by
  obtain ⟨more, rfl, hmore⟩ := h
  exact ⟨more ++ vs, List.append_assoc .., plain_append hmore hvs⟩

/-- Plain tokens may be put in where nothing comes behind them. -/
theorem insert {fill : List Token} (h : Extends us ts) (hfill : Plain fill) (hend : fill = [] ∨ ts = []) :
    Extends (fill ++ us) ts := by
  rcases hend with rfl | rfl
  · exact h
  · exact of_plain (plain_append hfill h.plain)

end Extends

/-! ## Closing what is open -/

theorem plain_plainCloser (word : String) : Plain (plainCloser word).tokens := by
  simp [Plain, plainCloser, Closer.tokens, TokenOf.of]

theorem fits_plainCloser (word : String) (rest : List Token) : (plainCloser word).Fits rest := fun h => by cases h

def tagEnd : TokenOf .tagEnd := .of ⟨.tagEnd, "%\x7d", .origin⟩

theorem plain_tagEnd : Plain [tagEnd.1] := by simp [Plain, tagEnd, TokenOf.of]

/-- The end of a tag that is missing from a closer at the very end. -/
structure Fill (fill rest : List Token) : Prop where
  plain : Plain fill
  atEnd : fill = [] ∨ rest = []

variable {names : List String} {rest : List Token}

theorem Closer.exists_closed {word : String} (c : Closer word) (h : c.Fits rest) :
    ∃ (c' : Closer word) (fill : List Token), c'.tokens = c.tokens ++ fill ∧ Fill fill rest ∧ ∀ us, c'.Fits us := by
  cases hc : c.closing with
  | some t =>
    exact ⟨c, [], (List.append_nil _).symm, ⟨fun _ h => (by cases h), .inl rfl⟩, fun us hnone => by cases hc.symm.trans hnone⟩
  | none =>
    refine ⟨{ c with closing := some tagEnd }, [tagEnd.1], ?_, ⟨plain_tagEnd, .inr (h hc)⟩, fun us hnone => by cases hnone⟩
    simp [Closer.tokens, hc]

theorem Ending.exists_closed : ∀ (e : Ending names), e.Fits rest →
    ∃ (e' : Ending names) (fill : List Token), e'.tokens = e.tokens ++ fill ∧ Fill fill rest ∧ ∀ us, e'.Fits us
  | .close closer, h => by
    obtain ⟨c, fill, hc, hfill, hfits⟩ := closer.exists_closed h
    exact ⟨.close c, fill, hc, hfill, hfits⟩
  | .otherwise opening keyword closing body closer, h => by
    obtain ⟨c, fill, hc, hfill, hfits⟩ := closer.exists_closed h.2
    refine ⟨.otherwise opening keyword closing body c, fill, ?_, hfill, fun us => ⟨?_, hfits us⟩⟩
    · simp [Ending.tokens, hc]
    · exact complete_of_ne body h.1 (List.cons_ne_nil _ _) _
  | .another opening keyword condition body ending, h => by
    obtain ⟨e, fill, he, hfill, hfits⟩ := Ending.exists_closed ending h.2
    refine ⟨.another opening keyword condition body e, fill, ?_, hfill, fun us => ⟨?_, hfits us⟩⟩
    · simp [Ending.tokens, he]
    · exact complete_of_ne body h.1 (ending.tokens_append_ne _) _

theorem Tag.exists_closed (g : Tag names) (h : g.Fits rest) :
    ∃ (g' : Tag names) (fill : List Token), g'.tokens = g.tokens ++ fill ∧ Fill fill rest ∧ ∀ us, g'.Fits us := by
  cases g with
  | block keyword title closing body closer =>
    obtain ⟨c, fill, hc, hfill, hfits⟩ := closer.exists_closed h.2
    refine ⟨.block keyword title closing body c, fill, ?_, hfill, fun us => ⟨?_, hfits us⟩⟩
    · simp [Tag.tokens, hc]
    · exact complete_of_ne body h.1 (List.cons_ne_nil _ _) _
  | conditional keyword condition body ending =>
    obtain ⟨e, fill, he, hfill, hfits⟩ := ending.exists_closed h.2
    refine ⟨.conditional keyword condition body e, fill, ?_, hfill, fun us => ⟨?_, hfits us⟩⟩
    · simp [Tag.tokens, he]
    · exact complete_of_ne body h.1 (ending.tokens_append_ne _) _
  | enclosing name hname word skipped closing body closer =>
    obtain ⟨c, fill, hc, hfill, hfits⟩ := closer.exists_closed h.2
    refine ⟨.enclosing name hname word skipped closing body c, fill, ?_, hfill, fun us => ⟨?_, hfits us⟩⟩
    · simp [Tag.tokens, hc]
    · exact complete_of_ne body h.1 (List.cons_ne_nil _ _) _

end Layout

/-! ## Feeds whose end has not come -/

namespace Feed

/-- A feed with the tokens `ts` before it, whose end of input has come only if nothing else is left. -/
structure Awaits (f : Feed) (ts : List Token) : Prop where
  faces : f.Faces ts
  finished : f.ended = true → ∀ u ∈ f.upcoming, u.kind = .endOfInput

theorem Awaits.not_ended {f : Feed} {t : Token} {ts : List Token} (h : f.Awaits (t :: ts)) : f.ended = false := by
  cases he : f.ended with
  | false => rfl
  | true =>
    obtain ⟨es, hu, -⟩ := h.faces.ends
    exact absurd (h.finished he t (by simp [hu])) (h.faces.plain t List.mem_cons_self).1

theorem awaits_nil {f : Feed} (h : f.Faces []) : f.Awaits [] where
  faces := h
  finished := by
    obtain ⟨es, hu, hes⟩ := h.ends
    rw [hu]
    exact fun _ => hes

theorem awaits_of_not_ended {f : Feed} {ts : List Token} (h : f.Faces ts) (he : f.ended = false) : f.Awaits ts where
  faces := h
  finished hended := by cases he.symm.trans hended

theorem awaits_ofTokens {ts : List Token} {e : Token} (he : e.kind = .endOfInput)
    (hts : ∀ t ∈ ts, t.kind ≠ .endOfInput ∧ t.kind ≠ .error) : (ofTokens (ts ++ [e])).Awaits ts :=
  awaits_of_not_ended (faces_ofTokens he hts) rfl

theorem ended_of_pull {f g : Feed} {t : Token} (h : f.pull = (t, g)) (ht : t.kind ≠ .endOfInput) : g.ended = f.ended := by
  unfold pull at h
  split at h <;> cases h
  · rfl
  · simp [ht]
  · rfl

theorem Awaits.next_cons {f : Feed} {t : Token} {ts : List Token} (h : f.Awaits (t :: ts)) :
    ∃ g, f.next = (.ok t, g) ∧ g.Awaits ts ∧ g.ended = false := by
  obtain ⟨g, hn, hg, -⟩ := h.faces.next_cons
  rcases hp : f.pull with ⟨u, r⟩
  by_cases hu : u.kind = .error
  · cases hn.symm.trans (next_of_pull_error hp hu)
  · cases hn.symm.trans (next_of_pull hp hu)
    have he := (ended_of_pull hp (h.faces.plain t List.mem_cons_self).1).trans h.not_ended
    exact ⟨_, hn, awaits_of_not_ended hg he, he⟩

theorem Awaits.peek_cons {f : Feed} {t : Token} {ts : List Token} (h : f.Awaits (t :: ts)) :
    ∃ g, f.peek = (.ok t, g) ∧ g.Awaits (t :: ts) := by
  obtain ⟨g, hn, hg⟩ := h.faces.peek_cons
  rcases hp : f.pull with ⟨u, r⟩
  by_cases hu : u.kind = .error
  · cases hn.symm.trans (peek_of_pull_error hp hu)
  · cases hn.symm.trans (peek_of_pull hp hu)
    have he := (ended_of_pull hp (h.faces.plain t List.mem_cons_self).1).trans h.not_ended
    exact ⟨_, hn, awaits_of_not_ended hg he⟩

def Orderly (f : Feed) : Prop := ∃ ts, f.Awaits ts

theorem lasting_orderly : Lasting Orderly where
  next f h := by
    obtain ⟨ts, h⟩ := h
    cases ts with
    | nil =>
      obtain ⟨e, g, hn, -, hg⟩ := h.faces.next_nil
      rw [hn]
      exact ⟨[], awaits_nil hg⟩
    | cons t ts =>
      obtain ⟨g, hn, hg, -⟩ := h.next_cons
      rw [hn]
      exact ⟨ts, hg⟩
  peek f h := by
    obtain ⟨ts, h⟩ := h
    cases ts with
    | nil =>
      obtain ⟨e, g, hn, -, hg⟩ := h.faces.peek_nil
      rw [hn]
      exact ⟨[], awaits_nil hg⟩
    | cons t ts =>
      obtain ⟨g, hn, hg⟩ := h.peek_cons
      rw [hn]
      exact ⟨_, hg⟩

end Feed

namespace Reading

variable {α β : Type} {ts : List Token} {C : Prop}

/-! ## Failing at the end -/

/-- If the reading fails before the tokens `ts` when the end has come, then `C`. -/
def Lacks (x : Reading α) (ts : List Token) (C : Prop) : Prop :=
  ∀ (p q : Progress) (e : ParseFault), p.feed.Awaits ts → x.run p = .failed e q → q.feed.ended = true → C

def LacksBehind (x : Reading α) (ts : List Token) (C : Prop) : Prop :=
  ∀ (p q : Progress) (e : ParseFault), p.feed.Awaits ts → p.feed.ended = false → x.run p = .failed e q →
    q.feed.ended = true → C

theorem Lacks.mono {D : Prop} {x : Reading α} (hx : x.Lacks ts C) (h : C → D) : x.Lacks ts D :=
  fun p q e hp hr hq => h (hx p q e hp hr hq)

theorem Lacks.behind {x : Reading α} (hx : x.Lacks ts C) : x.LacksBehind ts C := fun p q e hp _ => hx p q e hp

theorem lacksBehind_fail (f : ParseFault) : (fail f : Reading α).LacksBehind ts C := by
  intro p q e _ hended h hq
  cases h
  cases hended.symm.trans hq

theorem Gives.lacks {x : Reading α} {a : α} {rest : List Token} (hx : x.Gives ts a rest) : x.Lacks ts C := by
  intro p q e hp h
  obtain ⟨r, hr, -⟩ := hx p hp.faces
  cases hr.symm.trans h

theorem lacks_pure (a : α) : (pure a : Reading α).Lacks ts C := (gives_pure a ts).lacks

theorem Lacks.bind {x : Reading α} {f : α → Reading β} {P : α → List Token → Prop} (hkeeps : x.Keeps Feed.Orderly)
    (hens : x.Ensures ts P) (hx : x.Lacks ts C) (hf : ∀ a mid, P a mid → (f a).Lacks mid C) : (x >>= f).Lacks ts C := by
  intro p r e hp h hr
  rw [run_bind] at h
  split at h
  · rename_i a q hq
    obtain ⟨mid, hmid, hP⟩ := hens p q a hp.faces hq
    have horderly := hkeeps p ⟨ts, hp⟩
    rw [hq] at horderly
    obtain ⟨us, hus⟩ := horderly
    exact hf a mid hP q r e ⟨hmid, hus.finished⟩ h hr
  · rename_i e' q hq
    cases h
    exact hx p r e hp hq hr
  · cases h

theorem lacks_taking {f : Token → Reading β} (hnil : ts = [] → C) (hcons : ∀ t mid, ts = t :: mid → (f t).LacksBehind mid C) :
    (next >>= f).Lacks ts C := by
  intro p q e hp h hq
  cases ts with
  | nil => exact hnil rfl
  | cons t mid =>
    obtain ⟨g, hn, hg, hended⟩ := hp.next_cons
    rw [run_bind, next, run_ofFeed, hn] at h
    exact hcons t mid rfl _ q e hg hended h hq

theorem lacks_peek_bind {f : Token → Reading β}
    (hf : ∀ t, ((∃ more, ts = t :: more) ∨ t.kind = .endOfInput ∧ ts = []) → (f t).Lacks ts C) :
    (peek >>= f).Lacks ts C := by
  refine Lacks.bind (keeps_ofFeed Feed.lasting_orderly.peek) (ensures_peek ts) ?_ ?_
  · cases ts with
    | nil =>
      intro p q e hp h
      obtain ⟨t, g, hn, -⟩ := hp.faces.peek_nil
      rw [peek, run_ofFeed, hn] at h
      cases h
    | cons t ts => exact (gives_peek t ts).lacks
  · rintro t mid ⟨rfl, ht⟩
    exact hf t ht

theorem lacks_expect {kind : Kind} {expected : String} (hnil : ts = [] → C) : (expect kind expected).Lacks ts C := by
  refine lacks_taking hnil fun t mid _ => ?_
  split
  · exact (lacks_pure t).behind
  · exact lacksBehind_fail _

theorem keeps_expect (kind : Kind) (expected : String) : (expect kind expected).Keeps Feed.Orderly :=
  (hereditary_keeps Feed.lasting_orderly).answering.expect kind expected

theorem lacks_exhausted : (exhausted : Reading α).Lacks ts C := by
  intro p q e _ h
  cases h

theorem Lacks.returning {x : Reading α} {f : α → Reading β} (hx : x.Lacks ts C) (hf : ∀ a, ∃ b, f a = pure b) :
    (x >>= f).Lacks ts C := by
  intro p r e hp h hr
  rw [run_bind] at h
  split at h
  · rename_i a q hq
    obtain ⟨b, hb⟩ := hf a
    rw [hb] at h
    cases h
  · rename_i e' q hq
    cases h
    exact hx p r e hp hq hr
  · cases h

end Reading

namespace Layout

open Reading (ensures_expect ensures_peek gives_next gives_note gives_skipUntil lacks_taking lacks_peek_bind lacks_expect
  lacks_pure lacks_exhausted lacksBehind_fail keeps_expect keeps_tag hereditary_keeps)

/-! ## What is the start of a layout -/

def StartsTag (ts : List Token) : Prop := ∃ g : Tag [], Extends g.tokens ts ∧ ∀ us, g.Fits us

/-- Tokens that are the start of items and of what is to end them. -/
def Starts (ends : List Token → Prop) (ts : List Token) : Prop :=
  ∃ (is : List (Item [])) (us : List Token), Extends (tokensOf is ++ us) ts ∧ Complete is ∧ ends us

/-- Tokens of a closer that may stand before anything. -/
def Closes (word : String) (us : List Token) : Prop := ∃ c : Closer word, us = c.tokens ∧ ∀ vs, c.Fits vs

def Finishes (us : List Token) : Prop := ∃ e : Ending [], us = e.tokens ∧ ∀ vs, e.Fits vs

/-- Tokens that are the start of a conditional, behind its keyword. -/
def StartsCondition (ts : List Token) : Prop :=
  ∃ (c : Condition) (is : List (Item [])) (us : List Token), Extends (c.tokens ++ (tokensOf is ++ us)) ts ∧ Complete is ∧
    Finishes us

theorem closes_plain (word : String) : Closes word (plainCloser word).tokens := ⟨_, rfl, fits_plainCloser word⟩

theorem finishes_plain : Finishes (plainCloser "endif").tokens := ⟨.close (plainCloser "endif"), rfl, fits_plainCloser _⟩

namespace Starts

variable {ends : List Token → Prop} {ts us : List Token}

theorem of_ends (h : Extends us ts) (hus : ends us) : Starts ends ts := ⟨[], us, h, fun _ => trivial, hus⟩

theorem text {t : Token} (ht : t.kind = .text) (h : Starts ends ts) : Starts ends (t :: ts) := by
  obtain ⟨is, us, hext, his, hus⟩ := h
  exact ⟨.text ⟨t, ht⟩ :: is, us, hext.cons t, fun rest => ⟨trivial, his rest⟩, hus⟩

theorem opening {t : Token} (ht : t.kind = .tagStart) (h : StartsTag ts) (hus : ends us) (hplain : Plain us) :
    Starts ends (t :: ts) := by
  obtain ⟨g, hext, hg⟩ := h
  refine ⟨[.tag ⟨t, ht⟩ g], us, ?_, fun rest => ⟨hg _, trivial⟩, hus⟩
  have h := (hext.append hplain).cons t
  simpa [tokensOf, Item.tokens] using h

theorem tag {t : Token} (ht : t.kind = .tagStart) {g : Tag []} (hg : g.Fits ts) (h : Starts ends ts) :
    Starts ends (t :: (g.tokens ++ ts)) := by
  obtain ⟨is, us, hext, his, hus⟩ := h
  obtain ⟨g', fill, hg', hfill, hfits⟩ := g.exists_closed hg
  refine ⟨.tag ⟨t, ht⟩ g' :: is, us, ?_, fun rest => ⟨hfits _, his rest⟩, hus⟩
  have h := ((hext.insert hfill.plain hfill.atEnd).prepend g.tokens).cons t
  simpa [tokensOf, Item.tokens, hg'] using h

theorem drop {more : List Token} (hmore : Plain more) (h : Starts ends (ts ++ more)) : Starts ends ts := by
  obtain ⟨is, us, ⟨more', heq, hmore'⟩, his, hus⟩ := h
  exact ⟨is, us, ⟨more ++ more', heq.trans (List.append_assoc ..), plain_append hmore hmore'⟩, his, hus⟩

end Starts

theorem StartsTag.drop {ts more : List Token} (hmore : Plain more) (h : StartsTag (ts ++ more)) : StartsTag ts := by
  obtain ⟨g, ⟨more', heq, hmore'⟩, hg⟩ := h
  exact ⟨g, ⟨more ++ more', heq.trans (List.append_assoc ..), plain_append hmore hmore'⟩, hg⟩

theorem startsTag_block {keyword title closing : Token} {ts : List Token} (hkeyword : keyword.kind = .blockWord)
    (htitle : title.kind = .identifier) (hclosing : closing.kind = .tagEnd) (h : Starts (Closes "endblock") ts) :
    StartsTag (keyword :: title :: closing :: ts) := by
  obtain ⟨is, -, hext, his, c, rfl, hc⟩ := h
  refine ⟨.block ⟨keyword, hkeyword⟩ ⟨title, htitle⟩ ⟨closing, hclosing⟩ is c, ?_, fun us => ⟨his _, hc us⟩⟩
  exact ((hext.cons closing).cons title).cons keyword

theorem startsTag_conditional {keyword : Token} {ts : List Token} (hkeyword : keyword.kind = .ifWord)
    (h : StartsCondition ts) : StartsTag (keyword :: ts) := by
  obtain ⟨c, is, -, hext, his, e, rfl, he⟩ := h
  exact ⟨.conditional ⟨keyword, hkeyword⟩ c is e, hext.cons keyword, fun us => ⟨his _, he us⟩⟩

def aTitle : Token := ⟨.identifier, "a", .origin⟩

theorem plain_title : Plain [aTitle, tagEnd.1] := by simp [Plain, aTitle, tagEnd, TokenOf.of]

theorem starts_plain (word : String) : Starts (Closes word) [] :=
  .of_ends (.of_plain (plain_plainCloser word)) (closes_plain word)

theorem startsTag_nil : StartsTag [] := by
  have h : StartsTag ([] ++ [⟨.blockWord, "block", .origin⟩, aTitle, tagEnd.1]) :=
    startsTag_block rfl rfl rfl (starts_plain "endblock")
  exact h.drop (by simp [Plain, aTitle, tagEnd, TokenOf.of])

theorem startsCondition_of_branches {c : Condition} {ts : List Token} (h : Starts Finishes ts) :
    StartsCondition (c.tokens ++ ts) := by
  obtain ⟨is, us, hext, his, hus⟩ := h
  exact ⟨c, is, us, hext.prepend c.tokens, his, hus⟩

theorem startsCondition_of_parts {c : Condition} {ts : List Token} (h : c.tokens = ts ++ [tagEnd.1]) :
    StartsCondition ts := by
  refine ⟨c, [], _, ⟨tagEnd.1 :: (plainCloser "endif").tokens, ?_, ?_⟩, fun _ => trivial, finishes_plain⟩
  · rw [h, List.append_assoc]
    rfl
  · exact plain_append plain_tagEnd (plain_plainCloser "endif")

theorem starts_another {opening keyword : Token} {ts : List Token} (hopening : opening.kind = .tagStart)
    (hkeyword : keyword.kind = .elifWord) (h : StartsCondition ts) : Starts Finishes (opening :: keyword :: ts) := by
  obtain ⟨c, is, -, hext, his, e, rfl, he⟩ := h
  exact .of_ends ((hext.cons keyword).cons opening)
    ⟨.another ⟨opening, hopening⟩ ⟨keyword, hkeyword⟩ c is e, rfl, fun us => ⟨his _, he us⟩⟩

theorem starts_otherwise {opening keyword closing : Token} {ts : List Token} (hopening : opening.kind = .tagStart)
    (hkeyword : keyword.kind = .elseWord) (hclosing : closing.kind = .tagEnd) (h : Starts (Closes "endif") ts) :
    Starts Finishes (opening :: keyword :: closing :: ts) := by
  obtain ⟨is, -, hext, his, c, rfl, hc⟩ := h
  exact .of_ends (((hext.cons closing).cons keyword).cons opening)
    ⟨.otherwise ⟨opening, hopening⟩ ⟨keyword, hkeyword⟩ ⟨closing, hclosing⟩ is c, rfl, fun us => ⟨his _, hc us⟩⟩

/-! ## The induction -/

theorem lacks_conditionWithin (n : Nat) (ts : List Token) :
    (Reading.conditionWithin n).Lacks ts (∃ c : Condition, c.tokens = ts ++ [tagEnd.1]) := by
  induction n generalizing ts with
  | zero => exact lacks_exhausted
  | succ n ih =>
    rw [Reading.conditionWithin]
    refine lacks_taking (fun h => ⟨⟨[], tagEnd⟩, by rw [h]; rfl⟩) ?_
    rintro t mid rfl
    split
    · exact (lacks_pure _).behind
    · split
      · exact lacksBehind_fail _
      · rename_i node ho
        refine (((ih mid).mono ?_).returning fun _ => ⟨_, rfl⟩).behind
        rintro ⟨c, hc⟩
        exact ⟨⟨⟨t, node, operand_eq_ok_iff.1 ho⟩ :: c.parts, c.closing⟩, congrArg (t :: ·) hc⟩

theorem lacks_condition (ts : List Token) : Reading.condition.Lacks ts (∃ c : Condition, c.tokens = ts ++ [tagEnd.1]) := by
  intro p q e hp h
  rw [← Reading.run_conditionWithin _ p (Nat.lt_succ_self _)] at h
  exact lacks_conditionWithin _ ts p q e hp h

mutual

theorem lacks_tag : ∀ (n : Nat) (ts : List Token), (Reading.tag .empty n).Lacks ts (StartsTag ts)
  | 0, _ => lacks_exhausted
  | n + 1, ts => by
    rw [Reading.tag]
    refine lacks_taking (fun h => h ▸ startsTag_nil) ?_
    rintro keyword mid rfl
    split
    · rename_i hk
      refine (Reading.Lacks.bind (keeps_expect _ _) (ensures_expect mid (by decide)) (lacks_expect ?_) ?_).behind
      · rintro rfl
        exact .drop plain_title (startsTag_block hk rfl rfl (starts_plain _))
      · rintro title mid ⟨rfl, htitle⟩
        refine Reading.Lacks.bind (keeps_expect _ _) (ensures_expect mid (by decide)) (lacks_expect ?_) ?_
        · rintro rfl
          exact .drop plain_tagEnd (startsTag_block hk htitle rfl (starts_plain _))
        · rintro closing mid ⟨rfl, hclosing⟩
          refine ((lacks_body n "endblock" mid).mono fun h => ?_).returning fun _ => ⟨_, rfl⟩
          exact startsTag_block hk htitle hclosing h
    · rename_i hk
      exact ((lacks_conditional n keyword mid).mono (startsTag_conditional hk)).behind
    · exact lacksBehind_fail _
    · exact lacksBehind_fail _
    · exact lacksBehind_fail _

theorem lacks_body : ∀ (n : Nat) (close : String) (ts : List Token),
    (Reading.body .empty n close).Lacks ts (Starts (Closes close) ts)
  | 0, _, _ => lacks_exhausted
  | n + 1, close, ts => by
    rw [Reading.body]
    refine lacks_taking (fun h => h ▸ starts_plain close) ?_
    rintro t mid rfl
    split
    · rename_i hk
      exact (((lacks_body n close mid).mono (.text hk)).returning fun _ => ⟨_, rfl⟩).behind
    · rename_i hk
      refine (lacks_peek_bind fun word _ => ?_).behind
      split
      · exact (gives_skipUntil .tagEnd mid).lacks.returning fun _ => ⟨_, rfl⟩
      · refine Reading.Lacks.bind (keeps_tag Feed.lasting_orderly Catalog.neverPutsBack_empty n) (ensures_tag n mid)
          ((lacks_tag n mid).mono fun h => .opening hk h (closes_plain close) (plain_plainCloser close)) ?_
        rintro node mid ⟨g, rfl, hg, rfl⟩
        exact ((lacks_body n close mid).mono (.tag hk hg)).returning fun _ => ⟨_, rfl⟩
    · exact lacksBehind_fail _
    · exact lacksBehind_fail _

theorem lacks_conditional : ∀ (n : Nat) (keyword : Token) (ts : List Token),
    (Reading.conditional .empty n keyword).Lacks ts (StartsCondition ts)
  | 0, _, _ => lacks_exhausted
  | n + 1, keyword, ts => by
    rw [Reading.conditional]
    refine Reading.Lacks.bind (hereditary_keeps Feed.lasting_orderly).condition (ensures_condition ts)
      ((lacks_condition ts).mono ?_) ?_
    · rintro ⟨c, hc⟩
      exact startsCondition_of_parts hc
    · rintro _ mid ⟨c, rfl, rfl⟩
      exact ((lacks_branches n mid).mono startsCondition_of_branches).returning fun _ => ⟨_, rfl⟩

theorem lacks_branches : ∀ (n : Nat) (ts : List Token), (Reading.branches .empty n).Lacks ts (Starts Finishes ts)
  | 0, _ => lacks_exhausted
  | n + 1, ts => by
    have hplain : Plain (plainCloser "endif").tokens := plain_plainCloser "endif"
    rw [Reading.branches]
    refine lacks_taking (fun h => h ▸ .of_ends (.of_plain hplain) finishes_plain) ?_
    rintro t mid rfl
    split
    · rename_i hk
      exact (((lacks_branches n mid).mono (.text hk)).returning fun _ => ⟨_, rfl⟩).behind
    · rename_i hk
      refine (lacks_peek_bind fun word hword => ?_).behind
      split
      · rename_i hw
        obtain ⟨more, rfl⟩ : ∃ more, mid = word :: more := hword.resolve_right (by simp [hw])
        refine lacks_taking (fun h => by cases h) ?_
        rintro keyword more h
        cases h
        have hinner := (lacks_conditional n word more).mono (starts_another hk hw)
        refine (Reading.Lacks.bind ((hereditary_keeps Feed.lasting_orderly).note _) (gives_note _ more).only (gives_note _ more).lacks ?_).behind
        rintro _ more ⟨-, rfl⟩
        exact hinner.returning fun _ => ⟨_, rfl⟩
      · rename_i hw
        obtain ⟨more, rfl⟩ : ∃ more, mid = word :: more := hword.resolve_right (by simp [hw])
        refine lacks_taking (fun h => by cases h) ?_
        rintro keyword more h
        cases h
        refine (Reading.Lacks.bind (keeps_expect _ _) (ensures_expect more (by decide)) (lacks_expect ?_) ?_).behind
        · rintro rfl
          exact .drop plain_tagEnd (starts_otherwise hk hw rfl (starts_plain _))
        · rintro closing more ⟨rfl, hclosing⟩
          exact ((lacks_body n "endif" more).mono (starts_otherwise hk hw hclosing)).returning fun _ => ⟨_, rfl⟩
      · split
        · exact (gives_skipUntil .tagEnd mid).lacks.returning fun _ => ⟨_, rfl⟩
        · refine Reading.Lacks.bind (keeps_tag Feed.lasting_orderly Catalog.neverPutsBack_empty n) (ensures_tag n mid)
            ((lacks_tag n mid).mono fun h => .opening hk h finishes_plain hplain) ?_
          rintro node mid ⟨g, rfl, hg, rfl⟩
          exact ((lacks_branches n mid).mono (.tag hk hg)).returning fun _ => ⟨_, rfl⟩
    · exact lacksBehind_fail _
    · exact lacksBehind_fail _

end

/-- A template that ends too early is the start of one. -/
theorem starts_of_template : ∀ (n : Nat) (ts : List Token) (nodes : List Node) (e : ParseFault) (p q : Progress),
    p.feed.Awaits ts → Reading.template .empty n p = (nodes, .failed e q) → q.feed.ended = true → Starts (· = []) ts
  | 0, _, _, _, _, _, _, h, _ => by cases h
  | _ + 1, [], _, _, _, _, _, _, _ => .of_ends (.refl []) rfl
  | n + 1, t :: ts, nodes, e, p, q, hp, h, hq => by
    obtain ⟨g, hn, hg, hended⟩ := hp.next_cons
    rw [Reading.template, Reading.next, Reading.run_ofFeed, hn] at h
    simp only at h
    split at h
    · cases h
    · rename_i hk
      obtain ⟨-, hend⟩ := Prod.mk.inj h
      exact (starts_of_template n ts _ e _ q hg (Prod.ext rfl hend) hq).text hk
    · rename_i hk
      have hens := ensures_tag n ts { p with feed := g }
      have hlacks := lacks_tag n ts { p with feed := g }
      have hkeeps := keeps_tag Feed.lasting_orderly Catalog.neverPutsBack_empty n { p with feed := g } ⟨ts, hg⟩
      split at h
      · rename_i e' r hr
        cases h
        exact .opening hk (hlacks q e hg hr hq) rfl (fun _ h => by cases h)
      · cases h
      · rename_i node r hr
        obtain ⟨mid, hmid, tag, rfl, htag, -⟩ := hens r node hg.faces hr
        rw [hr] at hkeeps
        obtain ⟨us, hus⟩ := hkeeps
        obtain ⟨-, hend⟩ := Prod.mk.inj h
        exact (starts_of_template n mid _ e r q ⟨hmid, hus.finished⟩ (Prod.ext rfl hend) hq).tag hk htag
    · cases h
      cases hended.symm.trans hq

end Layout
end Stencil
