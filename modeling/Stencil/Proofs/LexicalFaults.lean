import Stencil.Draft
import Stencil.Proofs.Blame
import Stencil.Proofs.Dialogue
import Stencil.Proofs.Horizon
/-!
# No lexical fault is swallowed

A fault is in front from the moment on that it was asked for (`Feed.Follows.jammed_iff`), and an answer is a fault just if
one is in front then (`Feed.Answered`).  So whatever a dialogue asks for afterwards is answered with the same fault
(`Feed.Heard`); and a template ends well only with an end of input, which is not what is in front.
-/
namespace Stencil

/-! ## Faults that stay -/

variable {ts : List Token}

theorem FaultAt.le_length {k : Nat} {e : ParseFault} (h : FaultAt ts k e) : k ≤ ts.length := by
  cases h with
  | token h => exact Nat.le_of_lt (List.getElem?_eq_some_iff.1 h).1
  | closed => exact Nat.le_refl _

/-- Behind tokens without a fault there is one fault at most. -/
theorem FaultAt.unique {k l : Nat} {e e' : ParseFault} (h : FaultAt ts k e) (hclean : ∀ u ∈ ts.take k, u.kind ≠ .error)
    (h' : FaultAt ts l e') (hl : l ≤ k) : e' = e := by
  cases h' with
  | @token _ t ht hk =>
    obtain ⟨hlen, rfl⟩ := List.getElem?_eq_some_iff.1 ht
    rcases Nat.lt_or_eq_of_le hl with hlt | rfl
    · exact absurd hk (hclean _ (List.mem_take_iff_getElem.2 ⟨l, by omega, rfl⟩))
    · cases h with
      | token hu =>
        cases ht.symm.trans hu
        rfl
      | closed => exact absurd hlen (Nat.lt_irrefl _)
  | closed hopen =>
    obtain rfl := Nat.le_antisymm h.le_length hl
    cases h with
    | token ht => exact absurd (List.getElem?_eq_some_iff.1 ht).1 (Nat.lt_irrefl _)
    | closed => rfl

theorem not_faultAt {asked k : Nat} {e : ParseFault} (hclean : ∀ u ∈ ts.take asked, u.kind ≠ .error)
    (hwithin : ¬RanOut ts asked) (hk : k < asked) : ¬FaultAt ts k e := by
  intro h
  cases h with
  | token ht herr =>
    obtain ⟨hlen, rfl⟩ := List.getElem?_eq_some_iff.1 ht
    exact hclean _ (List.mem_take_iff_getElem.2 ⟨k, by omega, rfl⟩) herr
  | closed hopen => exact hwithin ⟨hk, hopen⟩

namespace Feed

/-- The token that the fault `e` is about is in front. -/
def Jammed (f : Feed) (e : ParseFault) : Prop := ∃ t front, f.front = t :: front ∧ t.kind = .error ∧ lexicalFault t = e

theorem not_jammed {f : Feed} (h : f.front = []) (e : ParseFault) : ¬f.Jammed e := by
  rintro ⟨t, front, hfront, -⟩
  cases h.symm.trans hfront

theorem jammed_putBack {f : Feed} {t : Token} {e : ParseFault} :
    (f.putBack t).Jammed e ↔ t.kind = .error ∧ lexicalFault t = e := by
  constructor
  · rintro ⟨u, front, hfront, hu⟩
    obtain ⟨rfl, -⟩ := List.cons.inj hfront
    exact hu
  · exact fun h => ⟨t, f.front, rfl, h⟩

theorem Follows.jammed_iff {f : Feed} (h : f.Follows ts) (e : ParseFault) :
    f.Jammed e ↔ ∃ k, k < f.asked ∧ FaultAt ts k e := by
  rcases h.fronts with ⟨hfront, -, hclean, hwithin⟩ | ⟨t, hfront, htaken, hfault⟩
  · refine iff_of_false (not_jammed hfront e) ?_
    rintro ⟨k, hk, he⟩
    exact not_faultAt hclean hwithin hk he
  · by_cases ht : t.kind = .error
    · obtain ⟨k, hasked, hk⟩ := hfault ht
      have hclean : ∀ u ∈ ts.take k, u.kind ≠ .error := by
        have := h.earlier
        rwa [hasked] at this
      constructor
      · rintro ⟨u, front, hu, -, rfl⟩
        obtain ⟨rfl, -⟩ := List.cons.inj (hfront.symm.trans hu)
        exact ⟨k, by omega, hk⟩
      · rintro ⟨l, hl, he⟩
        exact ⟨t, [], hfront, ht, (hk.unique hclean he (by omega)).symm⟩
    · obtain ⟨htaken, hclean⟩ := htaken ht
      refine iff_of_false ?_ ?_
      · rintro ⟨u, front, hu, hkind, -⟩
        obtain ⟨rfl, -⟩ := List.cons.inj (hfront.symm.trans hu)
        exact ht hkind
      · rintro ⟨k, hk, he⟩
        exact not_faultAt hclean htaken.within hk he

/-! ### One call -/

/-- A call before the feed `f` of the source `ts` with the answer `r` leaves the feed `g`, which is jammed just if the answer
is a fault, and with that one. -/
structure Answered {α : Type} (ts : List Token) (f : Feed) (r : Except ParseFault α) (g : Feed) : Prop where
  follows : g.Follows ts
  asked_le : f.asked ≤ g.asked
  error_iff : ∀ e, r = .error e ↔ g.Jammed e

theorem Follows.answered_next {f : Feed} (h : f.Follows ts) : Answered ts f f.next.1 f.next.2 := by
  have hle := (lasting_le_asked f.asked).next f (Nat.le_refl _)
  rcases hp : f.pull with ⟨t, r⟩
  obtain ⟨-, hfront⟩ := h.pull hp
  by_cases ht : t.kind = .error
  · have hn := next_of_pull_error hp ht
    have hg := (h.next_error hn).1
    rw [hn] at hle ⊢
    refine ⟨hg, hle, fun e => ?_⟩
    rw [jammed_putBack]
    exact ⟨fun he => ⟨ht, Except.error.inj he⟩, fun he => congrArg Except.error he.2⟩
  · have hn := next_of_pull hp ht
    have hg := (h.next hn).1
    rw [hn] at hle ⊢
    exact ⟨hg, hle, fun e => iff_of_false (fun he => by cases he) (not_jammed hfront e)⟩

theorem Follows.answered_peek {f : Feed} (h : f.Follows ts) : Answered ts f f.peek.1 f.peek.2 := by
  have hle := (lasting_le_asked f.asked).peek f (Nat.le_refl _)
  rcases hp : f.pull with ⟨t, r⟩
  by_cases ht : t.kind = .error
  · have hn := peek_of_pull_error hp ht
    have hg := (h.peek hn).1
    rw [hn] at hle ⊢
    refine ⟨hg, hle, fun e => ?_⟩
    rw [jammed_putBack]
    exact ⟨fun he => ⟨ht, Except.error.inj he⟩, fun he => congrArg Except.error he.2⟩
  · have hn := peek_of_pull hp ht
    have hg := (h.peek hn).1
    rw [hn] at hle ⊢
    refine ⟨hg, hle, fun e => iff_of_false (fun he => by cases he) ?_⟩
    rw [jammed_putBack]
    exact fun he => ht he.1

theorem Follows.answered_skipUntil (kind : Kind) {f : Feed} (h : f.Follows ts) :
    Answered ts f (f.skipUntil kind).1 (f.skipUntil kind).2 := by
  have hnext := h.answered_next
  rcases hn : f.next with ⟨e | t, g⟩
  · rw [hn] at hnext
    simp only [skipUntil_eq kind f, hn]
    exact ⟨hnext.follows, hnext.asked_le, fun e' => by rw [← hnext.error_iff e', Except.error.injEq, Except.error.injEq]⟩
  · rw [hn] at hnext
    by_cases ht : t.kind = kind ∨ t.kind = .endOfInput
    · simp only [skipUntil_eq kind f, hn, if_pos ht]
      refine ⟨hnext.follows, hnext.asked_le, fun e => iff_of_false (fun he => by cases he) fun he => ?_⟩
      cases (hnext.error_iff e).2 he
    · simp only [skipUntil_eq kind f, hn, if_neg ht]
      have ih := hnext.follows.answered_skipUntil kind
      exact ⟨ih.follows, Nat.le_trans hnext.asked_le ih.asked_le, ih.error_iff⟩
termination_by f.unread
decreasing_by exact unread_lt_of_next hn (fun hk => ht (.inr hk))

/-! ### One call after another -/

/-- The exchange ends with a fault just if that was met in the source `ts` by then. -/
def Exchange.Tells (ts : List Token) (r : Exchange) : Prop :=
  ∀ e, r.answer = .error e ↔ ∃ k, k < r.asked ∧ FaultAt ts k e

/-- What is heard of the source `ts` on the way from the feed `f` to the feed `g`. -/
structure Heard (ts : List Token) (f : Feed) (trace : List Exchange) (g : Feed) : Prop where
  follows : g.Follows ts
  asked_le : f.asked ≤ g.asked
  between : ∀ r ∈ trace, f.asked ≤ r.asked ∧ r.asked ≤ g.asked
  tells : ∀ r ∈ trace, r.Tells ts
  ordered : trace.Pairwise fun r s => r.asked ≤ s.asked
  /-- Whatever the source was asked for, it was asked for in one of the exchanges. -/
  covers : ∀ k, f.asked ≤ k → k < g.asked → ∃ r ∈ trace, k < r.asked

theorem Follows.heard_nil {f : Feed} (h : f.Follows ts) : Heard ts f [] f where
  follows := h
  asked_le := Nat.le_refl _
  between _ hr := by cases hr
  tells _ hr := by cases hr
  ordered := .nil
  covers _ hle hlt := absurd hlt (Nat.not_lt_of_le hle)

theorem Heard.append {f g h : Feed} {trace trace' : List Exchange} (hfg : Heard ts f trace g)
    (hgh : Heard ts g trace' h) : Heard ts f (trace ++ trace') h where
  follows := hgh.follows
  asked_le := Nat.le_trans hfg.asked_le hgh.asked_le
  between := List.forall_mem_append.2
    ⟨fun r hr => ⟨(hfg.between r hr).1, Nat.le_trans (hfg.between r hr).2 hgh.asked_le⟩,
      fun r hr => ⟨Nat.le_trans hfg.asked_le (hgh.between r hr).1, (hgh.between r hr).2⟩⟩
  tells := List.forall_mem_append.2 ⟨hfg.tells, hgh.tells⟩
  ordered := List.pairwise_append.2 ⟨hfg.ordered, hgh.ordered, fun r hr s hs =>
    Nat.le_trans (hfg.between r hr).2 (hgh.between s hs).1⟩
  covers k hle hlt := by
    by_cases hk : k < g.asked
    · obtain ⟨r, hr, hrk⟩ := hfg.covers k hle hk
      exact ⟨r, List.mem_append_left _ hr, hrk⟩
    · obtain ⟨r, hr, hrk⟩ := hgh.covers k (Nat.le_of_not_lt hk) hlt
      exact ⟨r, List.mem_append_right _ hr, hrk⟩

theorem Answered.heard {f : Feed} {c : Call} (h : Answered ts f (f.answer c).1 (f.answer c).2) :
    Heard ts f [f.exchange c] (f.answer c).2 where
  follows := h.follows
  asked_le := h.asked_le
  between := List.forall_mem_singleton.2 ⟨h.asked_le, Nat.le_refl _⟩
  tells := List.forall_mem_singleton.2 fun e => (h.error_iff e).trans (h.follows.jammed_iff e)
  ordered := List.pairwise_singleton ..
  covers _ _ hlt := ⟨_, List.mem_singleton_self _, hlt⟩

/-- A call may tell less of what it has read; its faults are the same. -/
theorem Answered.map {α β : Type} {f g : Feed} {r : Except ParseFault α} (h : Answered ts f r g) (m : α → β) :
    Answered ts f (r.map m) g where
  follows := h.follows
  asked_le := h.asked_le
  error_iff e := by
    rw [← h.error_iff e]
    cases r with
    | error e' =>
      exact ⟨fun he => congrArg Except.error (Except.error.inj he), fun he => congrArg Except.error (Except.error.inj he)⟩
    | ok a => exact iff_of_false (fun he => by cases he) fun he => by cases he

theorem Follows.heard_next {f : Feed} (h : f.Follows ts) : Heard ts f [f.exchange .next] f.next.2 :=
  (h.answered_next.map some).heard

theorem Follows.heard_peek {f : Feed} (h : f.Follows ts) : Heard ts f [f.exchange .peek] f.peek.2 :=
  (h.answered_peek.map some).heard

theorem Follows.heard_skipUntil (kind : Kind) {f : Feed} (h : f.Follows ts) :
    Heard ts f [f.exchange (.skipUntil kind)] (f.skipUntil kind).2 :=
  ((h.answered_skipUntil kind).map fun _ => none).heard

theorem Follows.heard_condition {f : Feed} (h : f.Follows ts) : Heard ts f f.conditionTrace f.condition.2 := by
  have hnext := h.heard_next
  rw [conditionTrace_eq, condition_eq]
  rcases hn : f.next with ⟨e | t, g⟩ <;> rw [hn] at hnext
  · exact hnext
  · simp only
    split
    · exact hnext
    · cases ho : t.operand with
      | error e => exact hnext
      | ok node =>
        have ih := hnext.append hnext.follows.heard_condition
        simp only
        rcases hc : g.condition with ⟨e | nodes, g'⟩ <;> rw [hc] at ih <;> exact ih
termination_by f.unread
decreasing_by exact unread_lt_of_next hn (Token.kind_ne_of_operand ho)

end Feed

theorem Reading.run_attempt_ofFeed_bind {α β : Type} (f : Feed → Except ParseFault α × Feed)
    (k : Except ParseFault α → Reading β) (p : Progress) :
    ((ofFeed f).attempt >>= k).run p = (k (f p.feed).1).run { p with feed := (f p.feed).2 } := by
  rw [run_bind, run_attempt, run_ofFeed]
  rcases f p.feed with ⟨_ | _, _⟩ <;> rfl

open Feed Reading in
/-- Call by call, whatever the dialogue does about the faults it is told. -/
theorem Dialogue.heard {α : Type} (d : Dialogue α) (p : Progress) (hp : p.feed.Follows ts) :
    Heard ts p.feed (d.trace p.feed) (d.run.run p).progress.feed := by
  induction d generalizing p with
  | done | failed | exhausted => exact hp.heard_nil
  | next k ih =>
    have h := hp.heard_next
    rw [run, Reading.next, run_attempt_ofFeed_bind]
    exact h.append (ih _ { p with feed := p.feed.next.2 } h.follows)
  | peek k ih =>
    have h := hp.heard_peek
    rw [run, Reading.peek, run_attempt_ofFeed_bind]
    exact h.append (ih _ { p with feed := p.feed.peek.2 } h.follows)
  | skipUntil kind k ih =>
    have h := hp.heard_skipUntil kind
    rw [run, Reading.skipUntil, run_attempt_ofFeed_bind]
    exact h.append (ih _ { p with feed := (p.feed.skipUntil kind).2 } h.follows)
  | condition k ih =>
    have h := hp.heard_condition
    rw [run, Reading.condition, run_attempt_ofFeed_bind]
    exact h.append (ih _ { p with feed := p.feed.condition.2 } h.follows)
  | here k ih => exact ih p.feed.last p hp
  | note e k ih => exact ih { p with journal := ⟨p.feed.asked, e⟩ :: p.journal } hp

/-! ## Templates and drafts -/

theorem Feed.lasting_follows (ts : List Token) : Lasting (Follows ts) where
  next _ h := h.answered_next.follows
  peek _ h := h.answered_peek.follows

open Reading in
theorem not_jammed_of_whole {tags : Catalog} (htags : tags.NeverPutsBack) {n : Nat} {p q : Progress} {nodes : List Node}
    (hp : p.feed.Follows ts) (h : (whole tags n).run p = .done (nodes, none) q) (e : ParseFault) : ¬q.feed.Jammed e := by
  have hlasting := Feed.lasting_follows ts
  obtain ⟨p', hp', hlast⟩ := exists_lastTurn (keeps_next hlasting) (keeps_tag hlasting htags) n p q nodes none hp h
  cases hlast with
  | ended hr =>
    have hnext := hp'.answered_next
    rw [next, run_ofFeed] at hr
    rcases hn : p'.feed.next with ⟨e' | t', g⟩ <;> rw [hn] at hr hnext <;> cases hr
    intro hjam
    cases (hnext.error_iff e).2 hjam

/-- The second exchange repeats the fault of the first, if that is one. -/
def Feed.Repeats (r s : Exchange) : Prop := ∀ e, r.answer = .error e → s.answer = .error e

theorem Feed.Heard.repeats {f g : Feed} {trace : List Exchange} (h : Heard ts f trace g) : trace.Pairwise Repeats := by
  refine h.ordered.imp_of_mem fun {r s} hr hs hle e he => ?_
  obtain ⟨k, hk, hfault⟩ := (h.tells r hr e).1 he
  exact (h.tells s hs e).2 ⟨k, Nat.lt_of_lt_of_le hk hle, hfault⟩

/-- **No lexical fault is swallowed.**  Where no tag puts anything back, the reading of a draft is a dialogue, and however
it is taken for one, with whatever the tags do about the faults they are told: every call is answered with a fault as
soon as one was met in the source, every later call with the same, and then the draft has a fault and counts as unread.
The calls are all that the source was asked for. -/
theorem Draft.lexical_faults_stay (d : Draft) (hd : d.tags.NeverPutsBack) (ts : List Token) :
    (∃ D : Dialogue (List Node × Option ParseFault), D.run = Reading.whole d.tags (Transcript.rounds ts.length)) ∧
      ∀ D : Dialogue (List Node × Option ParseFault),
        D.run = Reading.whole d.tags (Transcript.rounds ts.length) →
          (∃ q, D.run.run ⟨.ofTokens ts, []⟩ =
            .done ((d.parseTokens ts).1.root, (d.parseTokens ts).2.transcript.fault) q) ∧
          (∀ k, k < (d.parseTokens ts).2.transcript.asked → ∃ r ∈ D.trace (.ofTokens ts), k < r.asked) ∧
          (∀ r ∈ D.trace (.ofTokens ts), ∀ e, r.answer = .error e ↔ ∃ k, k < r.asked ∧ FaultAt ts k e) ∧
          (D.trace (.ofTokens ts)).Pairwise Feed.Repeats ∧
          ∀ r ∈ D.trace (.ofTokens ts), ∀ e, r.answer = .error e →
            (d.parseTokens ts).2.transcript.fault ≠ none ∧ (d.parseTokens ts).1.parsed = false := by
  refine ⟨Reading.isDialogue_whole hd _, fun D hD => ?_⟩
  simp only [parseTokens, transcript_parseSupply, root_parseSupply, parsed_parseSupply, Supply.tokens_silent]
  obtain ⟨nodes, fault, q, hwhole, htr⟩ := exists_whole hd ts
  have hrun := hwhole _ (Transcript.lt_rounds ts.length)
  rw [htr]
  have hfollows := Feed.follows_ofTokens ts
  have hheard := D.heard ⟨.ofTokens ts, []⟩ hfollows
  rw [hD, hrun] at hheard
  refine ⟨⟨q, by rw [hD, hrun]⟩, fun k => hheard.covers k (Nat.zero_le k), hheard.tells, hheard.repeats, ?_⟩
  intro r hr e he
  obtain ⟨k, hk, hfault⟩ := (hheard.tells r hr e).1 he
  have hjam : q.feed.Jammed e :=
    (hheard.follows.jammed_iff e).2 ⟨k, Nat.lt_of_lt_of_le hk (hheard.between r hr).2, hfault⟩
  cases fault with
  | none => exact absurd hjam (not_jammed_of_whole hd hfollows hrun e)
  | some e' => exact ⟨fun h => (by cases h), rfl⟩

def unmoved : Program := .skipUntil .tagEnd fun _ => .body "endquiet" fun _ => .give (.text 0 "")

def unmovedTags : Catalog := Catalog.empty.register "quiet" unmoved

theorem neverPutsBack_unmovedTags : unmovedTags.NeverPutsBack :=
  Catalog.neverPutsBack_empty.register "quiet" (.skipUntil _ _ fun _ => .body _ _ fun _ => .give _)

def brokenBody : List Token :=
  [⟨.tagStart, "\x7b%", ⟨0, 1, 1⟩⟩, ⟨.identifier, "quiet", ⟨3, 1, 4⟩⟩, ⟨.tagEnd, "%\x7d", ⟨9, 1, 10⟩⟩,
    ⟨.error, "unclosed comment", ⟨11, 1, 12⟩⟩]

theorem asked_brokenBody : (Transcript.ofTokens unmovedTags brokenBody).asked = 4 := by decide +kernel

theorem Draft.lexical_faults_stay_unmoved :
    ∃ D : Dialogue (List Node × Option ParseFault), D.run = Reading.whole unmovedTags (Transcript.rounds 4) ∧
      (∃ r ∈ D.trace (.ofTokens brokenBody), r.answer = .error ⟨⟨11, 1, 12⟩, .lexical "unclosed comment"⟩) ∧
      ((fresh "t" unmovedTags).parseTokens brokenBody).2.transcript.fault ≠ none ∧
      ((fresh "t" unmovedTags).parseTokens brokenBody).1.parsed = false := by
  obtain ⟨⟨D, hD⟩, hall⟩ := lexical_faults_stay (fresh "t" unmovedTags) neverPutsBack_unmovedTags brokenBody
  obtain ⟨-, hcovers, htells, -, hfault⟩ := hall D hD
  have hasked := asked_brokenBody
  rw [← Supply.tokens_silent brokenBody] at hasked
  obtain ⟨r, hr, hlt⟩ := hcovers 3 (Nat.lt_of_lt_of_le (Nat.lt_succ_self 3) (Nat.le_of_eq hasked.symm))
  have hheard := (htells r hr _).2 ⟨3, hlt, .token rfl rfl⟩
  exact ⟨D, hD, ⟨r, hr, hheard⟩, hfault r hr _ hheard⟩

end Stencil
