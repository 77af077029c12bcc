import Stencil.Proofs.Rounds
/-!
# No reading sees beyond what it asked for

What a source holds behind the tokens that a reading asked for makes no difference to it (`Reading.Local`): before another
source that starts with the same tokens it does the same and leaves the same, but for what is behind them.
-/
namespace Stencil

/-! ## Other sources -/

def Feed.withSource (f : Feed) (source : List Token) : Feed := { f with source := source }

def Progress.withSource (p : Progress) (source : List Token) : Progress := { p with feed := p.feed.withSource source }

def Outcome.withSource {α : Type} (o : Outcome α) (source : List Token) : Outcome α :=
  match o with
  | .done a p => .done a (p.withSource source)
  | .failed e p => .failed e (p.withSource source)
  | .exhausted p => .exhausted (p.withSource source)

namespace Feed

theorem asked_le_pull (f : Feed) : f.asked ≤ f.pull.2.asked := by
  unfold pull
  split
  · exact Nat.le_refl _
  · exact Nat.le_succ _
  · exact Nat.le_succ _

theorem lasting_le_asked (n : Nat) : Lasting (n ≤ ·.asked) where
  next f h := by
    refine Nat.le_trans h (Nat.le_trans f.asked_le_pull ?_)
    unfold next
    simp only
    split <;> exact Nat.le_refl _
  peek f h := Nat.le_trans h f.asked_le_pull

/-- Pulling a token that is among the first tokens of the source does not show what is behind them. -/
theorem pull_withSource {f : Feed} {s a : List Token} (b : List Token) (hs : f.source = s ++ a)
    (hasked : f.pull.2.asked ≤ f.asked + s.length) :
    ∃ s', f.pull.2.source = s' ++ a ∧ f.pull.2.asked + s'.length = f.asked + s.length ∧
      (f.withSource (s ++ b)).pull = (f.pull.1, f.pull.2.withSource (s' ++ b)) := by
  obtain ⟨front, source, last, ended, asked⟩ := f
  obtain rfl : source = s ++ a := hs
  cases front with
  | cons t front => exact ⟨s, rfl, rfl, rfl⟩
  | nil =>
    cases s with
    | cons t s => exact ⟨s, rfl, Nat.add_right_comm asked 1 s.length, rfl⟩
    | nil =>
      have hmore : ∀ l : List Token, (pull ⟨[], l, last, ended, asked⟩).2.asked = asked + 1 := by
        intro l
        cases l <;> rfl
      have : asked + 1 ≤ asked := Nat.le_trans (Nat.le_of_eq (hmore a).symm) hasked
      omega

end Feed

namespace Reading

variable {α β : Type}

/-- The reading asks ever more, and what is behind the tokens it asks for makes no difference to it. -/
structure Local (x : Reading α) : Prop where
  asks : ∀ n, x.Keeps (n ≤ ·.asked)
  swap : ∀ (p : Progress) (s a b : List Token), p.feed.source = s ++ a →
    (x.run p).progress.feed.asked ≤ p.feed.asked + s.length →
      ∃ s', (x.run p).progress.feed.source = s' ++ a ∧
        (x.run p).progress.feed.asked + s'.length = p.feed.asked + s.length ∧
          x.run (p.withSource (s ++ b)) = (x.run p).withSource (s' ++ b)

theorem Local.bind {x : Reading α} {f : α → Reading β} (hx : x.Local) (hf : ∀ a, (f a).Local) : (x >>= f).Local where
  asks n := (hx.asks n).bind fun a => (hf a).asks n
  swap p s a b hs hasked := by
    have hswap := hx.swap p s a b hs
    rw [run_bind] at hasked ⊢
    rw [run_bind]
    cases hr : x.run p with
    | done v q =>
      rw [hr] at hswap
      simp only [hr] at hasked ⊢
      have hmid : q.feed.asked ≤ ((f v).run q).progress.feed.asked := (hf v).asks q.feed.asked q (Nat.le_refl _)
      obtain ⟨s', hq, hlen, hrun⟩ := hswap (Nat.le_trans hmid hasked)
      obtain ⟨s'', hq', hlen', hrun'⟩ := (hf v).swap q s' a b hq (Nat.le_trans hasked (Nat.le_of_eq hlen.symm))
      refine ⟨s'', hq', hlen'.trans hlen, ?_⟩
      rw [hrun]
      exact hrun'
    | failed e q | exhausted q =>
      rw [hr] at hswap
      simp only [hr] at hasked ⊢
      obtain ⟨s', hq, hlen, hrun⟩ := hswap hasked
      refine ⟨s', hq, hlen, ?_⟩
      rw [hrun]
      rfl

theorem Local.attempt {x : Reading α} (hx : x.Local) : x.attempt.Local where
  asks n := (hx.asks n).attempt
  swap p s a b hs hasked := by
    have hswap := hx.swap p s a b hs
    rw [run_attempt] at hasked ⊢
    rw [run_attempt]
    cases hr : x.run p with
    | done v q | failed e q | exhausted q =>
      rw [hr] at hswap
      simp only [hr] at hasked ⊢
      obtain ⟨s', hq, hlen, hrun⟩ := hswap hasked
      refine ⟨s', hq, hlen, ?_⟩
      rw [hrun]
      rfl

theorem local_of_silent {x : Reading α} (hfeed : ∀ p, (x.run p).progress.feed = p.feed)
    (hrun : ∀ p s, x.run (p.withSource s) = (x.run p).withSource s) : x.Local where
  asks n p hp := by rwa [hfeed]
  swap p s a b hs _ := ⟨s, by rw [hfeed, hs], by rw [hfeed], hrun p _⟩

theorem local_ofFeed {f : Feed → Except ParseFault α × Feed} (hasks : ∀ n, (ofFeed f).Keeps (n ≤ ·.asked))
    (hswap : ∀ (feed : Feed) (s a b : List Token), feed.source = s ++ a → (f feed).2.asked ≤ feed.asked + s.length →
      ∃ s', (f feed).2.source = s' ++ a ∧ (f feed).2.asked + s'.length = feed.asked + s.length ∧
        f (feed.withSource (s ++ b)) = ((f feed).1, (f feed).2.withSource (s' ++ b))) : (ofFeed f).Local where
  asks := hasks
  swap p s a b hs hasked := by
    have h := hswap p.feed s a b hs
    have hrun := run_ofFeed f (p.withSource (s ++ b))
    rw [run_ofFeed] at hasked ⊢
    rcases hr : f p.feed with ⟨r, g⟩
    rw [hr] at h hasked
    cases r with
    | ok v | error e =>
      obtain ⟨s', hg, hlen, hsame⟩ := h hasked
      refine ⟨s', hg, hlen, hrun.trans ?_⟩
      rw [show (p.withSource (s ++ b)).feed = p.feed.withSource (s ++ b) from rfl, hsame]
      rfl

theorem local_next : (next).Local := by
  refine local_ofFeed (fun n => keeps_next (Feed.lasting_le_asked n)) fun f s a b hs hasked => ?_
  have hpull := Feed.pull_withSource b hs
  rcases hp : f.pull with ⟨t, g⟩
  rw [hp] at hpull
  by_cases ht : t.kind = .error
  · rw [Feed.next_of_pull_error hp ht] at hasked ⊢
    obtain ⟨s', hg, hlen, hp'⟩ := hpull hasked
    exact ⟨s', hg, hlen, Feed.next_of_pull_error hp' ht⟩
  · rw [Feed.next_of_pull hp ht] at hasked ⊢
    obtain ⟨s', hg, hlen, hp'⟩ := hpull hasked
    exact ⟨s', hg, hlen, Feed.next_of_pull hp' ht⟩

theorem local_peek : (peek).Local := by
  refine local_ofFeed (fun n => keeps_ofFeed (Feed.lasting_le_asked n).peek) fun f s a b hs hasked => ?_
  have hpull := Feed.pull_withSource b hs
  rcases hp : f.pull with ⟨t, g⟩
  rw [hp] at hpull
  by_cases ht : t.kind = .error
  · rw [Feed.peek_of_pull_error hp ht] at hasked ⊢
    obtain ⟨s', hg, hlen, hp'⟩ := hpull hasked
    exact ⟨s', hg, hlen, Feed.peek_of_pull_error hp' ht⟩
  · rw [Feed.peek_of_pull hp ht] at hasked ⊢
    obtain ⟨s', hg, hlen, hp'⟩ := hpull hasked
    exact ⟨s', hg, hlen, Feed.peek_of_pull hp' ht⟩

theorem closed_local : Closed Local := by
  intro α x xs hxs heq
  refine ⟨fun n => closed_keeps _ (fun m => (hxs m).asks n) heq, fun p s a b hs hasked => ?_⟩
  have hp := heq p (p.feed.unread + (p.withSource (s ++ b)).feed.unread + 1) (by omega)
  have hq := heq (p.withSource (s ++ b)) (p.feed.unread + (p.withSource (s ++ b)).feed.unread + 1) (by omega)
  rw [← hp] at hasked ⊢
  rw [← hq]
  exact (hxs _).swap p s a b hs hasked

theorem hereditary_local : Hereditary Local where
  pure _ := local_of_silent (fun _ => rfl) fun _ _ => rfl
  bind := Local.bind
  fail _ := local_of_silent (fun _ => rfl) fun _ _ => rfl
  exhausted := local_of_silent (fun _ => rfl) fun _ _ => rfl
  next := local_next
  peek := local_peek
  attempt := Local.attempt
  here := local_of_silent (fun _ => rfl) fun _ _ => rfl
  note _ := local_of_silent (fun _ => rfl) fun _ _ => rfl
  closed := closed_local

theorem local_putBack (t : Token) : (putBack t).Local where
  asks _ _ hp := hp
  swap _ s _ _ hs _ := ⟨s, hs, rfl, rfl⟩

theorem local_tag (tags : Catalog) (n : Nat) : (tag tags n).Local := by
  have hpieces : Congruence.PuttingBack fun x _ => Local x :=
    { hereditary_local.answering with putBack := local_putBack }
  have hlock : Lockstep (fun _ {_} x _ => Local x) (fun _ _ {_} x _ => Local x) tags tags 0 :=
    hpieces.lockstep fun _ => hereditary_local.exhausted
  exact hlock.tag n

/-! ## Templates -/

theorem local_turn (tags : Catalog) (n : Nat) : (turn tags n).Local :=
  @Congruence.turn (fun x _ => Local x) tags tags hereditary_local.answering.toCongruence n n (local_tag tags n)

theorem asked_le_template (tags : Catalog) (n : Nat) (p : Progress) :
    p.feed.asked ≤ (template tags n p).2.progress.feed.asked :=
  steady_template (fun n => (local_turn tags n).asks p.feed.asked) n p (Nat.le_refl _)

/-- What is behind the tokens that a template asked for makes no difference to it, however it ended. -/
theorem template_withSource (tags : Catalog) : ∀ (n : Nat) (p : Progress) (s a b : List Token),
    p.feed.source = s ++ a → (template tags n p).2.progress.feed.asked ≤ p.feed.asked + s.length →
      ∃ s', template tags n (p.withSource (s ++ b)) = ((template tags n p).1, (template tags n p).2.withSource (s' ++ b))
  | 0, _, s, _, _, _, _ => ⟨s, rfl⟩
  | n + 1, p, s, a, b, hs, hasked => by
    have hswap := (local_turn tags n).swap p s a b hs
    rw [template_succ] at hasked ⊢
    rw [template_succ]
    cases hr : (turn tags n).run p with
    | failed e q | exhausted q =>
      rw [hr] at hswap hasked
      obtain ⟨s', -, -, hrun⟩ := hswap hasked
      refine ⟨s', ?_⟩
      rw [hrun]
      rfl
    | done node q =>
      rw [hr] at hswap hasked
      cases node with
      | none =>
        obtain ⟨s', -, -, hrun⟩ := hswap hasked
        refine ⟨s', ?_⟩
        rw [hrun]
        rfl
      | some node =>
        obtain ⟨s', hq, hlen, hrun⟩ := hswap (Nat.le_trans (asked_le_template tags n q) hasked)
        obtain ⟨s'', hrest⟩ := template_withSource tags n q s' a b hq (Nat.le_trans hasked (Nat.le_of_eq hlen.symm))
        refine ⟨s'', ?_⟩
        rw [hrun]
        simp only [Outcome.withSource, hrest]

end Reading

/-! ## Transcripts -/

def Transcript.ofRounds (tags : Catalog) (n : Nat) (source : List Token) : Transcript :=
  ofEnding (Reading.template tags n ⟨.ofTokens source, []⟩)

theorem Transcript.ofEnding_withSource (nodes : List Node) (o : Outcome Unit) (source : List Token) :
    ofEnding (nodes, o.withSource source) = ofEnding (nodes, o) := by
  cases o <;> rfl

theorem Transcript.asked_ofEnding (nodes : List Node) (o : Outcome Unit) :
    (ofEnding (nodes, o)).asked = o.progress.feed.asked := by
  cases o <;> rfl

theorem Transcript.ofRounds_eq_of_asked_le {tags : Catalog} {n : Nat} {s a : List Token} (b : List Token)
    (h : (ofRounds tags n (s ++ a)).asked ≤ s.length) : ofRounds tags n (s ++ b) = ofRounds tags n (s ++ a) := by
  rw [ofRounds, asked_ofEnding] at h
  obtain ⟨s', hsame⟩ := Reading.template_withSource tags n ⟨.ofTokens (s ++ a), []⟩ s a b rfl
    (Nat.le_trans h (Nat.le_add_left ..))
  exact (congrArg ofEnding hsame).trans (ofEnding_withSource ..)

open Reading in
/-- What a source holds behind the tokens that were asked for makes no difference to its transcript. -/
theorem transcript_eq_of_take {tags : Catalog} (htags : tags.NeverPutsBack) {ts us : List Token} {k : Nat}
    (hasked : (Transcript.ofTokens tags ts).asked ≤ k) (hk : k ≤ ts.length) (h : us.take k = ts.take k) :
    Transcript.ofTokens tags us = Transcript.ofTokens tags ts := by
  obtain ⟨nodes, fault, q, hts, htr⟩ := exists_whole htags ts
  obtain ⟨nodes', fault', q', hus, htr'⟩ := exists_whole htags us
  have hrun := hts (ts.length + us.length + 1) (by omega)
  have hrun' := hus (ts.length + us.length + 1) (by omega)
  have hswap := (hereditary_local.whole htags (ts.length + us.length + 1)).swap ⟨.ofTokens ts, []⟩ (ts.take k)
    (ts.drop k) (us.drop k) (List.take_append_drop k ts).symm
  rw [htr] at hasked
  rw [hrun] at hswap
  have hlen : (ts.take k).length = k := List.length_take_of_le hk
  obtain ⟨s', -, -, hsame⟩ := hswap (Nat.le_trans hasked (Nat.le_trans (Nat.le_of_eq hlen.symm) (Nat.le_add_left ..)))
  rw [← h, List.take_append_drop] at hsame
  cases hrun'.symm.trans hsame
  rw [htr, htr']
  rfl

end Stencil
