import Stencil.Proofs.Keeps
/-!
# Enough rounds

Where no tag puts anything back, more rounds than tokens are enough, and then their number makes no difference.

For the first, what counts are the tokens that are neither ends of input nor faults (`Feed.remaining`).  Only they can be
taken off, and no round is used up without taking one, unless the reading ends there.  For the second, a reading with
more rounds does the same as one that was not exhausted.
-/
namespace Stencil

/-! ## What is left to be taken -/

def Token.isPlain (t : Token) : Bool := t.kind != .endOfInput && t.kind != .error

namespace Feed

/-- How many tokens can still be taken off. -/
def remaining (f : Feed) : Nat := f.upcoming.countP (·.isPlain)

theorem remaining_putBack (f : Feed) (t : Token) :
    (f.putBack t).remaining = f.remaining + if t.isPlain then 1 else 0 := List.countP_cons ..

theorem remaining_ofTokens_le (ts : List Token) : (ofTokens ts).remaining ≤ ts.length := List.countP_le_length

theorem remaining_of_pull {f g : Feed} {t : Token} (h : f.pull = (t, g)) :
    f.remaining = g.remaining + if t.isPlain then 1 else 0 := by
  rw [← remaining_putBack]
  cases hu : f.upcoming with
  | cons u us =>
    obtain ⟨g', hp, hg, -⟩ := pull_of_upcoming hu
    cases h.symm.trans hp
    rw [remaining, hu, ← hg]
    rfl
  | nil =>
    obtain ⟨g', hp, hg, -⟩ := pull_of_upcoming_nil hu
    cases h.symm.trans hp
    have hb : f.beyond.isPlain = false := by
      unfold beyond
      split <;> rfl
    rw [remaining_putBack, hb, remaining, remaining, hu, hg]
    rfl

theorem remaining_peek (f : Feed) : f.peek.2.remaining = f.remaining :=
  (remaining_putBack f.pull.2 f.pull.1).trans (remaining_of_pull rfl).symm

theorem remaining_next (f : Feed) :
    f.next.2.remaining ≤ f.remaining ∧ ∀ t g, f.next = (.ok t, g) → t.kind ≠ .endOfInput → g.remaining < f.remaining := by
  rcases hp : f.pull with ⟨u, r⟩
  have h := remaining_of_pull hp
  by_cases hu : u.kind = .error
  · rw [next_of_pull_error hp hu, remaining_putBack]
    exact ⟨Nat.le_of_eq h.symm, fun t g ht => by cases ht⟩
  · rw [next_of_pull hp hu]
    refine ⟨Nat.le_of_add_right_le (Nat.le_of_eq h.symm), fun t g ht hk => ?_⟩
    cases ht
    rw [Token.isPlain, bne_iff_ne.2 hk, bne_iff_ne.2 hu] at h
    exact Nat.lt_of_succ_le (Nat.le_of_eq h.symm)

theorem lasting_remaining_lt (n : Nat) : Lasting (·.remaining < n) where
  next f h := Nat.lt_of_le_of_lt f.remaining_next.1 h
  peek f h := Nat.lt_of_le_of_lt (Nat.le_of_eq f.remaining_peek) h

end Feed

namespace Reading

variable {α β : Type} {tags : Catalog}

/-! ## Rounds that are enough -/

/-- With fewer than `n` tokens left the reading is not exhausted, and it brings none up. -/
def Settles (n : Nat) (x : Reading α) : Prop :=
  ∀ p : Progress, p.feed.remaining < n → (∀ q, x.run p ≠ .exhausted q) ∧ (x.run p).progress.feed.remaining < n

def SettlesBehind (n : Nat) (t : Token) (x : Reading α) : Prop :=
  ∀ p : Progress, p.feed.remaining < n + 1 → (t.kind ≠ .endOfInput → p.feed.remaining < n) →
    (∀ q, x.run p ≠ .exhausted q) ∧ (x.run p).progress.feed.remaining < n + 1

theorem Settles.bind {n : Nat} {x : Reading α} {f : α → Reading β} (hx : Settles n x) (hf : ∀ a, Settles n (f a)) :
    Settles n (x >>= f) := by
  intro p hp
  have h := hx p hp
  rw [run_bind]
  cases hr : x.run p with
  | done a q =>
    rw [hr] at h
    exact hf a q h.2
  | failed e q =>
    rw [hr] at h
    exact ⟨fun r hr => (by cases hr), h.2⟩
  | exhausted q => exact absurd hr (h.1 q)

theorem Settles.attempt {n : Nat} {x : Reading α} (hx : Settles n x) : Settles n x.attempt := by
  intro p hp
  have h := hx p hp
  rw [run_attempt]
  cases hr : x.run p with
  | done a q | failed e q =>
    rw [hr] at h
    exact ⟨fun r hr => (by cases hr), h.2⟩
  | exhausted q => exact absurd hr (h.1 q)

theorem run_ofFeed_ne_exhausted (f : Feed → Except ParseFault α × Feed) (p q : Progress) :
    (ofFeed f).run p ≠ .exhausted q := by
  rw [run_ofFeed]
  rcases f p.feed with ⟨_ | _, _⟩ <;> exact fun h => by cases h

theorem settles_ofFeed {n : Nat} {f : Feed → Except ParseFault α × Feed} (h : (ofFeed f).Keeps (·.remaining < n)) :
    Settles n (ofFeed f) := fun p hp => ⟨run_ofFeed_ne_exhausted f p, h p hp⟩

theorem answering_settles (n : Nat) : Congruence.Answering fun x _ => Settles n x where
  pure _ _ hp := ⟨fun _ h => (by cases h), hp⟩
  bind := Settles.bind
  fail _ _ hp := ⟨fun _ h => (by cases h), hp⟩
  next := settles_ofFeed (keeps_next (Feed.lasting_remaining_lt n))
  peek := settles_ofFeed (keeps_ofFeed (Feed.lasting_remaining_lt n).peek)
  skipUntil kind := settles_ofFeed ((hereditary_keeps (Feed.lasting_remaining_lt n)).skipUntil kind)
  condition := settles_ofFeed (hereditary_keeps (Feed.lasting_remaining_lt n)).condition
  nested _ _ hp := ⟨fun _ h => (by cases h), hp⟩
  attempt := Settles.attempt
  here _ hp := ⟨fun _ h => (by cases h), hp⟩
  note _ _ hp := ⟨fun _ h => (by cases h), hp⟩

theorem Settles.behind {n : Nat} {t : Token} {x : Reading α} (hx : Settles n x) (ht : t.kind ≠ .endOfInput) :
    SettlesBehind n t x := fun p _ hp =>
  have h := hx p (hp ht)
  ⟨h.1, Nat.lt_succ_of_lt h.2⟩

/-- A condition that was read has taken its closing delimiter at least. -/
theorem remaining_lt_of_condition {f g : Feed} {nodes : List Node} (h : f.condition = (.ok nodes, g)) :
    g.remaining < f.remaining := by
  rw [Feed.condition] at h
  split at h
  · cases h
  · rename_i t g' hn
    split at h
    · rename_i ht
      cases h
      exact f.remaining_next.2 t g hn (by rw [ht]; decide)
    · split at h
      · cases h
      · rename_i ho
        have hlt := f.remaining_next.2 t g' hn (Token.kind_ne_of_operand ho)
        have hkeeps := (hereditary_keeps (Feed.lasting_remaining_lt f.remaining)).condition ⟨g', []⟩ hlt
        rw [condition, run_ofFeed] at hkeeps
        split at h <;> rename_i hc <;> rw [hc] at hkeeps <;> cases h
        exact hkeeps

theorem settles_taking {n : Nat} {f : Token → Reading β} (hf : ∀ t, SettlesBehind n t (f t)) :
    Settles (n + 1) (Reading.next >>= f) := by
  intro p hp
  have hkept := p.feed.remaining_next
  rw [run_bind, next, run_ofFeed]
  rcases hn : p.feed.next with ⟨e | t, g⟩ <;> rw [hn] at hkept
  · exact ⟨fun _ h => (by cases h), Nat.lt_of_le_of_lt hkept.1 hp⟩
  · exact hf t { p with feed := g } (Nat.lt_of_le_of_lt hkept.1 hp) fun ht =>
      Nat.lt_of_lt_of_le (hkept.2 t g rfl ht) (Nat.le_of_lt_succ hp)

theorem settles_condition {n : Nat} {f : List Node → Reading β} (hf : ∀ nodes, Settles n (f nodes)) :
    Settles (n + 1) (condition >>= f) := by
  intro p hp
  have hkept := (answering_settles (n + 1)).condition p hp
  rw [condition, run_ofFeed] at hkept
  rw [run_bind, condition, run_ofFeed]
  rcases hc : p.feed.condition with ⟨e | nodes, g⟩ <;> rw [hc] at hkept
  · exact ⟨fun _ h => (by cases h), hkept.2⟩
  · have h := hf nodes { p with feed := g }
      (Nat.lt_of_lt_of_le (remaining_lt_of_condition hc) (Nat.le_of_lt_succ hp))
    exact ⟨h.1, Nat.lt_succ_of_lt h.2⟩

theorem lockstep_settles (htags : tags.NeverPutsBack) :
    Lockstep (fun n {_} x _ => Settles n x) (fun n t {_} x _ => SettlesBehind n t x) tags tags 0 where
  exhausted _ _ hp := absurd hp (Nat.not_lt_zero _)
  pure n := (answering_settles n).pure
  bind _ := Settles.bind
  next n := (answering_settles n).next
  peek n := (answering_settles n).peek
  expect n := (answering_settles n).expect
  skipUntil n := (answering_settles n).skipUntil
  nested n := (answering_settles n).nested
  taking _ := settles_taking
  condition _ := settles_condition
  fault _ _ _ _ hp _ := ⟨fun _ h => (by cases h), hp⟩
  fresh_of _ ht hx := hx.behind ht
  dispatch {_ tag _ body _} n hname htag hbody :=
    (@Congruence.Answering.dispatch _ _ (answering_settles n)
      (fun m program hp => (answering_settles n).runs (htags m program hp)) _ tag tag body body htag hbody).behind
      (by rw [hname]; decide)

theorem settles_whole (htags : tags.NeverPutsBack) (n : Nat) : Settles n (whole tags n) := by
  induction n with
  | zero => exact fun _ hp => absurd hp (Nat.not_lt_zero _)
  | succ n ih =>
    intro p hp
    have hkept := p.feed.remaining_next
    rw [whole, run_bind, run_attempt, next, run_ofFeed]
    rcases hn : p.feed.next with ⟨e | t, g⟩ <;> rw [hn] at hkept
    · exact ⟨fun _ h => (by cases h), Nat.lt_of_le_of_lt hkept.1 hp⟩
    · have hp' : g.remaining < n + 1 := Nat.lt_of_le_of_lt hkept.1 hp
      have hlt (ht : t.kind ≠ .endOfInput) : g.remaining < n :=
        Nat.lt_of_lt_of_le (hkept.2 t g rfl ht) (Nat.le_of_lt_succ hp)
      have hbehind : ∀ {x : Reading (List Node × Option ParseFault)}, SettlesBehind n t x → _ :=
        fun hx => hx { p with feed := g } hp' hlt
      simp only
      split
      · exact ⟨fun _ h => (by cases h), hp'⟩
      · rename_i hk
        exact hbehind ((ih.bind fun _ => (answering_settles n).pure _).behind (by rw [hk]; decide))
      · rename_i hk
        refine hbehind ((Settles.bind ((lockstep_settles htags).tag n).attempt fun node => ?_).behind (by rw [hk]; decide))
        split
        · exact (answering_settles n).pure _
        · exact ih.bind fun _ => (answering_settles n).pure _
      · exact ⟨fun _ h => (by cases h), hp'⟩

/-! ## More rounds -/

/-- The second does the same as the first, if that one is not exhausted. -/
def Outlasts (x y : Reading α) : Prop := ∀ p : Progress, (∃ q, x.run p = .exhausted q) ∨ y.run p = x.run p

theorem outlasts_refl (x : Reading α) : Outlasts x x := fun _ => .inr rfl

theorem answering_outlasts : Congruence.Answering Outlasts where
  pure a := outlasts_refl _
  bind {_ _ x y f g} h hf p := by
    rw [run_bind, run_bind]
    rcases h p with ⟨q, hq⟩ | hy
    · exact .inl ⟨q, by rw [hq]⟩
    · rw [hy]
      cases x.run p with
      | done a q => exact hf a q
      | failed e q => exact .inr rfl
      | exhausted q => exact .inr rfl
  fail f := outlasts_refl _
  next := outlasts_refl _
  peek := outlasts_refl _
  skipUntil _ := outlasts_refl _
  condition := outlasts_refl _
  nested _ := outlasts_refl _
  attempt {_ x y} h p := by
    rw [run_attempt, run_attempt]
    rcases h p with ⟨q, hq⟩ | hy
    · exact .inl ⟨q, by rw [hq]⟩
    · exact .inr (by rw [hy])
  here := outlasts_refl _
  note _ := outlasts_refl _

/-- Where no tag puts anything back, more rounds than tokens are left make no difference. -/
theorem run_whole_add (htags : tags.NeverPutsBack) {n : Nat} {p : Progress} (hp : p.feed.remaining < n) (more : Nat) :
    (whole tags (n + more)).run p = (whole tags n).run p := by
  rcases answering_outlasts.whole htags n more (fun _ q => .inl ⟨q, rfl⟩) p with ⟨q, hq⟩ | h
  · exact absurd hq ((settles_whole htags n p hp).1 q)
  · exact h

theorem template_eq_of_whole {n m : Nat} {p : Progress} (h : (whole tags n).run p = (whole tags m).run p)
    (hm : ∀ q, (whole tags m).run p ≠ .exhausted q) :
    template tags n p = template tags m p ∧ ∀ q, (template tags m p).2 ≠ .exhausted q := by
  rw [run_whole, run_whole] at h
  rw [run_whole] at hm
  rcases ht : template tags m p with ⟨nodes, _ | ⟨e, q⟩ | q⟩ <;> rw [ht] at h hm
  · rcases hs : template tags n p with ⟨nodes', _ | _ | _⟩ <;> rw [hs] at h <;> cases h
    exact ⟨rfl, fun _ h => by cases h⟩
  · rcases hs : template tags n p with ⟨nodes', _ | _ | _⟩ <;> rw [hs] at h <;> cases h
    exact ⟨rfl, fun _ h => by cases h⟩
  · exact absurd rfl (hm q)

end Reading

/-! ## Transcripts -/

open Reading in
/-- What the reading of a source comes to, with any number of rounds that is more than its tokens, is its transcript. -/
theorem exists_whole {tags : Catalog} (htags : tags.NeverPutsBack) (ts : List Token) :
    ∃ nodes fault q, (∀ n, ts.length < n → (whole tags n).run ⟨.ofTokens ts, []⟩ = .done (nodes, fault) q) ∧
      Transcript.ofTokens tags ts = ⟨nodes, fault, q.journal.reverse, q.feed.asked⟩ := by
  have hrem := Feed.remaining_ofTokens_le ts
  have hsame : ∀ n, ts.length < n →
      (whole tags n).run ⟨.ofTokens ts, []⟩ = (whole tags (ts.length + 1)).run ⟨.ofTokens ts, []⟩ := by
    intro n hn
    obtain ⟨more, rfl⟩ := Nat.exists_eq_add_of_le (Nat.succ_le_of_lt hn)
    exact run_whole_add htags (Nat.lt_succ_of_le hrem) more
  have hrounds := hsame _ (Transcript.lt_rounds ts.length)
  have hsettles := settles_whole htags (ts.length + 1) ⟨.ofTokens ts, []⟩ (Nat.lt_succ_of_le hrem)
  rw [run_whole] at hrounds
  rcases ht : template tags (Transcript.rounds ts.length) ⟨.ofTokens ts, []⟩ with ⟨nodes, _ | ⟨e, q⟩ | q⟩ <;>
    rw [ht] at hrounds
  · exact ⟨nodes, none, _, fun n hn => (hsame n hn).trans hrounds.symm, by rw [Transcript.ofTokens, ht]; rfl⟩
  · exact ⟨nodes, some e, q, fun n hn => (hsame n hn).trans hrounds.symm, by rw [Transcript.ofTokens, ht]; rfl⟩
  · exact absurd hrounds.symm (hsettles.1 q)

open Reading in
theorem template_of_fault {tags : Catalog} (htags : tags.NeverPutsBack) {ts : List Token} {e : ParseFault}
    (h : (Transcript.ofTokens tags ts).fault = some e) :
    ∃ nodes q, template tags (Transcript.rounds ts.length) ⟨.ofTokens ts, []⟩ = (nodes, .failed e q) ∧
      (Transcript.ofTokens tags ts).asked = q.feed.asked := by
  obtain ⟨nodes, fault, q, hwhole, htr⟩ := exists_whole htags ts
  have hrun := hwhole _ (Transcript.lt_rounds ts.length)
  rw [htr] at h ⊢
  obtain rfl : fault = some e := h
  rw [run_whole] at hrun
  rcases ht : template tags (Transcript.rounds ts.length) ⟨.ofTokens ts, []⟩ with ⟨nodes', _ | ⟨e', q'⟩ | q'⟩ <;>
    rw [ht] at hrun <;> cases hrun
  exact ⟨nodes, q, rfl, rfl⟩

/-! ## Readings end -/

open Reading in
/-- **Reading ends.**  Where no tag puts anything back, a template comes to its end or to a fault, in whatever order its
source holds which tokens.  With every number of rounds above that of the tokens that are neither ends of input nor faults
it goes the same way, so one that did not count them would go no further; and this is what the transcript holds. -/
theorem template_ends {tags : Catalog} (htags : tags.NeverPutsBack) (source : List Token) :
    ∃ nodes ending, (∀ q, ending ≠ .exhausted q) ∧
      (∀ n, source.countP (·.isPlain) < n → template tags n ⟨.ofTokens source, []⟩ = (nodes, ending)) ∧
      Transcript.ofTokens tags source = .ofEnding (nodes, ending) := by
  have hleft : (Feed.ofTokens source).remaining < source.countP (·.isPlain) + 1 := Nat.lt_succ_self _
  have hsettles := (settles_whole htags _ ⟨.ofTokens source, []⟩ hleft).1
  have hsame : ∀ n, source.countP (·.isPlain) < n → template tags n ⟨.ofTokens source, []⟩ =
      template tags (source.countP (·.isPlain) + 1) ⟨.ofTokens source, []⟩ := by
    intro n hn
    obtain ⟨more, rfl⟩ := Nat.exists_eq_add_of_le (Nat.succ_le_of_lt hn)
    exact (template_eq_of_whole (run_whole_add htags hleft more) hsettles).1
  have hrounds : source.countP (·.isPlain) < Transcript.rounds source.length :=
    Nat.lt_of_le_of_lt List.countP_le_length (Transcript.lt_rounds _)
  exact ⟨_, _, (template_eq_of_whole rfl hsettles).2, hsame, congrArg Transcript.ofEnding (hsame _ hrounds)⟩

def insatiable : Program := .tag fun _ => .tag fun _ => .give (.text 0 "")

def broken : List Token :=
  [⟨.tagStart, "\x7b%", ⟨0, 1, 1⟩⟩, ⟨.identifier, "more", ⟨3, 1, 4⟩⟩, ⟨.endOfInput, "", ⟨8, 1, 9⟩⟩,
    ⟨.identifier, "more", ⟨8, 1, 9⟩⟩, ⟨.endOfInput, "", ⟨13, 1, 14⟩⟩, ⟨.text, "x", ⟨13, 1, 14⟩⟩]

theorem template_ends_insatiable :
    ∃ (nodes : List Node) (q : Progress), nodes.length = 1 ∧ q.feed.asked = 7 ∧ ∀ n, 4 < n →
      Reading.template (Catalog.empty.register "more" insatiable) n ⟨.ofTokens broken, []⟩ = (nodes, .done () q) := by
  have htags : (Catalog.empty.register "more" insatiable).NeverPutsBack :=
    Catalog.neverPutsBack_empty.register "more" (.tag _ fun _ => .tag _ fun _ => .give _)
  have hcomes : (Transcript.ofTokens (Catalog.empty.register "more" insatiable) broken).root.length = 1 ∧
      (Transcript.ofTokens (Catalog.empty.register "more" insatiable) broken).fault = none ∧
      (Transcript.ofTokens (Catalog.empty.register "more" insatiable) broken).asked = 7 := by decide +kernel
  obtain ⟨nodes, ending, hends, hsame, htranscript⟩ := template_ends htags broken
  rw [htranscript] at hcomes
  obtain ⟨hnodes, hfault, hasked⟩ := hcomes
  cases ending with
  | done _ q => exact ⟨nodes, q, hnodes, hasked, hsame⟩
  | failed e q => cases hfault
  | exhausted q => exact absurd rfl (hends q)

end Stencil
