import Stencil.Proofs.Rounds
/-!
# Faults are about the last token that was asked for

Without tags of one's own at most one token is ever in front, the one that was asked for last (`Feed.Follows`).  A fault is
only raised about a token that was just taken, or met while looking at one, so it stands where that token does
(`Reading.Blames`).
-/
namespace Stencil

def lastPlace (ts : List Token) : Place := (ts.getLast?.map (·.place)).getD .origin

theorem lastPlace_concat (ts : List Token) (t : Token) : lastPlace (ts ++ [t]) = t.place := by
  rw [lastPlace, List.getLast?_concat]
  rfl

theorem Token.place_of_operand_error {t : Token} {e : ParseFault} (h : t.operand = .error e) : e.place = t.place := by
  unfold operand at h
  split at h
  · cases h
  · split at h <;> cases h
    rfl
  · split at h <;> cases h
    rfl
  · cases h
  · cases h
    rfl
  · cases h
    rfl

/-- The cause of the fault that a source without an end of input ends with. -/
def closedEarly : ParseCause := .lexical "token stream closed before end of input"

/-- A source without an end of input was asked for more tokens than it has. -/
def RanOut (ts : List Token) (asked : Nat) : Prop := ts.length < asked ∧ ∀ t ∈ ts, t.kind ≠ .endOfInput

/-- The token `t` was taken, and it is the last one that was asked for. -/
structure Taken (ts : List Token) (asked : Nat) (t : Token) : Prop where
  place : t.place = lastPlace (ts.take asked)
  pos : 0 < asked
  within : ¬RanOut ts asked

/-- The fault `e` is about the last token that was asked for. -/
structure Blame (ts : List Token) (asked : Nat) (e : ParseFault) : Prop where
  place : e.place = lastPlace (ts.take asked)
  pos : 0 < asked
  ranOut : RanOut ts asked → e.cause = closedEarly

/-- Whoever asks the source `ts` for its token at `k` is told the fault `e`: that token is one, or there is none and never
was an end of input. -/
inductive FaultAt (ts : List Token) : Nat → ParseFault → Prop
  | token {k : Nat} {t : Token} (h : ts[k]? = some t) (ht : t.kind = .error) : FaultAt ts k (Feed.lexicalFault t)
  | closed (h : ∀ t ∈ ts, t.kind ≠ .endOfInput) : FaultAt ts ts.length ⟨lastPlace ts, closedEarly⟩

theorem FaultAt.blame {ts : List Token} {k : Nat} {e : ParseFault} (h : FaultAt ts k e) : Blame ts (k + 1) e := by
  cases h with
  | @token _ t h ht =>
    obtain ⟨hk, rfl⟩ := List.getElem?_eq_some_iff.1 h
    refine ⟨?_, Nat.succ_pos k, fun hran => absurd hran.1 (Nat.not_lt_of_le hk)⟩
    rw [← List.take_append_getElem hk, lastPlace_concat]
    rfl
  | closed h =>
    refine ⟨?_, Nat.succ_pos _, fun _ => rfl⟩
    rw [List.take_of_length_le (Nat.le_succ _)]

theorem Taken.blame {ts : List Token} {asked : Nat} {t : Token} {e : ParseFault} (h : Taken ts asked t)
    (he : e.place = t.place) : Blame ts asked e := ⟨he.trans h.place, h.pos, fun hran => absurd hran h.within⟩

namespace Feed

/-- What is in front of a feed that has asked the source `ts` for some tokens. -/
inductive Fronts (ts : List Token) (f : Feed) : Prop
  /-- Nothing: the last token that was asked for was taken. -/
  | bare (hfront : f.front = []) (hlast : f.last = lastPlace (ts.take f.asked))
    (hclean : ∀ u ∈ ts.take f.asked, u.kind ≠ .error) (hwithin : ¬RanOut ts f.asked)
  /-- The last token that was asked for, which was looked at or is a fault. -/
  | showing (t : Token) (hfront : f.front = [t])
    (htaken : t.kind ≠ .error → Taken ts f.asked t ∧ ∀ u ∈ ts.take f.asked, u.kind ≠ .error)
    (hfault : t.kind = .error → ∃ k, f.asked = k + 1 ∧ FaultAt ts k (lexicalFault t))

/-- A feed of the source `ts` of which at most the token that was asked for last is still in front. -/
structure Follows (ts : List Token) (f : Feed) : Prop where
  source : f.source = ts.drop f.asked
  ended : f.ended = (ts.take f.asked).any (·.kind == .endOfInput)
  earlier : ∀ u ∈ ts.take (f.asked - 1), u.kind ≠ .error
  fronts : f.Fronts ts

variable {ts : List Token}

theorem follows_ofTokens (ts : List Token) : (ofTokens ts).Follows ts where
  source := rfl
  ended := rfl
  earlier := by simp [ofTokens]
  fronts := .bare rfl rfl (by simp [ofTokens]) fun h => Nat.not_lt_zero _ h.1

theorem Follows.pull_cons {t : Token} {source : List Token} {last : Place} {ended : Bool} {asked : Nat}
    (h : Follows ts ⟨[], t :: source, last, ended, asked⟩) :
    Follows ts ⟨[t], source, last, ended || t.kind == .endOfInput, asked + 1⟩ := by
  obtain ⟨hsource, hended, -, ⟨-, -, hclean, -⟩ | ⟨u, hfront, -, -⟩⟩ := h
  · simp only at hsource hended hclean
    have htake : ts.take (asked + 1) = ts.take asked ++ [t] := by
      rw [List.take_add_one, ← List.head?_drop, ← hsource]
      rfl
    have hlt : asked < ts.length := Nat.lt_of_not_le fun hle =>
      List.cons_ne_nil t source (hsource.trans (List.drop_of_length_le hle))
    have hplace : t.place = lastPlace (ts.take (asked + 1)) := by rw [htake, lastPlace_concat]
    have hwithin : ¬RanOut ts (asked + 1) := fun hran => by
      have := hran.1
      omega
    refine ⟨?_, ?_, hclean, .showing t rfl (fun ht => ⟨⟨hplace, Nat.succ_pos _, hwithin⟩, ?_⟩) fun ht => ?_⟩
    · rw [← List.tail_drop, ← hsource]
      rfl
    · rw [htake, hended, List.any_append, List.any_cons, List.any_nil, Bool.or_false]
    · rw [htake]
      exact List.forall_mem_append.2 ⟨hclean, List.forall_mem_singleton.2 ht⟩
    · refine ⟨asked, rfl, .token ?_ ht⟩
      rw [← List.head?_drop, ← hsource]
      rfl
  · cases hfront

theorem Follows.pull_nil {last : Place} {ended : Bool} {asked : Nat} (h : Follows ts ⟨[], [], last, ended, asked⟩) :
    Follows ts ⟨[beyond ⟨[], [], last, ended, asked⟩], [], last, ended, asked + 1⟩ := by
  obtain ⟨hsource, hended, -, ⟨-, hlast, hclean, hwithin⟩ | ⟨u, hfront, -, -⟩⟩ := h
  · simp only at hsource hended hlast hclean hwithin
    have hlen : ts.length ≤ asked := List.drop_eq_nil_iff.1 hsource.symm
    have htake : ts.take (asked + 1) = ts.take asked := by
      rw [List.take_of_length_le hlen, List.take_of_length_le (Nat.le_succ_of_le hlen)]
    rw [List.take_of_length_le hlen] at hended
    refine ⟨?_, ?_, hclean, .showing _ rfl ?_ ?_⟩
    · exact (List.drop_of_length_le (Nat.le_succ_of_le hlen)).symm
    · rw [htake, List.take_of_length_le hlen, hended]
    · cases ended with
      | true =>
        rw [htake]
        refine fun _ => ⟨⟨hlast.trans (congrArg lastPlace htake.symm), Nat.succ_pos _, fun hran => ?_⟩, hclean⟩
        obtain ⟨t, ht, hk⟩ := List.any_eq_true.1 hended.symm
        exact hran.2 t ht (beq_iff_eq.1 hk)
      | false => exact fun ht => absurd rfl ht
    · cases ended with
      | true => exact fun ht => by cases ht
      | false =>
        have hopen : ∀ t ∈ ts, t.kind ≠ .endOfInput := fun t ht hk => by
          have := List.any_eq_false.1 hended.symm t ht
          exact this (beq_iff_eq.2 hk)
        have hlength : asked = ts.length :=
          Nat.le_antisymm (Nat.le_of_not_lt fun hlt => hwithin ⟨hlt, hopen⟩) hlen
        refine fun _ => ⟨asked, rfl, ?_⟩
        have hfault : lexicalFault (beyond ⟨[], [], last, false, asked⟩) = ⟨lastPlace ts, closedEarly⟩ := by
          rw [← List.take_of_length_le hlen, ← hlast]
          rfl
        rw [hfault, hlength]
        exact .closed hopen
  · cases hfront

theorem Follows.pull {f g : Feed} {t : Token} (h : f.Follows ts) (hp : f.pull = (t, g)) :
    (g.putBack t).Follows ts ∧ g.front = [] := by
  obtain ⟨front, source, last, ended, asked⟩ := f
  cases front with
  | nil =>
    cases source with
    | cons u source =>
      cases hp
      exact ⟨h.pull_cons, rfl⟩
    | nil =>
      cases hp
      exact ⟨h.pull_nil, rfl⟩
  | cons u front =>
    cases hp
    refine ⟨h, ?_⟩
    rcases h.fronts with ⟨hfront, -, -, -⟩ | ⟨v, hfront, -, -⟩
    · cases hfront
    · exact (List.cons.inj hfront).2

theorem Follows.taken {f : Feed} {t : Token} (h : (f.putBack t).Follows ts) (ht : t.kind ≠ .error) :
    Taken ts f.asked t ∧ ∀ u ∈ ts.take f.asked, u.kind ≠ .error := by
  rcases h.fronts with ⟨hfront, -, -, -⟩ | ⟨u, hfront, htaken, -⟩
  · exact absurd hfront (List.cons_ne_nil t f.front)
  · obtain ⟨rfl, -⟩ := List.cons.inj hfront
    exact htaken ht

theorem Follows.fault {f : Feed} {t : Token} (h : (f.putBack t).Follows ts) (ht : t.kind = .error) :
    ∃ k, f.asked = k + 1 ∧ FaultAt ts k (lexicalFault t) := by
  rcases h.fronts with ⟨hfront, -, -, -⟩ | ⟨u, hfront, -, hfault⟩
  · exact absurd hfront (List.cons_ne_nil t f.front)
  · obtain ⟨rfl, -⟩ := List.cons.inj hfront
    exact hfault ht

theorem Follows.blame {f : Feed} {t : Token} (h : (f.putBack t).Follows ts) (ht : t.kind = .error) :
    Blame ts f.asked (lexicalFault t) := by
  obtain ⟨k, hk, hfault⟩ := h.fault ht
  rw [hk]
  exact hfault.blame

theorem Follows.next {f g : Feed} {t : Token} (h : f.Follows ts) (hn : f.next = (.ok t, g)) :
    g.Follows ts ∧ Taken ts g.asked t := by
  rcases hp : f.pull with ⟨u, r⟩
  obtain ⟨hr, hfront⟩ := h.pull hp
  by_cases hu : u.kind = .error
  · rw [next_of_pull_error hp hu] at hn
    cases hn
  · rw [next_of_pull hp hu] at hn
    cases hn
    obtain ⟨htaken, hclean⟩ := hr.taken hu
    exact ⟨⟨hr.source, hr.ended, hr.earlier, .bare hfront htaken.place hclean htaken.within⟩, htaken⟩

theorem Follows.next_error {f g : Feed} {e : ParseFault} (h : f.Follows ts) (hn : f.next = (.error e, g)) :
    g.Follows ts ∧ Blame ts g.asked e := by
  rcases hp : f.pull with ⟨u, r⟩
  obtain ⟨hr, hfront⟩ := h.pull hp
  by_cases hu : u.kind = .error
  · rw [next_of_pull_error hp hu] at hn
    cases hn
    refine ⟨⟨hr.source, hr.ended, hr.earlier, .showing u ?_ (absurd hu) fun _ => hr.fault hu⟩, hr.blame hu⟩
    exact congrArg (u :: ·) hfront
  · rw [next_of_pull hp hu] at hn
    cases hn

theorem Follows.peek {f g : Feed} {r : Except ParseFault Token} (h : f.Follows ts) (hn : f.peek = (r, g)) :
    g.Follows ts ∧ ∀ e, r = .error e → Blame ts g.asked e := by
  rcases hp : f.pull with ⟨u, rest⟩
  obtain ⟨hr, -⟩ := h.pull hp
  by_cases hu : u.kind = .error
  · rw [peek_of_pull_error hp hu] at hn
    cases hn
    refine ⟨hr, fun e he => ?_⟩
    cases he
    exact hr.blame hu
  · rw [peek_of_pull hp hu] at hn
    cases hn
    exact ⟨hr, fun e he => by cases he⟩

end Feed

namespace Reading

variable {α β : Type} {ts : List Token}

/-- The outcome of reading the source `ts`, in which a fault is about the last token that was asked for. -/
structure Blamed (ts : List Token) (o : Outcome α) : Prop where
  follows : o.progress.feed.Follows ts
  blame : ∀ e q, o = .failed e q → Blame ts q.feed.asked e

/-- Every fault of the reading is about the last token that was asked for. -/
def Blames (ts : List Token) (x : Reading α) : Prop := ∀ p : Progress, p.feed.Follows ts → Blamed ts (x.run p)

def BlamesBehind (ts : List Token) (t : Token) (x : Reading α) : Prop :=
  ∀ p : Progress, p.feed.Follows ts → Taken ts p.feed.asked t → Blamed ts (x.run p)

theorem blamed_done {a : α} {p : Progress} (h : p.feed.Follows ts) : Blamed ts (.done a p : Outcome α) :=
  ⟨h, fun _ _ he => by cases he⟩

theorem blamed_failed {e : ParseFault} {p : Progress} (h : p.feed.Follows ts) (he : Blame ts p.feed.asked e) :
    Blamed ts (.failed e p : Outcome α) := by
  refine ⟨h, fun e' q h => ?_⟩
  cases h
  exact he

theorem blamed_exhausted {p : Progress} (h : p.feed.Follows ts) : Blamed ts (.exhausted p : Outcome α) :=
  ⟨h, fun _ _ he => by cases he⟩

theorem Blames.bind {x : Reading α} {f : α → Reading β} (hx : Blames ts x) (hf : ∀ a, Blames ts (f a)) :
    Blames ts (x >>= f) := by
  intro p hp
  have h := hx p hp
  rw [run_bind]
  cases hr : x.run p with
  | done a q =>
    rw [hr] at h
    exact hf a q h.follows
  | failed e q =>
    rw [hr] at h
    exact blamed_failed h.follows (h.blame e q rfl)
  | exhausted q =>
    rw [hr] at h
    exact blamed_exhausted h.follows

theorem blames_taking {f : Token → Reading β} (hf : ∀ t, BlamesBehind ts t (f t)) : Blames ts (next >>= f) := by
  intro p hp
  rw [run_bind, next, run_ofFeed]
  rcases hn : p.feed.next with ⟨e | t, g⟩
  · obtain ⟨hg, hblame⟩ := hp.next_error hn
    exact blamed_failed hg hblame
  · obtain ⟨hg, htaken⟩ := hp.next hn
    exact hf t { p with feed := g } hg htaken

theorem Blames.behind {t : Token} {x : Reading α} (hx : Blames ts x) : BlamesBehind ts t x := fun p hp _ => hx p hp

theorem blames_pure (a : α) : Blames ts (pure a) := fun _ hp => blamed_done hp

theorem blamesBehind_fail {t : Token} {e : ParseFault} (he : e.place = t.place) :
    BlamesBehind ts t (fail e : Reading α) := fun _ hp ht => blamed_failed hp (ht.blame he)

theorem blames_ofFeed {f : Feed → Except ParseFault α × Feed} (h : ∀ feed : Feed, feed.Follows ts →
    (f feed).2.Follows ts ∧ ∀ e, (f feed).1 = .error e → Blame ts (f feed).2.asked e) : Blames ts (ofFeed f) := by
  intro p hp
  have hf := h p.feed hp
  rw [run_ofFeed]
  rcases hr : f p.feed with ⟨e | a, g⟩ <;> rw [hr] at hf
  · exact blamed_failed hf.1 (hf.2 e rfl)
  · exact blamed_done hf.1

theorem blames_next : Blames ts next := by
  refine blames_ofFeed fun f hf => ?_
  rcases hn : f.next with ⟨e | t, g⟩
  · refine ⟨(hf.next_error hn).1, fun e' he => ?_⟩
    cases he
    exact (hf.next_error hn).2
  · exact ⟨(hf.next hn).1, fun _ he => by cases he⟩

theorem blames_peek : Blames ts peek := blames_ofFeed fun _ hf => hf.peek rfl

theorem closed_blames (ts : List Token) : Closed (Blames ts) := by
  intro α x xs hxs heq p hp
  rw [← heq p _ (Nat.lt_succ_self _)]
  exact hxs _ p hp

theorem blames_exhausted : Blames ts (exhausted : Reading α) := fun _ hp => blamed_exhausted hp

theorem blames_skipUntil (kind : Kind) : Blames ts (skipUntil kind) := by
  refine closed_blames ts (fun n => ?_) fun p n => run_skipWithin kind n p
  induction n with
  | zero => exact blames_exhausted
  | succ n ih =>
    refine blames_next.bind fun t => ?_
    split
    · exact blames_pure _
    · exact ih

theorem blames_condition : Blames ts condition := by
  refine closed_blames ts (fun n => ?_) fun p n => run_conditionWithin n p
  induction n with
  | zero => exact blames_exhausted
  | succ n ih =>
    refine blames_taking fun t => ?_
    split
    · exact (blames_pure _).behind
    · split
      · rename_i he
        exact blamesBehind_fail (Token.place_of_operand_error he)
      · exact (ih.bind fun _ => blames_pure _).behind

theorem blames_expect (kind : Kind) (expected : String) : Blames ts (expect kind expected) := by
  refine blames_taking fun t => ?_
  split
  · exact (blames_pure t).behind
  · exact blamesBehind_fail rfl

theorem lockstep_blames (ts : List Token) :
    Lockstep (fun _ {_} x _ => Blames ts x) (fun _ t {_} x _ => BlamesBehind ts t x) .empty .empty 0 where
  exhausted _ := blames_exhausted
  pure _ := blames_pure
  bind _ := Blames.bind
  next _ := blames_next
  peek _ := blames_peek
  expect _ := blames_expect
  skipUntil _ := blames_skipUntil
  nested _ _ _ hp := blamed_done hp
  taking _ := blames_taking
  condition _ := blames_condition.bind
  fault _ _ _ := blamesBehind_fail rfl
  fresh_of _ _ := Blames.behind
  dispatch _ _ _ _ := blamesBehind_fail rfl

theorem blame_of_whole {n : Nat} {p q : Progress} {nodes : List Node} {e : ParseFault} (hp : p.feed.Follows ts)
    (h : (whole .empty n).run p = .done (nodes, some e) q) : q.feed.Follows ts ∧ Blame ts q.feed.asked e := by
  have htag := (lockstep_blames ts).tag
  obtain ⟨p', hp', hlast⟩ := exists_lastTurn (fun r hr => (blames_next r hr).follows)
    (fun n r hr => (htag n r hr).follows) n p q nodes (some e) hp h
  have hnext := blames_next p' hp'
  cases hlast with
  | stuck hr =>
    rw [hr] at hnext
    exact ⟨hnext.follows, hnext.blame e q rfl⟩
  | misplaced hr =>
    rw [next, run_ofFeed] at hr
    split at hr
    · rename_i hn
      cases hr
      obtain ⟨hg, htaken⟩ := hp'.next hn
      exact ⟨hg, htaken.blame rfl⟩
    · cases hr
  | @inTag _ _ r _ m hr hs =>
    rw [hr] at hnext
    have h := htag m r hnext.follows
    rw [hs] at h
    exact ⟨h.follows, h.blame e q rfl⟩

end Reading
end Stencil
