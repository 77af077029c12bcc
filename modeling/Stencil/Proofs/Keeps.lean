import Stencil.Proofs.Lockstep
/-!
# What readings keep

A property of feeds that taking and looking at tokens keeps is kept by every reading, whether it comes to a value, to a
fault or to the end of its rounds.  Tags of one's own keep it too, if they put nothing back.

The case at hand are feeds without an end of input (`Feed.Unclosed`): no reading brings one up, so no template is read to
its end before them.
-/
namespace Stencil

def Outcome.progress {α : Type} : Outcome α → Progress
  | .done _ p => p
  | .failed _ p => p
  | .exhausted p => p

/-- A property that taking and looking at tokens keeps. -/
structure Feed.Lasting (I : Feed → Prop) : Prop where
  next : ∀ f : Feed, I f → I f.next.2
  peek : ∀ f : Feed, I f → I f.peek.2

namespace Reading

variable {α β : Type} {I : Feed → Prop}

/-- However the reading ends, `J` holds then if it did before. -/
def Steady (J : Progress → Prop) (x : Reading α) : Prop := ∀ p : Progress, J p → J (x.run p).progress

theorem Steady.bind {J : Progress → Prop} {x : Reading α} {f : α → Reading β} (hx : x.Steady J)
    (hf : ∀ a, (f a).Steady J) : (x >>= f).Steady J := by
  intro p hp
  have h := hx p hp
  rw [run_bind]
  cases hr : x.run p with
  | done a q =>
    rw [hr] at h
    exact hf a q h
  | failed e q | exhausted q =>
    rw [hr] at h
    exact h

theorem Steady.attempt {J : Progress → Prop} {x : Reading α} (hx : x.Steady J) : x.attempt.Steady J := by
  intro p hp
  have h := hx p hp
  rw [run_attempt]
  cases hr : x.run p with
  | done a q | failed e q | exhausted q =>
    rw [hr] at h
    exact h

theorem steady_template {J : Progress → Prop} {tags : Catalog} (hturn : ∀ n, (turn tags n).Steady J) :
    ∀ (n : Nat) (p : Progress), J p → J (template tags n p).2.progress
  | 0, _, hp => hp
  | n + 1, p, hp => by
    have h := hturn n p hp
    rw [template_succ]
    cases hr : (turn tags n).run p with
    | failed e q | exhausted q =>
      rw [hr] at h
      exact h
    | done node q =>
      rw [hr] at h
      cases node with
      | none => exact h
      | some node => exact steady_template hturn n q h

/-- However the reading ends, `I` holds of its feed then if it did before. -/
def Keeps (I : Feed → Prop) (x : Reading α) : Prop := ∀ p : Progress, I p.feed → I (x.run p).progress.feed

theorem Keeps.bind {x : Reading α} {f : α → Reading β} (hx : x.Keeps I) (hf : ∀ a, (f a).Keeps I) :
    (x >>= f).Keeps I := Steady.bind (J := fun p => I p.feed) hx hf

theorem Keeps.attempt {x : Reading α} (hx : x.Keeps I) : x.attempt.Keeps I := Steady.attempt (J := fun p => I p.feed) hx

theorem keeps_ofFeed {f : Feed → Except ParseFault α × Feed} (h : ∀ feed, I feed → I (f feed).2) :
    (ofFeed f).Keeps I := by
  intro p hp
  have hf := h p.feed hp
  rw [run_ofFeed]
  rcases hr : f p.feed with ⟨r, feed⟩
  rw [hr] at hf
  cases r <;> exact hf

theorem keeps_next (hI : Feed.Lasting I) : (next).Keeps I := keeps_ofFeed hI.next

theorem closed_keeps (I : Feed → Prop) : Closed (Keeps I) := by
  intro α x xs hxs heq p hp
  rw [← heq p _ (Nat.lt_succ_self _)]
  exact hxs _ p hp

theorem hereditary_keeps (hI : Feed.Lasting I) : Hereditary (Keeps I) where
  pure _ _ hp := hp
  bind := Keeps.bind
  fail _ _ hp := hp
  exhausted _ hp := hp
  next := keeps_next hI
  peek := keeps_ofFeed hI.peek
  attempt := Keeps.attempt
  here _ hp := hp
  note _ _ hp := hp
  closed := closed_keeps I

theorem keeps_tag (hI : Feed.Lasting I) {tags : Catalog} (htags : tags.NeverPutsBack) (n : Nat) : (tag tags n).Keeps I :=
  (hereditary_keeps hI).tag htags n

/-! ## Where templates end -/

/-- What the reading of a template comes to in its last turn, from `p` on: its fault, if it has one. -/
inductive LastTurn (tags : Catalog) (p : Progress) : Option ParseFault → Progress → Prop
  | ended {t : Token} {q : Progress} (h : next.run p = .done t q) (ht : t.kind = .endOfInput) : LastTurn tags p none q
  | stuck {e : ParseFault} {q : Progress} (h : next.run p = .failed e q) : LastTurn tags p (some e) q
  | misplaced {t : Token} {q : Progress} (h : next.run p = .done t q) :
    LastTurn tags p (some (t.unexpected "text or tag")) q
  | inTag {t : Token} {e : ParseFault} {q r : Progress} (n : Nat) (h : next.run p = .done t q)
    (htag : (tag tags n).run q = .failed e r) : LastTurn tags p (some e) r

/-- Behind a node a template goes on as one of its own. -/
theorem exists_rest {tags : Catalog} {n : Nat} {node : Node} {p q : Progress} {nodes : List Node} {fault : Option ParseFault}
    (h : (whole tags n >>= fun r => pure (node :: r.1, r.2)).run p = .done (nodes, fault) q) :
    ∃ rest, (whole tags n).run p = .done (rest, fault) q := by
  rw [run_bind] at h
  split at h
  · rename_i r s hs
    cases h
    exact ⟨r.1, hs⟩
  · cases h
  · cases h

theorem exists_lastTurn {tags : Catalog} (hnext : Keeps I next) (htag : ∀ n, (tag tags n).Keeps I) :
    ∀ (n : Nat) (p q : Progress) (nodes : List Node) (fault : Option ParseFault), I p.feed →
      (whole tags n).run p = .done (nodes, fault) q → ∃ p' : Progress, I p'.feed ∧ LastTurn tags p' fault q
  | 0, _, _, _, _, _, h => by cases h
  | n + 1, p, q, nodes, fault, hp, h => by
    have hkept := hnext p hp
    rw [whole, run_bind, run_attempt] at h
    cases hr : next.run p with
    | failed e r =>
      rw [hr] at h
      cases h
      exact ⟨p, hp, .stuck hr⟩
    | exhausted r =>
      rw [hr] at h
      cases h
    | done t r =>
      rw [hr] at h hkept
      simp only at h
      split at h
      · rename_i hk
        cases h
        exact ⟨p, hp, .ended hr hk⟩
      · obtain ⟨rest, hs⟩ := exists_rest h
        exact exists_lastTurn hnext htag n r q rest fault hkept hs
      · have hkept' := htag n r hkept
        rw [run_bind, run_attempt] at h
        cases hs : (tag tags n).run r with
        | failed e s =>
          rw [hs] at h
          cases h
          exact ⟨p, hp, .inTag n hr hs⟩
        | exhausted s =>
          rw [hs] at h
          cases h
        | done node s =>
          rw [hs] at h hkept'
          obtain ⟨rest, hs'⟩ := exists_rest h
          exact exists_lastTurn hnext htag n s q rest fault hkept' hs'
      · cases h
        exact ⟨p, hp, .misplaced hr⟩

end Reading

/-! ## Feeds without an end of input -/

namespace Feed

/-- A feed that has no end of input before it and has had none. -/
structure Unclosed (f : Feed) : Prop where
  ended : f.ended = false
  upcoming : ∀ t ∈ f.upcoming, t.kind ≠ .endOfInput

theorem unclosed_ofTokens {ts : List Token} (h : ∀ t ∈ ts, t.kind ≠ .endOfInput) : (ofTokens ts).Unclosed := ⟨rfl, h⟩

theorem Unclosed.pull {f : Feed} (h : f.Unclosed) : f.pull.1.kind ≠ .endOfInput ∧ f.pull.2.Unclosed := by
  obtain ⟨front, source, last, ended, asked⟩ := f
  obtain ⟨rfl, hup⟩ := h
  cases front with
  | cons t front =>
    exact ⟨hup t List.mem_cons_self, rfl, fun u hu => hup u (List.mem_cons_of_mem t hu)⟩
  | nil =>
    cases source with
    | nil => exact ⟨by simp [Feed.pull, beyond], rfl, hup⟩
    | cons t source =>
      have ht : t.kind ≠ .endOfInput := hup t List.mem_cons_self
      refine ⟨ht, ?_, fun u hu => hup u (List.mem_cons_of_mem t hu)⟩
      simpa [Feed.pull] using ht

theorem Unclosed.putBack {f : Feed} (h : f.Unclosed) {t : Token} (ht : t.kind ≠ .endOfInput) : (f.putBack t).Unclosed :=
  ⟨h.ended, List.forall_mem_cons.2 ⟨ht, h.upcoming⟩⟩

theorem Unclosed.next {f : Feed} (h : f.Unclosed) :
    f.next.2.Unclosed ∧ ∀ t g, f.next = (.ok t, g) → t.kind ≠ .endOfInput := by
  obtain ⟨ht, hg⟩ := h.pull
  rw [Feed.next]
  rcases hp : f.pull with ⟨t, g⟩
  rw [hp] at ht hg
  have hmoved : Unclosed { g with last := t.place } := ⟨hg.ended, hg.upcoming⟩
  simp only
  split
  · exact ⟨hmoved.putBack ht, fun u g' hu => by cases hu⟩
  · refine ⟨hmoved, fun u g' hu => ?_⟩
    cases hu
    exact ht

theorem lasting_unclosed : Lasting Unclosed where
  next _ h := h.next.1
  peek _ h := h.pull.2.putBack h.pull.1

end Feed

open Reading in
/-- No template is read to its end before a feed without an end of input. -/
theorem template_ne_done {tags : Catalog} (htags : tags.NeverPutsBack) (n : Nat) (p q : Progress) (nodes : List Node)
    (hp : p.feed.Unclosed) : template tags n p ≠ (nodes, .done () q) := by
  intro h
  have hrun := run_whole tags n p
  rw [h] at hrun
  obtain ⟨p', hp', hlast⟩ := exists_lastTurn (keeps_next Feed.lasting_unclosed) (keeps_tag Feed.lasting_unclosed htags)
    n p q nodes none hp hrun
  cases hlast with
  | ended hr ht =>
    rw [next, run_ofFeed] at hr
    split at hr
    · rename_i hn
      cases hr
      exact hp'.next.2 _ _ hn ht
    · cases hr

end Stencil
