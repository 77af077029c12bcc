import Stencil.Proofs.Upcoming
import Stencil.Reading.Grammar
/-!
# What a reading comes to

Judgements on a reading, all about feeds that a reader can finish.  `Gives` says that it comes to a value and what is
left of the tokens then, and `Reaches` the same of a value of which only a property is known; `Ensures` says what holds of
the value and the rest if it comes to one at all.  Each follows the reading step by step.

A template is no reading, since its nodes remain whatever it comes to.  But each of its turns is one, and that is how the
proofs go through it (`template_succ`).
-/
namespace Stencil
namespace Reading

variable {α β : Type}

/-- Before the tokens `ts` the reading comes to `a`, and `rest` is left. -/
def Gives (x : Reading α) (ts : List Token) (a : α) (rest : List Token) : Prop :=
  ∀ p : Progress, p.feed.Faces ts → ∃ q, x.run p = .done a q ∧ q.feed.Faces rest

/-- Before the tokens `ts` the reading comes to a value of which `P` holds, and `rest` is left. -/
def Reaches (x : Reading α) (ts : List Token) (P : α → Prop) (rest : List Token) : Prop :=
  ∀ p : Progress, p.feed.Faces ts → ∃ a q, x.run p = .done a q ∧ P a ∧ q.feed.Faces rest

/-- If the reading comes to a value before the tokens `ts`, then `P` holds of the value and of what is left. -/
def Ensures (x : Reading α) (ts : List Token) (P : α → List Token → Prop) : Prop :=
  ∀ (p q : Progress) (a : α), p.feed.Faces ts → x.run p = .done a q → ∃ rest, q.feed.Faces rest ∧ P a rest

theorem run_bind (x : Reading α) (f : α → Reading β) (p : Progress) :
    (x >>= f).run p = match x.run p with
      | .done a q => (f a).run q
      | .failed e q => .failed e q
      | .exhausted q => .exhausted q := rfl

theorem run_ofFeed (f : Feed → Except ParseFault α × Feed) (p : Progress) :
    (ofFeed f).run p = match f p.feed with
      | (.ok a, feed) => .done a { p with feed := feed }
      | (.error e, feed) => .failed e { p with feed := feed } := rfl

theorem run_attempt (x : Reading α) (p : Progress) :
    x.attempt.run p = match x.run p with
      | .done a q => .done (.ok a) q
      | .failed e q => .done (.error e) q
      | .exhausted q => .exhausted q := rfl

/-! ## Coming to a value -/

theorem gives_pure (a : α) (ts : List Token) : (pure a : Reading α).Gives ts a ts := fun p hp => ⟨p, rfl, hp⟩

theorem Gives.bind {x : Reading α} {f : α → Reading β} {ts mid rest : List Token} {a : α} {b : β}
    (hx : x.Gives ts a mid) (hf : (f a).Gives mid b rest) : (x >>= f).Gives ts b rest := by
  intro p hp
  obtain ⟨q, hq, hmid⟩ := hx p hp
  obtain ⟨r, hr, hrest⟩ := hf q hmid
  refine ⟨r, ?_, hrest⟩
  rw [run_bind, hq]
  exact hr

theorem gives_ofFeed {f : Feed → Except ParseFault α × Feed} {ts rest : List Token} {a : α}
    (h : ∀ feed : Feed, feed.Faces ts → ∃ g, f feed = (.ok a, g) ∧ g.Faces rest) : (ofFeed f).Gives ts a rest := by
  intro p hp
  obtain ⟨g, hg, hrest⟩ := h p.feed hp
  refine ⟨{ p with feed := g }, ?_, hrest⟩
  rw [run_ofFeed, hg]

theorem gives_next (t : Token) (ts : List Token) : next.Gives (t :: ts) t ts :=
  gives_ofFeed fun _ h => by
    obtain ⟨g, hn, hg, -⟩ := h.next_cons
    exact ⟨g, hn, hg⟩

theorem gives_peek (t : Token) (ts : List Token) : peek.Gives (t :: ts) t (t :: ts) :=
  gives_ofFeed fun _ h => h.peek_cons

theorem gives_skipUntil (kind : Kind) (ts : List Token) : (skipUntil kind).Gives ts () (Feed.behind kind ts) :=
  gives_ofFeed fun _ h => h.skipUntil kind

theorem gives_note (e : Event) (ts : List Token) : (note e).Gives ts () ts := fun _ hp => ⟨_, rfl, hp⟩

theorem gives_expect {kind : Kind} {expected : String} {t : Token} {ts : List Token} (h : t.kind = kind) :
    (expect kind expected).Gives (t :: ts) t ts := by
  refine (gives_next t ts).bind ?_
  rw [if_pos h]
  exact gives_pure t ts

/-! ## Coming to a value with a property -/

theorem Gives.reaches {x : Reading α} {ts rest : List Token} {a : α} {P : α → Prop} (hx : x.Gives ts a rest) (h : P a) :
    x.Reaches ts P rest := by
  intro p hp
  obtain ⟨q, hq, hrest⟩ := hx p hp
  exact ⟨a, q, hq, h, hrest⟩

theorem reaches_pure {A : α → β → Prop} {a : α} {b : β} (h : A a b) (ts : List Token) :
    (pure a : Reading α).Reaches ts (A · b) ts := (gives_pure a ts).reaches h

theorem Reaches.bind {x : Reading α} {f : α → Reading β} {ts mid rest : List Token} {P : α → Prop} {Q : β → Prop}
    (hx : x.Reaches ts P mid) (hf : ∀ a, P a → (f a).Reaches mid Q rest) : (x >>= f).Reaches ts Q rest := by
  intro p hp
  obtain ⟨a, q, hq, ha, hmid⟩ := hx p hp
  obtain ⟨b, r, hr, hb, hrest⟩ := hf a ha q hmid
  refine ⟨b, r, ?_, hb, hrest⟩
  rw [run_bind, hq]
  exact hr

theorem Gives.bind_reaches {x : Reading α} {f : α → Reading β} {ts mid rest : List Token} {a : α} {Q : β → Prop}
    (hx : x.Gives ts a mid) (hf : (f a).Reaches mid Q rest) : (x >>= f).Reaches ts Q rest := by
  refine (hx.reaches (P := (· = a)) rfl).bind fun b hb => ?_
  rwa [hb]

theorem Reaches.attempt {x : Reading α} {ts rest : List Token} {P : α → Prop} (hx : x.Reaches ts P rest) :
    x.attempt.Reaches ts (fun r => ∃ a, r = .ok a ∧ P a) rest := by
  intro p hp
  obtain ⟨a, q, hq, ha, hrest⟩ := hx p hp
  refine ⟨.ok a, q, ?_, ⟨a, rfl, ha⟩, hrest⟩
  rw [run_attempt, hq]

/-- Looking at a token is never a fault before a feed that a reader can finish. -/
theorem reaches_peek (ts : List Token) : peek.Reaches ts (fun _ => True) ts := by
  cases ts with
  | cons t ts => exact (gives_peek t ts).reaches trivial
  | nil =>
    intro p hp
    obtain ⟨e, g, hn, -, hg⟩ := hp.peek_nil
    refine ⟨e, { p with feed := g }, ?_, trivial, hg⟩
    unfold peek
    rw [run_ofFeed, hn]

/-! ## What a value ensures -/

theorem ensures_pure {a : α} {ts : List Token} {P : α → List Token → Prop} (h : P a ts) :
    (pure a : Reading α).Ensures ts P := by
  intro p q b hp hb
  cases hb
  exact ⟨ts, hp, h⟩

theorem ensures_fail {f : ParseFault} {ts : List Token} {P : α → List Token → Prop} :
    (fail f : Reading α).Ensures ts P := by
  intro p q b _ hb
  cases hb

theorem ensures_exhausted {ts : List Token} {P : α → List Token → Prop} :
    (exhausted : Reading α).Ensures ts P := by
  intro p q b _ hb
  cases hb

theorem Ensures.bind {x : Reading α} {f : α → Reading β} {ts : List Token} {P : α → List Token → Prop}
    {Q : β → List Token → Prop} (hx : x.Ensures ts P) (hf : ∀ a mid, P a mid → (f a).Ensures mid Q) :
    (x >>= f).Ensures ts Q := by
  intro p r b hp hb
  rw [run_bind] at hb
  split at hb
  · rename_i a q hq
    obtain ⟨mid, hmid, hP⟩ := hx p q a hp hq
    exact hf a mid hP q r b hmid hb
  · cases hb
  · cases hb

theorem Ensures.weaken {x : Reading α} {ts : List Token} {P Q : α → List Token → Prop} (hx : x.Ensures ts P)
    (h : ∀ a rest, P a rest → Q a rest) : x.Ensures ts Q := by
  intro p q a hp ha
  obtain ⟨rest, hrest, hP⟩ := hx p q a hp ha
  exact ⟨rest, hrest, h a rest hP⟩

theorem Gives.ensures {x : Reading α} {ts rest : List Token} {a : α} {P : α → List Token → Prop}
    (hx : x.Gives ts a rest) (h : P a rest) : x.Ensures ts P := by
  intro p q b hp hb
  obtain ⟨r, hr, hrest⟩ := hx p hp
  cases hr.symm.trans hb
  exact ⟨rest, hrest, h⟩

theorem Gives.only {x : Reading α} {ts rest : List Token} {a : α} (hx : x.Gives ts a rest) :
    x.Ensures ts (fun b r => b = a ∧ r = rest) := hx.ensures ⟨rfl, rfl⟩

theorem ensures_next (ts : List Token) :
    next.Ensures ts (fun t rest => ts = t :: rest ∨ t.kind = .endOfInput ∧ ts = [] ∧ rest = []) := by
  cases ts with
  | cons t ts => exact (gives_next t ts).ensures (.inl rfl)
  | nil =>
    intro p q b hp hb
    obtain ⟨e, g, hn, he, hg⟩ := hp.next_nil
    unfold next at hb
    rw [run_ofFeed, hn] at hb
    cases hb
    exact ⟨[], hg, .inr ⟨he, rfl, rfl⟩⟩

theorem ensures_peek (ts : List Token) :
    peek.Ensures ts (fun t rest => rest = ts ∧ ((∃ more, ts = t :: more) ∨ t.kind = .endOfInput ∧ ts = [])) := by
  cases ts with
  | cons t ts => exact (gives_peek t ts).ensures ⟨rfl, .inl ⟨ts, rfl⟩⟩
  | nil =>
    intro p q b hp hb
    obtain ⟨e, g, hn, he, hg⟩ := hp.peek_nil
    unfold peek at hb
    rw [run_ofFeed, hn] at hb
    cases hb
    exact ⟨[], hg, rfl, .inr ⟨he, rfl⟩⟩

theorem ensures_expect {kind : Kind} {expected : String} (ts : List Token) (hk : kind ≠ .endOfInput) :
    (expect kind expected).Ensures ts (fun t rest => ts = t :: rest ∧ t.kind = kind) := by
  refine (ensures_next ts).bind fun t rest h => ?_
  by_cases ht : t.kind = kind
  · rw [if_pos ht]
    refine ensures_pure ?_
    rcases h with h | ⟨he, -, -⟩
    · exact ⟨h, ht⟩
    · exact absurd (ht.symm.trans he) hk
  · rw [if_neg ht]
    exact ensures_fail

/-! ## Templates, turn by turn -/

/-- One turn of a template: the node that it adds, or none at the end. -/
def turn (tags : Catalog) (n : Nat) : Reading (Option Node) := do
  let t ← next
  match t.kind with
  | .endOfInput => return none
  | .text => return some t.textNode
  | .tagStart => return some (← tag tags n)
  | _ => fail (t.unexpected "text or tag")

/-- A template is a turn, and a template from there on. -/
theorem template_succ (tags : Catalog) (n : Nat) (p : Progress) : template tags (n + 1) p =
    match (turn tags n).run p with
    | .done none q => ([], .done () q)
    | .done (some node) q => (node :: (template tags n q).1, (template tags n q).2)
    | .failed e q => ([], .failed e q)
    | .exhausted q => ([], .exhausted q) := by
  rw [template, turn, run_bind]
  cases next.run p with
  | failed e q | exhausted q => rfl
  | done t q =>
    obtain ⟨kind, text, place⟩ := t
    cases kind with
    | tagStart =>
      simp only [run_bind]
      cases (tag tags n).run q <;> rfl
    | _ => rfl

end Reading
end Stencil
