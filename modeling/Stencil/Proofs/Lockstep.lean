import Stencil.Proofs.Judgement
import Stencil.Transcript
/-!
# Readings in lockstep

Two readings of the grammar are put together in the same way out of the same pieces.  So a relation that holds of each
piece and itself, and that putting readings together keeps, holds of the two readings, and it is enough to look at the
pieces (`Lockstep`).  The catalogs may differ, and one side may have more rounds than the other; what they may do then is
for the relation to say.

Two things about the grammar show in the rules.  A round is used up only where a token is taken, so the relation may
depend on the rounds that are left.  And a fault is only ever raised about the token that was taken last, so right behind
a token a weaker relation is enough (`fresh`).

Most relations need neither.  They look at pieces alone (`Congruence`), and if a fault counts as an answer for them, tags
of one's own that put nothing back are made of pieces as well (`Congruence.Answering`), and so is a whole template
(`Reading.whole`).  If putting back is a piece, too, so are all tags (`Congruence.PuttingBack`).
-/
namespace Stencil

/-- No tag of the catalog puts anything back. -/
def Catalog.NeverPutsBack (tags : Catalog) : Prop :=
  ∀ name program, tags.find? name = some program → program.NeverPutsBack

theorem Catalog.neverPutsBack_empty : empty.NeverPutsBack := fun _ _ h => by cases h

theorem Catalog.NeverPutsBack.register {tags : Catalog} (h : tags.NeverPutsBack) (name : String) {program : Program}
    (hp : program.NeverPutsBack) : (tags.register name program).NeverPutsBack := by
  intro other program' hfind
  rw [find?_register] at hfind
  split at hfind
  · cases hfind
    exact hp
  · exact h other program' hfind

namespace Reading

abbrev Relation := {α : Type} → Reading α → Reading α → Prop

def dispatch (tags : Catalog) (name : Token) (tag : Reading Node) (body : String → Reading (List Node)) : Reading Node :=
  match tags.find? name.text with
  | none => fail (name.fault (.unknownTag name.text))
  | some program => do
    note (.dispatched name)
    program.run tag body

/-! ## The rules -/

/-- The rules by which two readings of the grammar are related: `rel n` relates readings that have `n` rounds left, and
`fresh n t` those that follow once the token `t` was taken. -/
structure Lockstep (rel : Nat → Relation) (fresh : Nat → Token → Relation) (tags tags' : Catalog) (more : Nat) : Prop where
  exhausted {α : Type} {y : Reading α} (h : more = 0 → y = exhausted) : rel 0 exhausted y
  pure {α : Type} (n : Nat) (a : α) : rel n (pure a) (pure a)
  bind {α β : Type} {x y : Reading α} {f g : α → Reading β} (n : Nat) (h : rel n x y) (hf : ∀ a, rel n (f a) (g a)) :
    rel n (x >>= f) (y >>= g)
  next (n : Nat) : rel n next next
  peek (n : Nat) : rel n peek peek
  expect (n : Nat) (kind : Kind) (expected : String) : rel n (expect kind expected) (expect kind expected)
  skipUntil (n : Nat) (kind : Kind) : rel n (skipUntil kind) (skipUntil kind)
  nested (n : Nat) (keyword : Token) : rel n (note (.nested keyword)) (note (.nested keyword))
  taking {β : Type} {f g : Token → Reading β} (n : Nat) (hf : ∀ t, fresh n t (f t) (g t)) :
    rel (n + 1) (Reading.next >>= f) (Reading.next >>= g)
  condition {β : Type} {f g : List Node → Reading β} (n : Nat) (hf : ∀ nodes, rel n (f nodes) (g nodes)) :
    rel (n + 1) (condition >>= f) (condition >>= g)
  fault {α : Type} (n : Nat) (t : Token) (cause : ParseCause) :
    fresh n t (fail (t.fault cause) : Reading α) (fail (t.fault cause))
  fresh_of {t : Token} {α : Type} {x y : Reading α} (n : Nat) (ht : t.kind ≠ .endOfInput) (h : rel n x y) : fresh n t x y
  dispatch {name : Token} {tag tag' : Reading Node} {body body' : String → Reading (List Node)} (n : Nat)
    (hname : name.kind = .identifier) (htag : rel n tag tag') (hbody : ∀ close, rel n (body close) (body' close)) :
    fresh n name (dispatch tags name tag body) (dispatch tags' name tag' body')

namespace Lockstep

variable {rel : Nat → Relation} {fresh : Nat → Token → Relation} {tags tags' : Catalog} {more : Nat}
  (h : Lockstep rel fresh tags tags' more)
include h

mutual

theorem tag : ∀ n : Nat, rel n (tag tags n) (tag tags' (n + more))
  | 0 => h.exhausted fun hmore => by rw [hmore]; rfl
  | n + 1 => by
    rw [Nat.add_right_comm, Reading.tag, Reading.tag]
    refine h.taking n fun name => ?_
    split
    · rename_i hk
      refine h.fresh_of n (by rw [hk]; decide) ?_
      refine h.bind n (h.expect n _ _) fun title => ?_
      refine h.bind n (h.expect n _ _) fun _ => ?_
      exact h.bind n (body n _) fun _ => h.pure n _
    · rename_i hk
      exact h.fresh_of n (by rw [hk]; decide) (conditional n name)
    · rename_i hk
      exact h.dispatch n hk (tag n) (body n)
    · exact h.fault n name _
    · exact h.fault n name _

theorem body : ∀ (n : Nat) (close : String), rel n (body tags n close) (body tags' (n + more) close)
  | 0, _ => h.exhausted fun hmore => by rw [hmore]; rfl
  | n + 1, close => by
    rw [Nat.add_right_comm, Reading.body, Reading.body]
    refine h.taking n fun t => ?_
    split
    · rename_i hk
      exact h.fresh_of n (by rw [hk]; decide) (h.bind n (body n close) fun _ => h.pure n _)
    · rename_i hk
      refine h.fresh_of n (by rw [hk]; decide) (h.bind n (h.peek n) fun word => ?_)
      split
      · exact h.bind n (h.skipUntil n _) fun _ => h.pure n _
      · refine h.bind n (tag n) fun node => ?_
        exact h.bind n (body n close) fun _ => h.pure n _
    · exact h.fault n t _
    · exact h.fault n t _

theorem conditional : ∀ (n : Nat) (keyword : Token),
    rel n (conditional tags n keyword) (conditional tags' (n + more) keyword)
  | 0, _ => h.exhausted fun hmore => by rw [hmore]; rfl
  | n + 1, keyword => by
    rw [Nat.add_right_comm, Reading.conditional, Reading.conditional]
    refine h.condition n fun nodes => ?_
    exact h.bind n (branches n) fun _ => h.pure n _

theorem branches : ∀ n : Nat, rel n (branches tags n) (branches tags' (n + more))
  | 0 => h.exhausted fun hmore => by rw [hmore]; rfl
  | n + 1 => by
    rw [Nat.add_right_comm, Reading.branches, Reading.branches]
    refine h.taking n fun t => ?_
    split
    · rename_i hk
      exact h.fresh_of n (by rw [hk]; decide) (h.bind n (branches n) fun _ => h.pure n _)
    · rename_i hk
      refine h.fresh_of n (by rw [hk]; decide) (h.bind n (h.peek n) fun word => ?_)
      split
      · refine h.bind n (h.next n) fun keyword => ?_
        refine h.bind n (h.nested n keyword) fun _ => ?_
        exact h.bind n (conditional n keyword) fun _ => h.pure n _
      · refine h.bind n (h.next n) fun keyword => ?_
        refine h.bind n (h.expect n _ _) fun _ => ?_
        exact h.bind n (body n _) fun _ => h.pure n _
      · split
        · exact h.bind n (h.skipUntil n _) fun _ => h.pure n _
        · refine h.bind n (tag n) fun node => ?_
          exact h.bind n (branches n) fun _ => h.pure n _
    · exact h.fault n t _
    · exact h.fault n t _

end

end Lockstep

/-! ## Relations that look at pieces alone -/

/-- A relation that holds of every piece of the grammar and itself, and that putting readings together keeps. -/
structure Congruence (rel : Relation) : Prop where
  pure {α : Type} (a : α) : rel (pure a) (pure a)
  bind {α β : Type} {x y : Reading α} {f g : α → Reading β} (h : rel x y) (hf : ∀ a, rel (f a) (g a)) :
    rel (x >>= f) (y >>= g)
  fail {α : Type} (f : ParseFault) : rel (fail f : Reading α) (fail f)
  next : rel next next
  peek : rel peek peek
  skipUntil (kind : Kind) : rel (skipUntil kind) (skipUntil kind)
  condition : rel condition condition
  nested (keyword : Token) : rel (note (.nested keyword)) (note (.nested keyword))

namespace Congruence

variable {rel : Relation} {tags tags' : Catalog} {more : Nat}

theorem expect (h : Congruence rel) (kind : Kind) (expected : String) :
    rel (expect kind expected) (expect kind expected) := by
  refine h.bind h.next fun t => ?_
  split
  · exact h.pure t
  · exact h.fail _

theorem turn (h : Congruence rel) {n m : Nat} (htag : rel (tag tags n) (tag tags' m)) :
    rel (turn tags n) (turn tags' m) := by
  refine h.bind h.next fun t => ?_
  split
  · exact h.pure none
  · exact h.pure _
  · exact h.bind htag fun _ => h.pure _
  · exact h.fail _

theorem lockstep (h : Congruence rel)
    (hexhausted : ∀ {α : Type} {y : Reading α}, (more = 0 → y = exhausted) → rel exhausted y)
    (hdispatch : ∀ (name : Token) {tag tag' : Reading Node} {body body' : String → Reading (List Node)}, rel tag tag' →
      (∀ close, rel (body close) (body' close)) → rel (dispatch tags name tag body) (dispatch tags' name tag' body')) :
    Lockstep (fun _ => rel) (fun _ _ => rel) tags tags' more where
  exhausted := hexhausted
  pure _ := h.pure
  bind _ := h.bind
  next _ := h.next
  peek _ := h.peek
  expect _ := h.expect
  skipUntil _ := h.skipUntil
  nested _ := h.nested
  taking _ := h.bind h.next
  condition _ := h.bind h.condition
  fault _ t cause := h.fail (t.fault cause)
  fresh_of _ _ hxy := hxy
  dispatch _ _ htag hbody := hdispatch _ htag hbody

/-- The same with the pieces of programs, for which a fault is an answer. -/
structure Answering (rel : Relation) : Prop extends Congruence rel where
  attempt {α : Type} {x y : Reading α} (h : rel x y) : rel x.attempt y.attempt
  here : rel here here
  note (e : Event) : rel (note e) (note e)

def Runs (rel : Relation) (program : Program) : Prop :=
  ∀ (tag tag' : Reading Node) (body body' : String → Reading (List Node)), rel tag tag' →
    (∀ close, rel (body close) (body' close)) → rel (program.run tag body) (program.run tag' body')

theorem Answering.runs (h : Answering rel) {program : Program} (hp : program.NeverPutsBack) : Runs rel program := by
  intro tag tag' body body' htag hbody
  induction hp with
  | give node => exact h.pure node
  | fail f => exact h.fail f
  | next k _ ih => exact h.bind (h.attempt h.next) ih
  | peek k _ ih => exact h.bind (h.attempt h.peek) ih
  | skipUntil kind k _ ih => exact h.bind (h.attempt (h.skipUntil kind)) ih
  | here k _ ih => exact h.bind h.here ih
  | tag k _ ih => exact h.bind (h.attempt htag) ih
  | body close k _ ih => exact h.bind (h.attempt (hbody close)) ih
  | report o k _ ih => exact h.bind (h.note _) fun _ => ih

theorem Answering.dispatch (h : Answering rel) (hruns : ∀ name program, tags.find? name = some program → Runs rel program)
    (name : Token) {tag tag' : Reading Node} {body body' : String → Reading (List Node)} (htag : rel tag tag')
    (hbody : ∀ close, rel (body close) (body' close)) :
    rel (dispatch tags name tag body) (dispatch tags name tag' body') := by
  unfold Reading.dispatch
  split
  · exact h.fail _
  · rename_i program hp
    exact h.bind (h.note _) fun _ => hruns _ program hp tag tag' body body' htag hbody

theorem Answering.lockstep_of_runs (h : Answering rel)
    (hruns : ∀ name program, tags.find? name = some program → Runs rel program)
    (hexhausted : ∀ {α : Type} {y : Reading α}, (more = 0 → y = exhausted) → rel exhausted y) :
    Lockstep (fun _ => rel) (fun _ _ => rel) tags tags more :=
  h.toCongruence.lockstep hexhausted fun name => h.dispatch hruns name

theorem Answering.lockstep (h : Answering rel) (htags : tags.NeverPutsBack)
    (hexhausted : ∀ {α : Type} {y : Reading α}, (more = 0 → y = exhausted) → rel exhausted y) :
    Lockstep (fun _ => rel) (fun _ _ => rel) tags tags more :=
  h.lockstep_of_runs (fun name program hp => h.runs (htags name program hp)) hexhausted

structure PuttingBack (rel : Relation) : Prop extends Answering rel where
  putBack (t : Token) : rel (putBack t) (putBack t)

theorem PuttingBack.runs (h : PuttingBack rel) (program : Program) : Runs rel program := by
  intro tag tag' body body' htag hbody
  induction program with
  | give node => exact h.pure node
  | fail f => exact h.fail f
  | next k ih => exact h.bind (h.attempt h.next) ih
  | peek k ih => exact h.bind (h.attempt h.peek) ih
  | putBack t k ih => exact h.bind (h.putBack t) fun _ => ih
  | skipUntil kind k ih => exact h.bind (h.attempt (h.skipUntil kind)) ih
  | here k ih => exact h.bind h.here ih
  | tag k ih => exact h.bind (h.attempt htag) ih
  | body close k ih => exact h.bind (h.attempt (hbody close)) ih
  | report o k ih => exact h.bind (h.note _) fun _ => ih

theorem PuttingBack.lockstep (h : PuttingBack rel)
    (hexhausted : ∀ {α : Type} {y : Reading α}, (more = 0 → y = exhausted) → rel exhausted y) :
    Lockstep (fun _ => rel) (fun _ _ => rel) tags tags more :=
  h.lockstep_of_runs (fun _ program _ => h.runs program) hexhausted

end Congruence

/-! ## Whole templates -/

/-- A whole template as one reading: the nodes up to its end or to the first fault, and that fault. -/
def whole (tags : Catalog) : Nat → Reading (List Node × Option ParseFault)
  | 0 => exhausted
  | n + 1 => do
    match ← next.attempt with
    | .error e => return ([], some e)
    | .ok t =>
      match t.kind with
      | .endOfInput => return ([], none)
      | .text =>
        let (nodes, fault) ← whole tags n
        return (t.textNode :: nodes, fault)
      | .tagStart =>
        match ← (tag tags n).attempt with
        | .error e => return ([], some e)
        | .ok node =>
          let (nodes, fault) ← whole tags n
          return (node :: nodes, fault)
      | _ => return ([], some (t.unexpected "text or tag"))

theorem Congruence.Answering.whole_of_lockstep {rel : Relation} (h : Answering rel) {tags : Catalog} {more : Nat}
    (hlock : Lockstep (fun _ => rel) (fun _ _ => rel) tags tags more) (n : Nat) :
    rel (whole tags n) (whole tags (n + more)) := by
  induction n with
  | zero => exact hlock.exhausted fun hmore => by rw [hmore]; rfl
  | succ n ih =>
    rw [Nat.add_right_comm, Reading.whole, Reading.whole]
    refine h.bind (h.attempt h.next) fun r => ?_
    split
    · exact h.pure _
    · split
      · exact h.pure _
      · exact h.bind ih fun _ => h.pure _
      · refine h.bind (h.attempt (hlock.tag n)) fun node => ?_
        split
        · exact h.pure _
        · exact h.bind ih fun _ => h.pure _
      · exact h.pure _

theorem Congruence.Answering.whole {rel : Relation} (h : Answering rel) {tags : Catalog} (htags : tags.NeverPutsBack)
    (n more : Nat) (hexhausted : ∀ {α : Type} {y : Reading α}, (more = 0 → y = exhausted) → rel exhausted y) :
    rel (whole tags n) (whole tags (n + more)) := h.whole_of_lockstep (h.lockstep htags hexhausted) n

/-- What `whole` comes to is what `template` leaves. -/
theorem run_whole (tags : Catalog) : ∀ (n : Nat) (p : Progress), (whole tags n).run p =
    match template tags n p with
    | (nodes, .done () q) => .done (nodes, none) q
    | (nodes, .failed e q) => .done (nodes, some e) q
    | (_, .exhausted q) => .exhausted q
  | 0, _ => rfl
  | n + 1, p => by
    rw [whole, template, run_bind, run_attempt]
    cases next.run p with
    | failed e q | exhausted q => rfl
    | done t q =>
      obtain ⟨kind, text, place⟩ := t
      cases kind with
      | text =>
        simp only [run_bind, run_whole tags n q]
        rcases template tags n q with ⟨nodes, _ | _ | _⟩ <;> rfl
      | tagStart =>
        simp only [run_bind, run_attempt]
        cases (tag tags n).run q with
        | failed e r | exhausted r => rfl
        | done node r =>
          simp only [run_bind, run_whole tags n r]
          rcases template tags n r with ⟨nodes, _ | _ | _⟩ <;> rfl
      | _ => rfl

/-! ## Loops

Skipping and reading a condition go on for as long as the feed has tokens.  With rounds of their own they are put together
of pieces like everything else, and enough rounds make no difference. -/

/-- Skips over fewer than a number of tokens. -/
def skipWithin (kind : Kind) : Nat → Reading Unit
  | 0 => exhausted
  | n + 1 => do
    let t ← next
    if t.kind = kind ∨ t.kind = .endOfInput then return () else skipWithin kind n

def conditionWithin : Nat → Reading (List Node)
  | 0 => exhausted
  | n + 1 => do
    let t ← next
    if t.kind = .tagEnd then return []
    else
      match t.operand with
      | .error e => fail e
      | .ok node => return node :: (← conditionWithin n)

theorem run_skipWithin (kind : Kind) : ∀ (n : Nat) (p : Progress), p.feed.unread < n →
    (skipWithin kind n).run p = (skipUntil kind).run p
  | 0, _, h => absurd h (Nat.not_lt_zero _)
  | n + 1, p, h => by
    rw [skipWithin, next, skipUntil, run_bind, run_ofFeed, run_ofFeed, Feed.skipUntil_eq]
    rcases hn : p.feed.next with ⟨e | t, g⟩
    · rfl
    · simp only
      split
      · rfl
      · rename_i ht
        have hlt := Feed.unread_lt_of_next hn fun hk => ht (.inr hk)
        exact run_skipWithin kind n { p with feed := g } (by show g.unread < n; omega)

theorem run_conditionWithin : ∀ (n : Nat) (p : Progress), p.feed.unread < n →
    (conditionWithin n).run p = condition.run p
  | 0, _, h => absurd h (Nat.not_lt_zero _)
  | n + 1, p, h => by
    rw [conditionWithin, next, condition, run_bind, run_ofFeed, run_ofFeed, Feed.condition]
    rcases hn : p.feed.next with ⟨e | t, g⟩
    · rfl
    · simp only
      split
      · rfl
      · cases ho : t.operand with
        | error e => rfl
        | ok node =>
          have hlt := Feed.unread_lt_of_next hn (Token.kind_ne_of_operand ho)
          have ih := run_conditionWithin n { p with feed := g } (by show g.unread < n; omega)
          simp only [run_bind, ih, condition, run_ofFeed]
          rcases g.condition with ⟨e | nodes, g'⟩ <;> rfl

/-- What holds of readings that come ever closer to a reading holds of that reading. -/
def Closed (P : {α : Type} → Reading α → Prop) : Prop :=
  ∀ {α : Type} {x : Reading α} {xs : Nat → Reading α}, (∀ n, P (xs n)) →
    (∀ p : Progress, ∀ n, p.feed.unread < n → (xs n).run p = x.run p) → P x

/-- A property that a reading has if its pieces have it. -/
structure Hereditary (P : {α : Type} → Reading α → Prop) : Prop where
  pure {α : Type} (a : α) : P (pure a)
  bind {α β : Type} {x : Reading α} {f : α → Reading β} (h : P x) (hf : ∀ a, P (f a)) : P (x >>= f)
  fail {α : Type} (f : ParseFault) : P (fail f : Reading α)
  exhausted {α : Type} : P (exhausted : Reading α)
  next : P next
  peek : P peek
  attempt {α : Type} {x : Reading α} (h : P x) : P x.attempt
  here : P here
  note (e : Event) : P (note e)
  closed : Closed P

namespace Hereditary

variable {P : {α : Type} → Reading α → Prop} (h : Hereditary P)
include h

theorem skipUntil (kind : Kind) : P (skipUntil kind) := by
  refine h.closed (fun n => ?_) fun p n => run_skipWithin kind n p
  induction n with
  | zero => exact h.exhausted
  | succ n ih =>
    refine h.bind h.next fun t => ?_
    split
    · exact h.pure _
    · exact ih

theorem condition : P condition := by
  refine h.closed (fun n => ?_) fun p n => run_conditionWithin n p
  induction n with
  | zero => exact h.exhausted
  | succ n ih =>
    refine h.bind h.next fun t => ?_
    split
    · exact h.pure _
    · split
      · exact h.fail _
      · exact h.bind ih fun _ => h.pure _

theorem answering : Congruence.Answering fun x _ => P x where
  pure := h.pure
  bind := h.bind
  fail := h.fail
  next := h.next
  peek := h.peek
  skipUntil := h.skipUntil
  condition := h.condition
  nested _ := h.note _
  attempt := h.attempt
  here := h.here
  note := h.note

theorem lockstep {tags : Catalog} (htags : tags.NeverPutsBack) :
    Lockstep (fun _ {_} x _ => P x) (fun _ _ {_} x _ => P x) tags tags 0 :=
  h.answering.lockstep htags fun _ => h.exhausted

theorem tag {tags : Catalog} (htags : tags.NeverPutsBack) (n : Nat) : P (tag tags n) := (h.lockstep htags).tag n

theorem whole {tags : Catalog} (htags : tags.NeverPutsBack) (n : Nat) : P (whole tags n) :=
  h.answering.whole htags n 0 fun _ => h.exhausted

end Hereditary

end Reading
end Stencil
