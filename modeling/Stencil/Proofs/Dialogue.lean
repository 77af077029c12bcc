import Stencil.Proofs.Lockstep
import Stencil.Proofs.Outlook
/-!
# Readings as dialogues

A reading that puts nothing back is a dialogue with its feed: it asks for one thing after another and goes on with the
answer, a fault included (`Dialogue`).  So are whole templates, however their tags go about it
(`Reading.isDialogue_whole`), and what a dialogue asks can be listed with what it is told (`Dialogue.trace`).
-/
namespace Stencil

/-! ## Dialogues -/

/-- A reading that is told the answer to whatever it asks for. -/
inductive Dialogue (α : Type)
  | done (a : α)
  | failed (f : ParseFault)
  | exhausted
  | next (k : Except ParseFault Token → Dialogue α)
  | peek (k : Except ParseFault Token → Dialogue α)
  | skipUntil (kind : Kind) (k : Except ParseFault Unit → Dialogue α)
  | condition (k : Except ParseFault (List Node) → Dialogue α)
  | here (k : Place → Dialogue α)
  | note (e : Event) (k : Dialogue α)

namespace Dialogue

variable {α β : Type}

def run : Dialogue α → Reading α
  | .done a => pure a
  | .failed f => Reading.fail f
  | .exhausted => Reading.exhausted
  | .next k => do (k (← Reading.next.attempt)).run
  | .peek k => do (k (← Reading.peek.attempt)).run
  | .skipUntil kind k => do (k (← (Reading.skipUntil kind).attempt)).run
  | .condition k => do (k (← Reading.condition.attempt)).run
  | .here k => do (k (← Reading.here)).run
  | .note e k => do Reading.note e; k.run

def bind : Dialogue α → (α → Dialogue β) → Dialogue β
  | .done a, d => d a
  | .failed f, _ => .failed f
  | .exhausted, _ => .exhausted
  | .next k, d => .next fun r => (k r).bind d
  | .peek k, d => .peek fun r => (k r).bind d
  | .skipUntil kind k, d => .skipUntil kind fun r => (k r).bind d
  | .condition k, d => .condition fun r => (k r).bind d
  | .here k, d => .here fun p => (k p).bind d
  | .note e k, d => .note e (k.bind d)

def attempt : Dialogue α → Dialogue (Except ParseFault α)
  | .done a => .done (.ok a)
  | .failed f => .done (.error f)
  | .exhausted => .exhausted
  | .next k => .next fun r => (k r).attempt
  | .peek k => .peek fun r => (k r).attempt
  | .skipUntil kind k => .skipUntil kind fun r => (k r).attempt
  | .condition k => .condition fun r => (k r).attempt
  | .here k => .here fun p => (k p).attempt
  | .note e k => .note e k.attempt

end Dialogue

namespace Reading

variable {α β γ : Type}

theorem bind_assoc (x : Reading α) (f : α → Reading β) (g : β → Reading γ) :
    x >>= f >>= g = x >>= fun a => f a >>= g := by
  funext p
  show ((x >>= f) >>= g).run p = (x >>= fun a => f a >>= g).run p
  rw [run_bind, run_bind, run_bind]
  cases x.run p <;> rfl

theorem attempt_bind {x : Reading α} (f : α → Reading β) (hx : ∀ p e q, x.run p ≠ .failed e q) :
    (x >>= f).attempt = x >>= fun a => (f a).attempt := by
  funext p
  show (x >>= f).attempt.run p = (x >>= fun a => (f a).attempt).run p
  rw [run_attempt, run_bind, run_bind]
  cases hr : x.run p with
  | done a q => rfl
  | failed e q => exact absurd hr (hx p e q)
  | exhausted q => rfl

theorem run_attempt_ne_failed (x : Reading α) (p : Progress) (e : ParseFault) (q : Progress) :
    x.attempt.run p ≠ .failed e q := by
  rw [run_attempt]
  cases x.run p <;> exact fun h => by cases h

end Reading

namespace Dialogue

variable {α β : Type}

open Reading (bind_assoc attempt_bind run_attempt_ne_failed)

theorem run_bind (d : Dialogue α) (k : α → Dialogue β) : (d.bind k).run = d.run >>= fun a => (k a).run := by
  induction d with
  | done a | failed f | exhausted => rfl
  | next _ ih | peek _ ih | skipUntil _ _ ih | condition _ ih | here _ ih => simp only [bind, run, bind_assoc, ih]
  | note _ _ ih => simp only [bind, run, bind_assoc, ih]

theorem run_attempt (d : Dialogue α) : d.attempt.run = d.run.attempt := by
  induction d with
  | done a | failed f | exhausted => rfl
  | next _ ih | peek _ ih | skipUntil _ _ ih | condition _ ih =>
    simp only [attempt, run, ih]
    exact (attempt_bind _ (run_attempt_ne_failed _)).symm
  | here _ ih =>
    simp only [attempt, run, ih]
    exact (attempt_bind _ fun _ _ _ h => by cases h).symm
  | note _ _ ih =>
    simp only [attempt, run, ih]
    exact (attempt_bind _ fun _ _ _ h => by cases h).symm

def ofAnswer : Except ParseFault α → Dialogue α
  | .ok a => .done a
  | .error f => .failed f

theorem run_ofAnswer (x : Reading α) : (x.attempt >>= fun r => (ofAnswer r).run) = x := by
  funext p
  show (x.attempt >>= fun r => (ofAnswer r).run).run p = x.run p
  rw [Reading.run_bind, Reading.run_attempt]
  cases x.run p <;> rfl

end Dialogue

/-! ## Readings that are dialogues -/

namespace Reading

variable {α β : Type}

def IsDialogue (x : Reading α) : Prop := ∃ d : Dialogue α, d.run = x

theorem IsDialogue.bind {x : Reading α} {f : α → Reading β} (hx : x.IsDialogue) (hf : ∀ a, (f a).IsDialogue) :
    (x >>= f).IsDialogue := by
  obtain ⟨d, rfl⟩ := hx
  obtain ⟨k, hk⟩ := Classical.axiomOfChoice hf
  refine ⟨d.bind k, ?_⟩
  rw [Dialogue.run_bind, funext hk]

theorem IsDialogue.attempt {x : Reading α} (hx : x.IsDialogue) : x.attempt.IsDialogue := by
  obtain ⟨d, rfl⟩ := hx
  exact ⟨d.attempt, d.run_attempt⟩

theorem answering_isDialogue : Congruence.Answering fun x _ => IsDialogue x where
  pure a := ⟨.done a, rfl⟩
  bind := IsDialogue.bind
  fail f := ⟨.failed f, rfl⟩
  next := ⟨.next .ofAnswer, Dialogue.run_ofAnswer Reading.next⟩
  peek := ⟨.peek .ofAnswer, Dialogue.run_ofAnswer Reading.peek⟩
  skipUntil kind := ⟨.skipUntil kind .ofAnswer, Dialogue.run_ofAnswer (Reading.skipUntil kind)⟩
  condition := ⟨.condition .ofAnswer, Dialogue.run_ofAnswer Reading.condition⟩
  nested keyword := ⟨.note (.nested keyword) (.done ()), rfl⟩
  attempt := IsDialogue.attempt
  here := ⟨.here .done, rfl⟩
  note e := ⟨.note e (.done ()), rfl⟩

/-- Where no tag puts anything back, a whole template is a dialogue. -/
theorem isDialogue_whole {tags : Catalog} (htags : tags.NeverPutsBack) (n : Nat) : (whole tags n).IsDialogue :=
  answering_isDialogue.whole htags n 0 fun _ => ⟨.exhausted, rfl⟩

end Reading

/-! ## What was asked and answered -/

namespace Feed

structure Exchange where
  call : Call
  answer : Answer
  /-- How often the source had been asked for a token then. -/
  asked : Nat

def exchange (f : Feed) (c : Call) : Exchange := ⟨c, (f.answer c).1, (f.answer c).2.asked⟩

def conditionTrace (f : Feed) : List Exchange :=
  f.exchange .next ::
    match _h : f.next with
    | (.error _, _) => []
    | (.ok t, g) =>
      if t.kind = .tagEnd then []
      else
        match _ho : t.operand with
        | .error _ => []
        | .ok _ => g.conditionTrace
termination_by f.unread
decreasing_by exact unread_lt_of_next _h (Token.kind_ne_of_operand _ho)

theorem conditionTrace_eq (f : Feed) :
    f.conditionTrace = f.exchange .next :: match f.next with
      | (.error _, _) => []
      | (.ok t, g) =>
        if t.kind = .tagEnd then []
        else
          match t.operand with
          | .error _ => []
          | .ok _ => g.conditionTrace := by
  rw [conditionTrace]
  split <;> rename_i heq <;> simp only [heq]
  split
  · rfl
  · split <;> rename_i ho <;> simp only [ho]

end Feed

/-- Everything that a dialogue asks of a feed, in order. -/
def Dialogue.trace {α : Type} : Dialogue α → Feed → List Feed.Exchange
  | .done _, _ | .failed _, _ | .exhausted, _ => []
  | .next k, f => f.exchange .next :: (k f.next.1).trace f.next.2
  | .peek k, f => f.exchange .peek :: (k f.peek.1).trace f.peek.2
  | .skipUntil kind k, f => f.exchange (.skipUntil kind) :: (k (f.skipUntil kind).1).trace (f.skipUntil kind).2
  | .condition k, f => f.conditionTrace ++ (k f.condition.1).trace f.condition.2
  | .here k, f => (k f.last).trace f
  | .note _ k, f => k.trace f

end Stencil
