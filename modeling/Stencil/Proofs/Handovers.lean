import Mathlib.Logic.Relation
import Stencil.Handover
import Stencil.Proofs.Horizon
import Stencil.Proofs.Texts
/-!
# A scan beside its reader

Whatever order the two sides of a handover are run in, the tokens that pass are the first ones of the scan
(`Handover.Sound`), and the reading side may leave between any two askings: from then on each step brings the two closer to
the end, and before the end there is always one to take.

A reading asks for as many tokens as it does in a source that it has all to itself, since it does not see beyond what it
asked for.  So it comes to the same.
-/
namespace Stencil

open Relation (ReflTransGen)

def Consumer.holds : Consumer → Bool
  | .idle | .asking | .leaving => true
  | .waiting | .gone => false

def Producer.weight : Producer → Nat
  | .drawing tap => 2 * tap.tokens.length + 2
  | .offering _ tap => 2 * tap.tokens.length + 3
  | .stopped => 1
  | .finished => 0

def Consumer.weight (times : Nat) : Consumer → Nat
  | .idle => 2 * times + 3
  | .asking => 2 * times + 2
  | .leaving => 2
  | .waiting => 1
  | .gone => 0

namespace Handover

variable {ts : List Token} {a b h : Handover} {Allowed : Handover → Handover → Prop} {I : Handover → Prop}

def Over (h : Handover) : Prop := h.producer = .finished ∧ h.consumer = .gone

def Left (h : Handover) : Prop := h.consumer ≠ .idle ∧ h.consumer ≠ .asking

/-- A token is on offer, nobody asks for it, and the other end is not let go. -/
def Blocked (h : Handover) : Prop :=
  (∃ t tap, h.producer = .offering t tap) ∧ h.consumer ≠ .asking ∧ h.receiving = true

/-- How often the reading side has been answered. -/
def answered (h : Handover) : Nat := h.passed.length + h.told

/-! ## What stays true -/

/-- There is nothing to hand over any more: all of `ts` has passed, or a token was refused. -/
def Spent (ts : List Token) (h : Handover) : Prop :=
  h.drawn = h.passed ∧ h.received = ts ∨
    h.receiving = false ∧ ∃ t rest, h.drawn = t :: h.passed ∧ h.received ++ t :: rest = ts

/-- Where the scanning side stands that hands over `ts`. -/
def Stands (ts : List Token) (h : Handover) : Prop :=
  match h.producer with
  | .drawing tap => h.sending = true ∧ h.drawn = h.passed ∧ h.received ++ tap.tokens = ts
  | .offering t tap => h.sending = true ∧ h.drawn = t :: h.passed ∧ h.received ++ t :: tap.tokens = ts
  | .stopped => h.Spent ts
  | .finished => h.sending = false ∧ h.Spent ts

structure Sound (ts : List Token) (h : Handover) : Prop where
  stands : h.Stands ts
  holds : h.receiving = h.consumer.holds
  gone : h.consumer = .gone → h.producer = .finished
  told : 0 < h.told → h.received = ts

theorem sound_spawn (source : String) : Sound (scan source) (spawn source) where
  stands := ⟨rfl, rfl, rfl⟩
  holds := rfl
  gone h := by cases h
  told h := absurd h (Nat.lt_irrefl 0)

theorem Stands.spent (hstands : h.Stands ts) (hs : h.sending = false) : h.Spent ts := by
  unfold Stands at hstands
  split at hstands
  · cases hs.symm.trans hstands.1
  · cases hs.symm.trans hstands.1
  · exact hstands
  · exact hstands.2

theorem Spent.letGo (h : a.Spent ts) (c : Consumer) : Spent ts { a with consumer := c, receiving := false } := by
  rcases h with h | ⟨-, h⟩
  · exact .inl h
  · exact .inr ⟨rfl, h⟩

theorem Stands.letGo (h : a.Stands ts) (c : Consumer) : Stands ts { a with consumer := c, receiving := false } := by
  unfold Stands at h ⊢
  cases hp : a.producer with
  | drawing tap | offering t tap =>
    simp only [hp] at h ⊢
    exact h
  | stopped =>
    simp only [hp] at h ⊢
    exact h.letGo c
  | finished =>
    simp only [hp] at h ⊢
    exact ⟨h.1, h.2.letGo c⟩

theorem Sound.receiving {c : Consumer} {r : Bool} (ha : Sound ts a) (hc : a.consumer = c) (hr : c.holds = r) :
    a.receiving = r := by rw [ha.holds, hc, hr]

theorem Sound.not_gone (ha : Sound ts a) {P : Prop} (hp : a.producer ≠ .finished) (hc : a.consumer = .gone) : P :=
  absurd (ha.gone hc) hp

theorem Sound.step (ha : Sound ts a) (h : Step a b) : Sound ts b := by
  have hstands := ha.stands
  unfold Stands at hstands
  cases h with
  | draw hp ht =>
    simp only [hp] at hstands
    obtain ⟨hs, hd, hts⟩ := hstands
    rw [Tap.tokens_of_draw ht] at hts
    exact ⟨And.intro hs ⟨congrArg (_ :: ·) hd, hts⟩, ha.holds, ha.not_gone (by simp [hp]), ha.told⟩
  | exhaust hp ht =>
    simp only [hp] at hstands
    obtain ⟨-, hd, hts⟩ := hstands
    rw [Tap.tokens_of_draw_none ht, List.append_nil] at hts
    exact ⟨Or.inl ⟨hd, hts⟩, ha.holds, ha.not_gone (by simp [hp]), ha.told⟩
  | refuse hp hr =>
    simp only [hp] at hstands
    obtain ⟨-, hd, hts⟩ := hstands
    exact ⟨Or.inr ⟨hr, _, _, hd, hts⟩, ha.holds, ha.not_gone (by simp [hp]), ha.told⟩
  | close hp hs =>
    simp only [hp] at hstands
    exact ⟨by simp only [Stands, hp]; exact hstands, ha.holds, ha.gone, ha.told⟩
  | finish hp hs =>
    simp only [hp] at hstands
    exact ⟨And.intro hs hstands, ha.holds, fun _ => rfl, ha.told⟩
  | ask hc => exact ⟨ha.stands, ha.receiving hc rfl, fun h => (by cases h), ha.told⟩
  | pass hp hc =>
    simp only [hp] at hstands
    obtain ⟨hs, hd, hts⟩ := hstands
    refine ⟨And.intro hs ⟨hd, ?_⟩, ha.receiving hc rfl, fun h => (by cases h), fun htold => ?_⟩
    · rw [received, List.reverse_cons, List.append_assoc]
      exact hts
    · -- It was not told before that nothing is left.
      rw [← ha.told htold] at hts
      simp at hts
  | tell hc hs =>
    have hreceiving : a.receiving = true := ha.receiving hc rfl
    refine ⟨ha.stands, ha.receiving hc rfl, fun h => (by cases h), fun _ => ?_⟩
    rcases ha.stands.spent hs with h | ⟨hr, -⟩
    · exact h.2
    · cases hr.symm.trans hreceiving
  | leave hc => exact ⟨ha.stands, ha.receiving hc rfl, fun h => (by cases h), ha.told⟩
  | letGo hc => exact ⟨ha.stands.letGo _, rfl, fun h => (by cases h), ha.told⟩
  | part hc hp => exact ⟨ha.stands, ha.receiving hc rfl, fun _ => hp, ha.told⟩

/-- What has been drawn: what has passed, and at most one token more. -/
theorem Sound.exists_ahead (hs : Sound ts h) :
    ∃ ahead rest, ahead.length ≤ 1 ∧ h.drawn.reverse = h.received ++ ahead ∧ h.received ++ (ahead ++ rest) = ts := by
  have hspent : h.Spent ts →
      ∃ ahead rest, ahead.length ≤ 1 ∧ h.drawn.reverse = h.received ++ ahead ∧ h.received ++ (ahead ++ rest) = ts := by
    rintro (⟨hd, hts⟩ | ⟨-, t, rest, hd, hts⟩)
    · exact ⟨[], [], Nat.zero_le 1, by rw [hd, received, List.append_nil], by rw [hts]; exact List.append_nil ts⟩
    · exact ⟨[t], rest, Nat.le_refl 1, by rw [hd, List.reverse_cons]; rfl, hts⟩
  have hstands := hs.stands
  unfold Stands at hstands
  split at hstands
  · obtain ⟨-, hd, hts⟩ := hstands
    exact ⟨[], _, Nat.zero_le 1, by rw [hd, received, List.append_nil], hts⟩
  · obtain ⟨-, hd, hts⟩ := hstands
    exact ⟨[_], _, Nat.le_refl 1, by rw [hd, List.reverse_cons]; rfl, hts⟩
  · exact hspent hstands
  · exact hspent hstands.2

theorem Sound.not_blocked (hs : Sound ts h) (hc : h.consumer = .waiting) : ¬ h.Blocked := by
  rintro ⟨-, -, hr⟩
  cases hr.symm.trans (hs.receiving hc rfl)

/-! ## Steps that can be taken -/

/-- The steps in which the reading side asks for what it wants, and leaves when it wants nothing more. -/
structure Driven (wants : Handover → Prop) (a b : Handover) : Prop where
  step : Step a b
  asks : a.consumer = .idle → b.consumer = .asking → wants a
  leaves : a.consumer = .idle → b.consumer = .leaving → ¬ wants a

/-- Only of an idle reading side it matters what it wants. -/
theorem Step.driven (h : Step a b) (hc : a.consumer ≠ .idle) (wants : Handover → Prop) : Driven wants a b :=
  ⟨h, fun h => absurd h hc, fun h => absurd h hc⟩

/-- The scanning side waits for nobody, except with a token in hand and at its end. -/
theorem exists_step_of_producer (hoffering : ∀ t tap, h.producer ≠ .offering t tap) (hfinished : h.producer ≠ .finished) :
    ∃ b, Step h b := by
  cases hp : h.producer with
  | drawing tap =>
    rcases ht : tap.draw with ⟨t | t, rest⟩
    · exact ⟨_, .exhaust hp ht⟩
    · exact ⟨_, .draw hp ht⟩
  | offering t tap => exact absurd hp (hoffering t tap)
  | stopped =>
    cases hs : h.sending with
    | true => exact ⟨_, .close hp hs⟩
    | false => exact ⟨_, .finish hp hs⟩
  | finished => exact absurd hp hfinished

theorem Sound.over_or_driven (hs : Sound ts h) (wants : Handover → Prop) : h.Over ∨ ∃ b, Driven wants h b := by
  have hbusy : h.consumer ≠ .idle → (∃ b, Step h b) → h.Over ∨ ∃ b, Driven wants h b := by
    rintro hc ⟨b, hb⟩
    exact .inr ⟨b, hb.driven hc wants⟩
  cases hc : h.consumer with
  | idle =>
    by_cases hw : wants h
    · exact .inr ⟨_, .ask hc, fun _ _ => hw, fun _ h => by cases h⟩
    · exact .inr ⟨_, .leave hc, fun _ h => (by cases h), fun _ _ => hw⟩
  | asking =>
    refine hbusy (by simp [hc]) ?_
    by_cases hoffering : ∃ t tap, h.producer = .offering t tap
    · obtain ⟨t, tap, hp⟩ := hoffering
      exact ⟨_, .pass hp hc⟩
    · by_cases hfinished : h.producer = .finished
      · have hstands := hs.stands
        simp only [Stands, hfinished] at hstands
        exact ⟨_, .tell hc hstands.1⟩
      · exact exists_step_of_producer (fun t tap hp => hoffering ⟨t, tap, hp⟩) hfinished
  | leaving => exact hbusy (by simp [hc]) ⟨_, .letGo hc⟩
  | waiting =>
    refine hbusy (by simp [hc]) ?_
    by_cases hoffering : ∃ t tap, h.producer = .offering t tap
    · obtain ⟨t, tap, hp⟩ := hoffering
      exact ⟨_, .refuse hp (hs.receiving hc rfl)⟩
    · by_cases hfinished : h.producer = .finished
      · exact ⟨_, .part hc hfinished⟩
      · exact exists_step_of_producer (fun t tap hp => hoffering ⟨t, tap, hp⟩) hfinished
  | gone => exact .inl ⟨hs.gone hc, hc⟩

/-! ## Runs come to an end -/

theorem keeps_of_run (hkeep : ∀ {a b}, I a → Allowed a b → I b) (h : ReflTransGen Allowed a b) (ha : I a) : I b := by
  induction h with
  | refl => exact ha
  | tail _ hlast ih => exact hkeep ih hlast

/-- Where each step weighs less than the one before, steps cannot be taken for ever. -/
theorem acc_of_weight (weight : Handover → Nat) (hstep : ∀ {a b}, I a → Allowed a b → I b ∧ weight b < weight a) :
    ∀ {h}, I h → Acc (flip Allowed) h := by
  intro h hh
  induction hw : weight h using Nat.strongRecOn generalizing h with
  | ind n ih =>
    refine .intro h fun b hb => ?_
    obtain ⟨hinv, hlt⟩ := hstep hh hb
    exact ih _ (hw ▸ hlt) hinv rfl

theorem exists_over_of_acc (hkeep : ∀ {a b}, I a → Allowed a b → I b) (hgo : ∀ {a}, I a → a.Over ∨ ∃ b, Allowed a b)
    (hacc : Acc (flip Allowed) h) : I h → ∃ o, ReflTransGen Allowed h o ∧ o.Over := by
  induction hacc with
  | intro a _ ih =>
    intro ha
    rcases hgo ha with hover | ⟨b, hb⟩
    · exact ⟨a, .refl, hover⟩
    · obtain ⟨o, hrun, hover⟩ := ih b hb (hkeep ha hb)
      exact ⟨o, .head hb hrun, hover⟩

/-- What is still to be done where the reading side is answered at most `limit` times. -/
def weight (limit : Nat) (h : Handover) : Nat :=
  h.producer.weight + h.sending.toNat + h.consumer.weight (limit - h.answered)

/-- Every step does something of it, so long as nothing is asked for beyond the limit. -/
theorem Step.weight_lt {limit : Nat} (h : Step a b) (hlimit : a.consumer = .asking → a.answered < limit) :
    b.weight limit < a.weight limit := by
  cases h with
  | draw hp ht =>
    have hlen := congrArg List.length (Tap.tokens_of_draw ht)
    simp only [weight, hp, Producer.weight, answered, hlen, List.length_cons]
    omega
  | exhaust hp ht | refuse hp hr =>
    simp only [weight, hp, Producer.weight, answered]
    omega
  | close hp hs | finish hp hs =>
    simp only [weight, hp, hs, Producer.weight, answered, Bool.toNat_true, Bool.toNat_false]
    omega
  | ask hc | leave hc | letGo hc | part hc hp =>
    simp only [weight, hc, Consumer.weight, answered]
    omega
  | pass hp hc =>
    have := hlimit hc
    simp only [weight, hp, hc, Producer.weight, Consumer.weight, answered, List.length_cons] at this ⊢
    omega
  | tell hc hs =>
    have := hlimit hc
    simp only [weight, hc, Consumer.weight, answered] at this ⊢
    omega

/-- What a step is to the reading side. -/
inductive Turn (a b : Handover) : Prop
  | stays (hc : b.consumer = a.consumer) (hn : b.answered = a.answered)
  | asks (ha : a.consumer = .idle) (hb : b.consumer = .asking) (hn : b.answered = a.answered)
  | hears (ha : a.consumer = .asking) (hb : b.consumer = .idle) (hn : b.answered = a.answered + 1)
  | leaves (ha : a.consumer = .idle) (hb : b.consumer = .leaving) (hn : b.answered = a.answered)
  | goes (ha : a.Left) (hb : b.Left) (hn : b.answered = a.answered)

theorem Step.turn (h : Step a b) : Turn a b := by
  cases h with
  | draw | exhaust | refuse | close | finish => exact .stays rfl rfl
  | ask hc => exact .asks hc rfl rfl
  | pass hp hc => exact .hears hc rfl (Nat.add_right_comm ..)
  | tell hc hs => exact .hears hc rfl rfl
  | leave hc => exact .leaves hc rfl rfl
  | letGo hc | part hc hp => exact .goes (by simp [Left, hc]) (by simp [Left]) rfl

theorem left_congr (hc : b.consumer = a.consumer) : b.Left ↔ a.Left := by rw [Left, Left, hc]

theorem Left.step (hleft : a.Left) (h : Step a b) : b.Left := by
  cases h.turn with
  | stays hc hn => exact (left_congr hc).2 hleft
  | asks ha | leaves ha => exact absurd ha hleft.1
  | hears ha => exact absurd ha hleft.2
  | goes _ hb => exact hb

theorem Left.acc (hh : h.Left) : Acc (flip Step) h :=
  acc_of_weight (weight 0) (fun ha hstep => ⟨ha.step hstep, hstep.weight_lt fun hc => absurd hc ha.2⟩) hh

theorem Driven.asking_lt {limit : Nat} {wants : Handover → Prop} (h : Driven wants a b)
    (hwants : wants a → a.answered < limit) (hasking : a.consumer = .asking → a.answered < limit) :
    b.consumer = .asking → b.answered < limit := by
  intro hb
  cases h.step.turn with
  | stays hc hn => exact hn ▸ hasking (hc.symm.trans hb)
  | asks ha _ hn => exact hn ▸ hwants (h.asks ha hb)
  | hears _ hc | leaves _ hc => cases hc.symm.trans hb
  | goes _ hleft => exact absurd hb hleft.2

theorem Sound.acc_driven {limit : Nat} {wants : Handover → Prop} (hs : Sound ts h)
    (hwants : ∀ {h}, Sound ts h → wants h → h.answered < limit) (hasking : h.consumer = .asking → h.answered < limit) :
    Acc (flip (Driven wants)) h := by
  refine acc_of_weight (I := fun a => Sound ts a ∧ (a.consumer = .asking → a.answered < limit)) (weight limit) ?_ ⟨hs, hasking⟩
  rintro a b ⟨ha, hasking⟩ hstep
  exact ⟨⟨ha.step hstep.step, hstep.asking_lt (hwants ha) hasking⟩, hstep.step.weight_lt hasking⟩

theorem Sound.exists_over (hs : Sound ts h) : ∃ o, ReflTransGen Step h o ∧ o.Over := by
  have hacc : Acc (flip (Driven fun _ => False)) h :=
    hs.acc_driven (fun _ hwants => hwants.elim) fun _ => Nat.lt_succ_self h.answered
  obtain ⟨o, hrun, hover⟩ := exists_over_of_acc (fun ha hstep => Sound.step ha hstep.step)
    (fun ha => Sound.over_or_driven ha _) hacc hs
  have hsteps : ∀ a b, Driven (fun _ => False) a b → Step a b := fun _ _ hstep => hstep.step
  exact ⟨o, ReflTransGen.mono hsteps _ _ hrun, hover⟩

/-! ## Readings beside a scan -/

/-- A reading goes by what it was given.  It wants another token if, with these tokens for a source, it would ask more often
than it has been answered. -/
def Wants (tags : Catalog) (n : Nat) (h : Handover) : Prop :=
  h.answered < (Transcript.ofRounds tags n h.received).asked

theorem ofRounds_asked_le_iff (tags : Catalog) (n : Nat) (s a b : List Token) :
    (Transcript.ofRounds tags n (s ++ a)).asked ≤ s.length ↔ (Transcript.ofRounds tags n (s ++ b)).asked ≤ s.length :=
  ⟨fun h => (Transcript.ofRounds_eq_of_asked_le b h).symm ▸ h, fun h => (Transcript.ofRounds_eq_of_asked_le a h).symm ▸ h⟩

theorem Sound.received_or (hs : Sound ts h) :
    h.received = ts ∨ h.answered = h.received.length ∧ ∃ rest, h.received ++ rest = ts := by
  rcases Nat.eq_zero_or_pos h.told with htold | htold
  · obtain ⟨ahead, rest, -, -, hts⟩ := hs.exists_ahead
    exact .inr ⟨by rw [answered, htold, received, List.length_reverse]; rfl, _, hts⟩
  · exact .inl (hs.told htold)

theorem Sound.wants_iff {tags : Catalog} {n : Nat} (hs : Sound ts h) :
    Wants tags n h ↔ h.answered < (Transcript.ofRounds tags n ts).asked := by
  unfold Wants
  rcases hs.received_or with hall | ⟨hanswered, rest, hts⟩
  · rw [hall]
  · have hiff := ofRounds_asked_le_iff tags n h.received [] rest
    rw [List.append_nil, hts] at hiff
    rw [hanswered, ← Nat.not_le, ← Nat.not_le, hiff]

/-- A reading that has been answered often enough has come to what it comes to with the whole source. -/
theorem Sound.ofRounds_received {tags : Catalog} {n : Nat} (hs : Sound ts h)
    (hle : (Transcript.ofRounds tags n ts).asked ≤ h.answered) :
    Transcript.ofRounds tags n h.received = Transcript.ofRounds tags n ts := by
  rcases hs.received_or with hall | ⟨hanswered, rest, rfl⟩
  · rw [hall]
  · rw [hanswered] at hle
    exact (congrArg _ (List.append_nil _).symm).trans (Transcript.ofRounds_eq_of_asked_le [] hle)

/-- How a reading stands that asks its source for `limit` tokens. -/
structure Within (ts : List Token) (limit : Nat) (h : Handover) : Prop where
  sound : Sound ts h
  le : h.answered ≤ limit
  asking : h.consumer = .asking → h.answered < limit
  left : h.Left → h.answered = limit

theorem within_spawn (source : String) (limit : Nat) : Within (scan source) limit (spawn source) where
  sound := sound_spawn source
  le := Nat.zero_le limit
  asking h := by cases h
  left h := absurd rfl h.1

theorem Within.step {limit : Nat} {wants : Handover → Prop} (hwants : ∀ {h}, Sound ts h → (wants h ↔ h.answered < limit))
    (hin : Within ts limit a) (h : Driven wants a b) : Within ts limit b := by
  have hsound := hin.sound.step h.step
  have hasking := h.asking_lt (hwants hin.sound).1 hin.asking
  cases h.step.turn with
  | stays hc hn => exact ⟨hsound, hn ▸ hin.le, hasking, fun hb => hn ▸ hin.left ((left_congr hc).1 hb)⟩
  | asks ha hb hn => exact ⟨hsound, hn ▸ hin.le, hasking, fun hleft => absurd hb hleft.2⟩
  | hears ha hb hn => exact ⟨hsound, hn ▸ hin.asking ha, hasking, fun hleft => absurd hb hleft.1⟩
  | leaves ha hb hn =>
    have hdone : ¬ a.answered < limit := fun hlt => h.leaves ha hb ((hwants hin.sound).2 hlt)
    exact ⟨hsound, hn ▸ hin.le, hasking, fun _ => hn ▸ Nat.le_antisymm hin.le (Nat.not_lt.1 hdone)⟩
  | goes ha hb hn => exact ⟨hsound, hn ▸ hin.le, hasking, fun _ => hn ▸ hin.left ha⟩

/-- **A scan beside its reader hands over what it hands over alone**, and may be left at any time.  In whatever order the two
are run, the tokens that passed are the first ones of the scan, one more at most was drawn, and nothing is left when the
reader is told so.  The reader never waits for a scan that waits for it: before the end there is a step to take, and once
the reader has left only so many.  A reading that asks for what it wants comes to its end, and to the same as with the
source to itself. -/
theorem spawn_delivers (source : String) :
    (∀ h, ReflTransGen Step (spawn source) h →
      h.received <+: h.drawn.reverse ∧ h.drawn.reverse <+: scan source ∧ h.drawn.length ≤ h.received.length + 1 ∧
      (0 < h.told → h.received = scan source) ∧
      (h.consumer = .waiting → ¬ h.Blocked) ∧
      (h.Over ∨ ∃ b, Step h b) ∧ (h.Left → Acc (flip Step) h) ∧ ∃ o, ReflTransGen Step h o ∧ o.Over) ∧
    ∀ d : Draft,
      let n := Transcript.rounds (scan source).length
      Acc (flip (Driven (Wants d.tags n))) (spawn source) ∧
      ∀ h, ReflTransGen (Driven (Wants d.tags n)) (spawn source) h →
        (h.Over ∨ ∃ b, Driven (Wants d.tags n) h b) ∧
        (h.Left →
          let t := Transcript.ofRounds d.tags n h.received
          t = (d.parse source).2.transcript ∧ t.asked = h.answered ∧
            { d with root := t.root, parsed := t.fault.isNone } = (d.parse source).1) := by
  refine ⟨fun h hrun => ?_, fun d => ⟨?_, fun h hrun => ?_⟩⟩
  · have hs : Sound (scan source) h := keeps_of_run Sound.step hrun (sound_spawn source)
    obtain ⟨ahead, rest, hone, hdrawn, hts⟩ := hs.exists_ahead
    have hlen : h.drawn.length = h.received.length + ahead.length := by
      rw [← List.length_reverse, hdrawn, List.length_append]
    refine ⟨⟨ahead, hdrawn.symm⟩, ⟨rest, ?_⟩, hlen ▸ Nat.add_le_add_left hone _, hs.told, hs.not_blocked, ?_, Left.acc,
      hs.exists_over⟩
    · rw [hdrawn, List.append_assoc, hts]
    · exact (hs.over_or_driven fun _ => False).imp_right fun ⟨b, hb⟩ => ⟨b, hb.step⟩
  · exact (sound_spawn source).acc_driven (fun hs => hs.wants_iff.1) fun h => by cases h
  · have hin : Within (scan source) _ h := keeps_of_run (Within.step Sound.wants_iff) hrun (within_spawn source _)
    refine ⟨hin.sound.over_or_driven _, fun hleft => ?_⟩
    have hanswered := hin.left hleft
    have hsame := hin.sound.ofRounds_received (Nat.le_of_eq hanswered.symm)
    have hparse : Transcript.ofRounds d.tags _ h.received = (d.parse source).2.transcript :=
      hsame.trans (d.transcript_scan source).symm
    refine ⟨hparse, (congrArg _ hsame).trans hanswered.symm, ?_⟩
    rw [hparse]
    rfl

theorem run_exchangeFrom (seen : List Token) (tap : Tap) :
    ReflTransGen Step ⟨.drawing tap, .idle, true, true, seen, seen, 0⟩ (exchangeFrom seen tap) := by
  rw [exchangeFrom]
  split
  · rename_i t rest h
    have := Tap.length_lt_of_draw h
    exact .head (.draw rfl h) (.head (.ask rfl) (.head (.pass rfl rfl) (run_exchangeFrom (t :: seen) rest)))
  · rename_i rest h
    exact .head (.exhaust rfl h) (.head (.close rfl rfl) (.head (.finish rfl rfl)
      (.head (.ask rfl) (.single (.tell rfl rfl)))))
termination_by tap.tokens.length

theorem told_exchangeFrom (seen : List Token) (tap : Tap) : (exchangeFrom seen tap).told = 1 := by
  rw [exchangeFrom]
  split
  · rename_i t rest h
    have := Tap.length_lt_of_draw h
    exact told_exchangeFrom (t :: seen) rest
  · rfl
termination_by tap.tokens.length

theorem spawn_delivers_titled :
    (∃ h, ReflTransGen Step (spawn titled) h ∧ 0 < h.told ∧ h.received = scan titled) ∧
    (∃ h t tap, ReflTransGen Step (spawn titled) h ∧ h.producer = .offering t tap ∧ h.consumer = .waiting ∧
      ¬ h.Blocked ∧ Acc (flip Step) h ∧ ∃ o, ReflTransGen Step h o ∧ o.Over) ∧
    ∃ n h, ReflTransGen (Driven (Wants .empty n)) (spawn titled) h ∧ h.Over ∧
      (Transcript.ofRounds .empty n h.received).root = [.block 3 "a" [] [.text 13 "x"], .text 30 "y"] := by
  obtain ⟨hruns, hreads⟩ := spawn_delivers titled
  refine ⟨?_, ?_, ?_⟩
  · have htold : 0 < (exchangeFrom [] (.ofSource titled)).told := by rw [told_exchangeFrom]; exact Nat.one_pos
    obtain ⟨-, -, -, hall, -⟩ := hruns _ (run_exchangeFrom [] (.ofSource titled))
    exact ⟨_, run_exchangeFrom [] _, htold, hall htold⟩
  · rcases ht : (Tap.ofSource titled).draw with ⟨_ | t, rest⟩
    · have hnone := Tap.tokens_of_draw_none ht
      rw [Tap.tokens_ofSource, scan_titled] at hnone
      cases hnone
    · have hrun : ReflTransGen Step (spawn titled)
          ⟨.offering t rest, .waiting, true, false, [t], [], 0⟩ :=
        .head (.draw rfl ht) (.head (.leave rfl) (.single (.letGo rfl)))
      obtain ⟨-, -, -, -, hblocked, -, hends, hover⟩ := hruns _ hrun
      exact ⟨_, t, rest, hrun, rfl, rfl, hblocked rfl, hends (by simp [Left]), hover⟩
  · obtain ⟨hacc, hread⟩ := hreads (.fresh "t" .empty)
    obtain ⟨h, hrun, hover⟩ := exists_over_of_acc (I := ReflTransGen _ (spawn titled)) (fun ha hstep => ha.tail hstep)
      (fun ha => (hread _ ha).1) hacc .refl
    obtain ⟨-, hleft⟩ := hread h hrun
    obtain ⟨hsame, -⟩ := hleft (by simp [Left, hover.2])
    exact ⟨_, h, hrun, hover, (congrArg _ hsame).trans accepts_titled.2⟩

end Handover
end Stencil
