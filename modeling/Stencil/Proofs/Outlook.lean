import Mathlib.Data.Stream.Init
import Stencil.Proofs.Upcoming
/-!
# An endless list of tokens

A feed of a finite source never runs dry: past its end there are ends of input, or the fault that it closed too early, for
ever.  So what a reader has before it is one endless list, and each call is something simple on that list: taking its
head, looking at it, putting a token before it, dropping what comes up to a token (`Outlook.Step`).  A fault is never
taken off, and whoever reads on runs into it again.

Only the places of the tokens past the end are not known beforehand.  Such a token stands where the one that was taken
last stood when it was first read, so they depend on the calls (`Feed.placesOf`).
-/
namespace Stencil

/-! ## What a reader can ask of a feed -/

inductive Feed.Call
  | next
  | peek
  | putBack (t : Token)
  | skipUntil (kind : Kind)

abbrev Feed.Answer := Except ParseFault (Option Token)

def Feed.answer (f : Feed) : Call → Answer × Feed
  | .next => (f.next.1.map some, f.next.2)
  | .peek => (f.peek.1.map some, f.peek.2)
  | .putBack t => (.ok none, f.putBack t)
  | .skipUntil kind => ((f.skipUntil kind).1.map fun _ => none, (f.skipUntil kind).2)

/-- What a reader has from a call: the answer, and what a fault of its own would be behind it, for each cause. -/
abbrev Feed.Response := Answer × (ParseCause → ParseFault)

def Feed.replay : List Call → Feed → List Response
  | [], _ => []
  | c :: calls, f => ((f.answer c).1, (f.answer c).2.faultHere) :: replay calls (f.answer c).2

/-! ## The list -/

/-- All that comes, and the place of the token that was taken last. -/
structure Outlook where
  ahead : Stream' Token
  last : Place

namespace Outlook

open Feed (Call Answer Response lexicalFault)
open Stream'

def faultHere (v : Outlook) (cause : ParseCause) : ParseFault := ⟨v.last, cause⟩

def Passes (kind : Kind) (t : Token) : Prop := t.kind ≠ kind ∧ t.kind ≠ .endOfInput ∧ t.kind ≠ .error

instance (kind : Kind) : DecidablePred (Passes kind) := fun _ => inferInstanceAs (Decidable (_ ∧ _ ∧ _))

inductive Step (v : Outlook) : Call → Answer → Outlook → Prop
  | next {t : Token} {ts : Stream' Token} (h : v.ahead = t :: ts) (ht : t.kind ≠ .error) :
    Step v .next (.ok (some t)) ⟨ts, t.place⟩
  | nextFault {e : Token} {ts : Stream' Token} (h : v.ahead = e :: ts) (he : e.kind = .error) :
    Step v .next (.error (lexicalFault e)) ⟨v.ahead, e.place⟩
  | peek {t : Token} {ts : Stream' Token} (h : v.ahead = t :: ts) (ht : t.kind ≠ .error) :
    Step v .peek (.ok (some t)) v
  | peekFault {e : Token} {ts : Stream' Token} (h : v.ahead = e :: ts) (he : e.kind = .error) :
    Step v .peek (.error (lexicalFault e)) v
  | putBack (t : Token) : Step v (.putBack t) (.ok none) ⟨t :: v.ahead, v.last⟩
  | skip (passed : List Token) {kind : Kind} {t : Token} {ts : Stream' Token} (h : v.ahead = passed ++ₛ t :: ts)
    (hpassed : ∀ u ∈ passed, Passes kind u) (ht : t.kind = kind ∨ t.kind = .endOfInput) (herr : t.kind ≠ .error) :
    Step v (.skipUntil kind) (.ok none) ⟨ts, t.place⟩
  | skipFault (passed : List Token) {kind : Kind} {e : Token} {ts : Stream' Token} (h : v.ahead = passed ++ₛ e :: ts)
    (hpassed : ∀ u ∈ passed, Passes kind u) (he : e.kind = .error) :
    Step v (.skipUntil kind) (.error (lexicalFault e)) ⟨e :: ts, e.place⟩

inductive Runs : Outlook → List Call → List Response → Prop
  | nil {v : Outlook} : Runs v [] []
  | cons {v w : Outlook} {c : Call} {a : Answer} {calls : List Call} {rs : List Response} (h : v.Step c a w)
    (hrest : w.Runs calls rs) : Runs v (c :: calls) ((a, w.faultHere) :: rs)

variable {v w x : Outlook} {c : Call} {a b : Answer}

/-! ### A list leaves no choice -/

/-- Where skipping comes to an end is told by the list. -/
theorem passed_unique {kind : Kind} {t u : Token} {ts us : Stream' Token} (ht : ¬Passes kind t) (hu : ¬Passes kind u) :
    ∀ {ps qs : List Token}, (∀ p ∈ ps, Passes kind p) → (∀ q ∈ qs, Passes kind q) → ps ++ₛ t :: ts = qs ++ₛ u :: us →
      t = u ∧ ts = us
  | .nil, .nil, _, _, h => cons_injective2 h
  | .nil, .cons q _, _, hqs, h => absurd ((cons_injective2 h).1 ▸ hqs q List.mem_cons_self) ht
  | .cons p _, .nil, hps, _, h => absurd ((cons_injective2 h).1 ▸ hps p List.mem_cons_self) hu
  | .cons _ _, .cons _ _, hps, hqs, h =>
    passed_unique ht hu (List.forall_mem_cons.1 hps).2 (List.forall_mem_cons.1 hqs).2 (cons_injective2 h).2

theorem not_passes_of_stop {kind : Kind} {t : Token} (h : t.kind = kind ∨ t.kind = .endOfInput) : ¬Passes kind t :=
  fun ⟨hk, hend, _⟩ => h.elim hk hend

theorem not_passes_of_error {kind : Kind} {t : Token} (h : t.kind = .error) : ¬Passes kind t := fun ⟨_, _, herr⟩ => herr h

theorem Step.unique (h : v.Step c a w) (h' : v.Step c b x) : a = b ∧ w = x := by
  cases h with
  | next h ht =>
    cases h' with
    | next h' _ =>
      obtain ⟨rfl, rfl⟩ := cons_injective2 (h.symm.trans h')
      exact ⟨rfl, rfl⟩
    | nextFault h' he => exact absurd ((cons_injective2 (h.symm.trans h')).1 ▸ he) ht
  | nextFault h he =>
    cases h' with
    | next h' ht => exact absurd ((cons_injective2 (h.symm.trans h')).1 ▸ he) ht
    | nextFault h' _ =>
      obtain ⟨rfl, -⟩ := cons_injective2 (h.symm.trans h')
      exact ⟨rfl, rfl⟩
  | peek h ht =>
    cases h' with
    | peek h' _ =>
      obtain ⟨rfl, -⟩ := cons_injective2 (h.symm.trans h')
      exact ⟨rfl, rfl⟩
    | peekFault h' he => exact absurd ((cons_injective2 (h.symm.trans h')).1 ▸ he) ht
  | peekFault h he =>
    cases h' with
    | peek h' ht => exact absurd ((cons_injective2 (h.symm.trans h')).1 ▸ he) ht
    | peekFault h' _ =>
      obtain ⟨rfl, -⟩ := cons_injective2 (h.symm.trans h')
      exact ⟨rfl, rfl⟩
  | putBack t =>
    cases h' with
    | putBack => exact ⟨rfl, rfl⟩
  | skip _ h hp ht herr =>
    cases h' with
    | skip _ h' hp' ht' _ =>
      obtain ⟨rfl, rfl⟩ := passed_unique (not_passes_of_stop ht) (not_passes_of_stop ht') hp hp' (h.symm.trans h')
      exact ⟨rfl, rfl⟩
    | skipFault _ h' hp' he =>
      obtain ⟨rfl, -⟩ := passed_unique (not_passes_of_stop ht) (not_passes_of_error he) hp hp' (h.symm.trans h')
      exact absurd he herr
  | skipFault _ h hp he =>
    cases h' with
    | skip _ h' hp' ht' herr =>
      obtain ⟨rfl, -⟩ := passed_unique (not_passes_of_error he) (not_passes_of_stop ht') hp hp' (h.symm.trans h')
      exact absurd he herr
    | skipFault _ h' hp' he' =>
      obtain ⟨rfl, rfl⟩ := passed_unique (not_passes_of_error he) (not_passes_of_error he') hp hp' (h.symm.trans h')
      exact ⟨rfl, rfl⟩

theorem Runs.unique : ∀ {calls : List Call} {v : Outlook} {rs rs' : List Response},
    v.Runs calls rs → v.Runs calls rs' → rs = rs'
  | .nil, _, _, _, .nil, .nil => rfl
  | .cons _ _, _, _, _, .cons h hrest, .cons h' hrest' => by
    obtain ⟨rfl, rfl⟩ := h.unique h'
    rw [hrest.unique hrest']

/-! ### A fault stays -/

/-- A fault is at the head, and this is what reading it means. -/
def Stuck (v : Outlook) (f : ParseFault) : Prop := ∃ e ts, v.ahead = .cons e ts ∧ e.kind = .error ∧ lexicalFault e = f

theorem Step.stuck {f : ParseFault} (h : v.Step c (.error f) w) : w.Stuck f := by
  cases h with
  | nextFault h he => exact ⟨_, _, h, he, rfl⟩
  | peekFault h he => exact ⟨_, _, h, he, rfl⟩
  | skipFault _ _ _ he => exact ⟨_, _, rfl, he, rfl⟩

theorem Stuck.step {f : ParseFault} (hf : v.Stuck f) (hc : ∀ t, c ≠ .putBack t) (h : v.Step c a w) : a = .error f := by
  obtain ⟨e, ts, hv, he, rfl⟩ := hf
  cases c with
  | next => exact (h.unique (.nextFault hv he)).1
  | peek => exact (h.unique (.peekFault hv he)).1
  | putBack t => exact absurd rfl (hc t)
  | skipUntil kind => exact (h.unique (.skipFault .nil hv (by simp) he)).1

theorem Stuck.runs {f : ParseFault} : ∀ {calls : List Call} {v : Outlook} {rs : List Response}, v.Stuck f →
    (∀ t, .putBack t ∉ calls) → v.Runs calls rs → ∀ r ∈ rs, r.1 = .error f
  | .nil, _, _, _, _, .nil => by simp
  | .cons c calls, _, _, hf, hc, .cons h hrest => by
    obtain rfl := hf.step (fun t ht => hc t (ht ▸ List.mem_cons_self)) h
    exact List.forall_mem_cons.2 ⟨rfl, Stuck.runs h.stuck (fun t ht => hc t (List.mem_cons_of_mem c ht)) hrest⟩

/-! ### Skipping is taking tokens -/

theorem Step.skip_of_error {kind : Kind} {f : ParseFault} (h : v.Step .next (.error f) w) :
    v.Step (.skipUntil kind) (.error f) w := by
  cases h with
  | nextFault h he =>
    rw [h]
    exact .skipFault .nil h (by simp) he

theorem Step.skip_of_stop {kind : Kind} {t : Token} (h : v.Step .next (.ok (some t)) w)
    (ht : t.kind = kind ∨ t.kind = .endOfInput) : v.Step (.skipUntil kind) (.ok none) w := by
  cases h with
  | next h herr => exact .skip .nil h (by simp) ht herr

theorem Step.skip_of_pass {kind : Kind} {t : Token} (h : v.Step .next (.ok (some t)) w)
    (ht : ¬(t.kind = kind ∨ t.kind = .endOfInput)) (hskip : w.Step (.skipUntil kind) a x) :
    v.Step (.skipUntil kind) a x := by
  cases h with
  | @next t ts hv herr =>
    have hpass : Passes kind t := ⟨fun hk => ht (.inl hk), fun he => ht (.inr he), herr⟩
    cases hskip with
    | skip passed h hp hu herr =>
      exact .skip (.cons t passed) (hv.trans (congrArg (Stream'.cons t) h)) (List.forall_mem_cons.2 ⟨hpass, hp⟩)
        hu herr
    | skipFault passed h hp he =>
      exact .skipFault (.cons t passed) (hv.trans (congrArg (Stream'.cons t) h))
        (List.forall_mem_cons.2 ⟨hpass, hp⟩) he

/-! ### What a source makes of it -/

/-- What comes past the end of a source, which had an end of input or has closed too early. -/
def pastEnd (closes : Bool) (p : Place) : Token :=
  if closes then ⟨.endOfInput, "", p⟩ else ⟨.error, "token stream closed before end of input", p⟩

/-- The tokens of a source, and for ever what comes past its end, in some places. -/
def ofTokens (source : List Token) (places : Stream' Place) : Outlook :=
  ⟨source ++ₛ places.map (pastEnd (source.any (·.kind == .endOfInput))), .origin⟩

end Outlook

/-! ## A feed behaves like its list -/

namespace Feed

open Outlook (Passes pastEnd not_passes_of_error not_passes_of_stop)
open Stream'

/-- What a feed has before it, if the tokens past its end are to be in these places. -/
def outlook (f : Feed) (places : Stream' Place) : Outlook := ⟨f.upcoming ++ₛ places.map (pastEnd f.closes), f.last⟩

theorem outlook_ofTokens (source : List Token) (places : Stream' Place) :
    (ofTokens source).outlook places = Outlook.ofTokens source places := by
  rw [outlook, closes_ofTokens]
  rfl

theorem beyond_eq_pastEnd {f : Feed} (h : f.upcoming = []) : f.beyond = pastEnd f.closes f.last := by
  rw [beyond, pastEnd, closes_of_upcoming_nil h]

theorem outlook_putBack (f : Feed) (t : Token) (places : Stream' Place) :
    (f.putBack t).outlook places = ⟨.cons t (f.outlook places).ahead, f.last⟩ := rfl

/-! ### The places past the end -/

/-- Where a token past the end stands that a call is the first to read, if it reads one: where the token stood that was
taken last.  Skipping has taken all that was upcoming by then. -/
def placed (f : Feed) : Call → List Place
  | .next | .peek => if f.upcoming = [] then [f.last] else []
  | .putBack _ => []
  | .skipUntil kind =>
    if ∀ t ∈ f.upcoming, Passes kind t then [f.upcoming.foldl (fun _ t => t.place) f.last] else []

def placesOf : List Call → Feed → List Place
  | .nil, _ => .nil
  | .cons c calls, f => f.placed c ++ placesOf calls (f.answer c).2

theorem exists_pull_of_next {f g : Feed} {t : Token} (h : f.next = (.ok t, g)) :
    ∃ r, f.pull = (t, r) ∧ t.kind ≠ .error ∧ g = { r with last := t.place } := by
  rcases hpull : f.pull with ⟨u, r⟩
  by_cases hu : u.kind = .error
  · cases h.symm.trans (next_of_pull_error hpull hu)
  · obtain ⟨hsame, rfl⟩ := Prod.mk.inj (h.symm.trans (next_of_pull hpull hu))
    obtain rfl := Except.ok.inj hsame
    exact ⟨r, rfl, hu, rfl⟩

theorem placed_skipUntil_of_stop {f g : Feed} {t : Token} {kind : Kind} (h : f.pull = (t, g)) (ht : ¬Passes kind t) :
    f.placed (.skipUntil kind) = f.placed .next := by
  rw [placed, placed]
  cases hu : f.upcoming with
  | nil => simp
  | cons u us =>
    obtain ⟨g', hp, -⟩ := pull_of_upcoming hu
    obtain ⟨rfl, -⟩ := Prod.mk.inj (h.symm.trans hp)
    have hstop : ¬∀ u ∈ t :: us, Passes kind u := fun hall => ht (hall t List.mem_cons_self)
    rw [if_neg hstop, if_neg (List.cons_ne_nil t us)]

theorem placed_skipUntil_of_pass {f g : Feed} {t : Token} {kind : Kind} (h : f.pull = (t, g)) (ht : Passes kind t) :
    f.placed (.skipUntil kind) = f.placed .next ++ { g with last := t.place }.placed (.skipUntil kind) := by
  cases hu : f.upcoming with
  | nil =>
    -- what stands past the end is never passed
    obtain ⟨g', hp, -⟩ := pull_of_upcoming_nil hu
    obtain ⟨rfl, -⟩ := Prod.mk.inj (h.symm.trans hp)
    rw [beyond_eq_pastEnd hu, pastEnd] at ht
    split at ht
    · exact absurd rfl ht.2.1
    · exact absurd rfl ht.2.2
  | cons u us =>
    obtain ⟨g', hp, hg, -⟩ := pull_of_upcoming hu
    obtain ⟨rfl, rfl⟩ := Prod.mk.inj (h.symm.trans hp)
    have hrest : { g with last := t.place }.upcoming = us := hg
    simp only [placed, hu, hrest, List.forall_mem_cons, ht, true_and, List.foldl_cons, reduceCtorEq, if_false,
      List.nil_append]

theorem outlook_of_pull {f g : Feed} {t : Token} (h : f.pull = (t, g)) (places : Stream' Place) :
    f.outlook (f.placed .next ++ₛ places) = (g.putBack t).outlook places := by
  rw [placed]
  cases hu : f.upcoming with
  | nil =>
    obtain ⟨g, hp, hg, hc, hl⟩ := pull_of_upcoming_nil hu
    obtain ⟨rfl, rfl⟩ := Prod.mk.inj (h.symm.trans hp)
    rw [if_pos rfl, outlook_putBack, outlook, outlook, hu, hg, hc, hl, beyond_eq_pastEnd hu]
    exact congrArg (Outlook.mk · f.last) (Stream'.map_cons ..)
  | cons u us =>
    obtain ⟨g, hp, hg, hc, hl⟩ := pull_of_upcoming hu
    obtain ⟨rfl, rfl⟩ := Prod.mk.inj (h.symm.trans hp)
    rw [if_neg (List.cons_ne_nil t us), outlook_putBack, outlook, outlook, hu, hg, hc, hl]
    rfl

/-! ### One call, and many -/

theorem outlook_of_next {f g : Feed} {a : Except ParseFault Token} (hnext : f.next = (a, g)) (places : Stream' Place) :
    (f.outlook (f.placed .next ++ₛ places)).Step .next (a.map some) (g.outlook places) := by
  rcases hpull : f.pull with ⟨t, rest⟩
  rw [outlook_of_pull hpull]
  by_cases ht : t.kind = .error
  · obtain ⟨rfl, rfl⟩ := Prod.mk.inj (hnext.symm.trans (next_of_pull_error hpull ht))
    exact .nextFault rfl ht
  · obtain ⟨rfl, rfl⟩ := Prod.mk.inj (hnext.symm.trans (next_of_pull hpull ht))
    exact .next rfl ht

theorem outlook_of_peek {f g : Feed} {a : Except ParseFault Token} (hpeek : f.peek = (a, g)) (places : Stream' Place) :
    (f.outlook (f.placed .peek ++ₛ places)).Step .peek (a.map some) (g.outlook places) := by
  rcases hpull : f.pull with ⟨t, rest⟩
  have hsame : f.placed .peek = f.placed .next := rfl
  rw [hsame, outlook_of_pull hpull]
  by_cases ht : t.kind = .error
  · obtain ⟨rfl, rfl⟩ := Prod.mk.inj (hpeek.symm.trans (peek_of_pull_error hpull ht))
    exact .peekFault rfl ht
  · obtain ⟨rfl, rfl⟩ := Prod.mk.inj (hpeek.symm.trans (peek_of_pull hpull ht))
    exact .peek rfl ht

theorem outlook_skipUntil (kind : Kind) (f : Feed) (places : Stream' Place) :
    (f.outlook (f.placed (.skipUntil kind) ++ₛ places)).Step (.skipUntil kind) (f.answer (.skipUntil kind)).1
      ((f.answer (.skipUntil kind)).2.outlook places) := by
  induction f using skipUntil.induct kind with
  | case1 f e g hnext =>
    rcases hpull : f.pull with ⟨t, r⟩
    have ht : t.kind = .error := by
      by_contra ht
      cases hnext.symm.trans (next_of_pull hpull ht)
    simp only [answer, skipUntil_eq kind f, hnext, placed_skipUntil_of_stop hpull (not_passes_of_error ht)]
    exact (outlook_of_next hnext places).skip_of_error
  | case2 f t g hnext ht =>
    obtain ⟨r, hpull, -⟩ := exists_pull_of_next hnext
    simp only [answer, skipUntil_eq kind f, hnext, if_pos ht, placed_skipUntil_of_stop hpull (not_passes_of_stop ht)]
    exact (outlook_of_next hnext places).skip_of_stop ht
  | case3 f t g hnext ht ih =>
    obtain ⟨r, hpull, herr, rfl⟩ := exists_pull_of_next hnext
    have hpass : Passes kind t := ⟨fun hk => ht (.inl hk), fun he => ht (.inr he), herr⟩
    simp only [answer, skipUntil_eq kind f, hnext, if_neg ht]
    rw [placed_skipUntil_of_pass hpull hpass, append_append_stream]
    exact (outlook_of_next hnext _).skip_of_pass ht ih

/-- One call does to a feed what it does to its list. -/
theorem outlook_step (f : Feed) (c : Call) (places : Stream' Place) :
    (f.outlook (f.placed c ++ₛ places)).Step c (f.answer c).1 ((f.answer c).2.outlook places) := by
  cases c with
  | next => exact outlook_of_next rfl places
  | peek => exact outlook_of_peek rfl places
  | putBack t => exact .putBack t
  | skipUntil kind => exact outlook_skipUntil kind f places

theorem outlook_runs (places : Stream' Place) : ∀ (calls : List Call) (f : Feed),
    (f.outlook (f.placesOf calls ++ₛ places)).Runs calls (f.replay calls)
  | .nil, _ => .nil
  | .cons c calls, f => by
    rw [placesOf, append_append_stream]
    exact .cons (f.outlook_step c _) (outlook_runs places calls (f.answer c).2)

/-- **A feed is an endless list.**  Whatever is asked of it, one call after the other, the list of its source gives the
same answers and the same places for a reader's own faults, and it could give no others.  In that list a token past the
end stands where the token that was taken last stood when it was read first; where those stand that are never read makes
no difference.  **And a fault stays**: once a call has answered with one, so does every later call, until a token is put
back. -/
theorem replay_iff_runs (source : List Token) (calls : List Call) :
    (∀ (unread : Stream' Place) (rs : List Response),
      (Outlook.ofTokens source ((ofTokens source).placesOf calls ++ₛ unread)).Runs calls rs ↔
        rs = (ofTokens source).replay calls) ∧
      ∀ (f : Feed) (c : Call) (e : ParseFault) (later : List Call), (f.answer c).1 = .error e →
        (∀ t, .putBack t ∉ later) → ∀ r ∈ (f.answer c).2.replay later, r.1 = .error e := by
  constructor
  · intro unread rs
    have h := outlook_runs unread calls (ofTokens source)
    rw [outlook_ofTokens] at h
    exact ⟨fun hrs => hrs.unique h, fun hrs => hrs ▸ h⟩
  · intro f c e later he hlater
    have h := f.outlook_step c ((f.answer c).2.placesOf later ++ₛ .const .origin)
    rw [he] at h
    exact h.stuck.runs hlater (outlook_runs _ later (f.answer c).2)

def brokenOff : List Token := [⟨.text, "a", .origin⟩]

theorem replay_brokenOff :
    ((ofTokens brokenOff).next.2.answer .next).1 =
        .error ⟨.origin, .lexical "token stream closed before end of input"⟩ ∧
      ∀ r ∈ ((ofTokens brokenOff).next.2.answer .next).2.replay [.peek, .skipUntil .tagEnd, .next],
        r.1 = .error ⟨.origin, .lexical "token stream closed before end of input"⟩ :=
  ⟨rfl, (replay_iff_runs brokenOff []).2 _ .next _ _ rfl (by simp)⟩

end Feed
end Stencil
