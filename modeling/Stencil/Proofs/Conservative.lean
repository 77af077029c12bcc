import Stencil.Proofs.Lockstep
import Stencil.Proofs.Texts
/-!
# Catalogs only add

What can be read without tags of one's own is read in the same way with any catalog, whatever the names in it: a name is
looked up only where no word with a meaning of its own and no closing tag is left to stand.  There a reading without a
catalog fails, because it does not know the tag; up to there, and if it never comes there, the two are the same, and no
program is run (`Reading.Conservative`).

So the two part at the first tag that is handed to a program, if there is one, and whatever the programs do from there on,
that tag stays the first in the journal: nothing is ever taken out of it (`Reading.Grows`).
-/
namespace Stencil

def Progress.Idle (p : Progress) : Prop := ∀ entry ∈ p.journal, ∀ name, entry.event ≠ .dispatched name

namespace Reading

variable {α β γ : Type} {tags : Catalog}

/-! ## Journals grow -/

/-- The reading only adds to the journal: it keeps whatever the journal ends with. -/
def Grows (x : Reading α) : Prop := ∀ journal, x.Steady (journal <:+ ·.journal)

theorem Grows.suffix {x : Reading α} (hx : x.Grows) (p : Progress) : p.journal <:+ (x.run p).progress.journal :=
  hx p.journal p List.suffix_rfl

theorem grows_of_suffix {x : Reading α} (h : ∀ p, p.journal <:+ (x.run p).progress.journal) : x.Grows :=
  fun _ p hp => hp.trans (h p)

theorem Grows.bind {x : Reading α} {f : α → Reading β} (hx : x.Grows) (hf : ∀ a, (f a).Grows) : (x >>= f).Grows :=
  fun journal => (hx journal).bind fun a => hf a journal

theorem journal_ofFeed (f : Feed → Except ParseFault α × Feed) (p : Progress) :
    ((ofFeed f).run p).progress.journal = p.journal := by
  rw [run_ofFeed]
  rcases f p.feed with ⟨_ | _, _⟩ <;> rfl

theorem grows_of_silent {x : Reading α} (h : ∀ p, (x.run p).progress.journal = p.journal) : x.Grows :=
  grows_of_suffix fun p => (h p).symm ▸ List.suffix_rfl

theorem puttingBack_grows : Congruence.PuttingBack fun x _ => Grows x where
  pure _ _ _ h := h
  bind := Grows.bind
  fail _ _ _ h := h
  next := grows_of_silent (journal_ofFeed _)
  peek := grows_of_silent (journal_ofFeed _)
  skipUntil _ := grows_of_silent (journal_ofFeed _)
  condition := grows_of_silent (journal_ofFeed _)
  nested _ := grows_of_suffix fun _ => List.suffix_cons _ _
  attempt hx journal := (hx journal).attempt
  here _ _ h := h
  note _ := grows_of_suffix fun _ => List.suffix_cons _ _
  putBack _ _ _ h := h

/-! ## Where readings part -/

/-- Two readings that started at `p` part at a tag: the second fails there, because it does not know the tag, and the first
hands it to a program, which it did with no tag before. -/
def Parts (tags : Catalog) (p : Progress) (o : Outcome α) (o' : Outcome β) : Prop :=
  ∃ (name : Token) (q : Progress), o' = .failed (name.fault (.unknownTag name.text)) q ∧ tags.contains name.text = true ∧
    (p.Idle → q.Idle) ∧ ⟨q.feed.asked, .dispatched name⟩ :: q.journal <:+ o.progress.journal

/-- Unless the two part the first does the same as the second, and hands no tag to a program. -/
structure Conservative (tags : Catalog) (x y : Reading α) : Prop where
  grows : x.Grows
  follows : ∀ p : Progress, Parts tags p (x.run p) (y.run p) ∨ x.run p = y.run p ∧ (p.Idle → (x.run p).progress.Idle)

theorem Parts.mono {p : Progress} {o : Outcome α} {o' : Outcome β} {r : Outcome γ} (h : Parts tags p o o')
    (hr : o.progress.journal <:+ r.progress.journal) : Parts tags p r o' := by
  obtain ⟨name, q, ho, hname, hidle, hjournal⟩ := h
  exact ⟨name, q, ho, hname, hidle, hjournal.trans hr⟩

theorem Parts.of_later {p q : Progress} {o : Outcome α} {o' : Outcome β} (h : Parts tags q o o') (hp : p.Idle → q.Idle) :
    Parts tags p o o' := by
  obtain ⟨name, r, ho, hname, hidle, hjournal⟩ := h
  exact ⟨name, r, ho, hname, hidle ∘ hp, hjournal⟩

theorem Parts.bind {x y : Reading α} {f g : α → Reading β} {p : Progress} (h : Parts tags p (x.run p) (y.run p))
    (hf : ∀ a, (f a).Grows) : Parts tags p ((x >>= f).run p) ((y >>= g).run p) := by
  obtain ⟨name, q, hq, hname, hidle, hjournal⟩ := h
  refine ⟨name, q, ?_, hname, hidle, hjournal.trans ?_⟩
  · rw [run_bind, hq]
  · rw [run_bind]
    cases hr : x.run p with
    | done a r => exact (hf a).suffix r
    | failed e r | exhausted r => exact List.suffix_rfl

theorem Conservative.bind {x y : Reading α} {f g : α → Reading β} (h : Conservative tags x y)
    (hf : ∀ a, Conservative tags (f a) (g a)) : Conservative tags (x >>= f) (y >>= g) := by
  refine ⟨h.grows.bind fun a => (hf a).grows, fun p => ?_⟩
  rcases h.follows p with hparts | ⟨hsame, hidle⟩
  · exact .inl (hparts.bind fun a => (hf a).grows)
  · rw [run_bind, run_bind]
    rw [hsame] at hidle ⊢
    cases hr : y.run p with
    | done a q =>
      rw [hr] at hidle
      exact ((hf a).follows q).imp (·.of_later hidle) fun ⟨hsame', hidle'⟩ => ⟨hsame', fun hp => hidle' (hidle hp)⟩
    | failed e q | exhausted q =>
      rw [hr] at hidle
      exact .inr ⟨rfl, hidle⟩

theorem conservative_of_silent {x : Reading α} (h : ∀ p, (x.run p).progress.journal = p.journal) :
    Conservative tags x x := by
  refine ⟨grows_of_silent h, fun p => .inr ⟨rfl, fun hp => ?_⟩⟩
  unfold Progress.Idle
  rw [h]
  exact hp

theorem conservative_nested (keyword : Token) : Conservative tags (note (.nested keyword)) (note (.nested keyword)) := by
  refine ⟨puttingBack_grows.note _, fun p => .inr ⟨rfl, fun hp entry hentry name => ?_⟩⟩
  rcases List.mem_cons.1 hentry with rfl | hentry
  · exact fun h => by cases h
  · exact hp entry hentry name

theorem congruence_conservative (tags : Catalog) : Congruence (Conservative tags) where
  pure _ := conservative_of_silent fun _ => rfl
  bind := Conservative.bind
  fail _ := conservative_of_silent fun _ => rfl
  next := conservative_of_silent (journal_ofFeed _)
  peek := conservative_of_silent (journal_ofFeed _)
  skipUntil _ := conservative_of_silent (journal_ofFeed _)
  condition := conservative_of_silent (journal_ofFeed _)
  nested := conservative_nested

theorem conservative_dispatch (name : Token) {tag tag' : Reading Node} {body body' : String → Reading (List Node)}
    (htag : tag.Grows) (hbody : ∀ close, (body close).Grows) :
    Conservative tags (dispatch tags name tag body) (dispatch .empty name tag' body') := by
  refine ⟨@Congruence.Answering.dispatch _ tags puttingBack_grows.toAnswering (fun _ program _ => puttingBack_grows.runs program)
    name tag tag body body htag hbody, fun p => ?_⟩
  have hempty : dispatch .empty name tag' body' = fail (name.fault (.unknownTag name.text)) := rfl
  rw [hempty, dispatch]
  cases hfind : tags.find? name.text with
  | some program =>
    have hcontains : tags.contains name.text = true := by rw [Catalog.contains, hfind]; rfl
    have hgrows := @Congruence.PuttingBack.runs _ puttingBack_grows program tag tag body body htag hbody
    exact .inl ⟨name, p, rfl, hcontains, id, hgrows.suffix { p with journal := ⟨p.feed.asked, .dispatched name⟩ :: p.journal }⟩
  | none => exact .inr ⟨rfl, id⟩

theorem conservative_tag (n : Nat) : Conservative tags (tag tags n) (tag .empty n) := by
  have h : Lockstep (fun _ => Conservative tags) (fun _ _ => Conservative tags) tags .empty 0 := by
    refine (congruence_conservative tags).lockstep (fun hy => ?_) fun name _ _ _ _ htag hbody =>
      conservative_dispatch name htag.grows fun close => (hbody close).grows
    rw [hy rfl]
    exact conservative_of_silent fun _ => rfl
  exact h.tag n

/-! ## Templates -/

theorem conservative_turn (n : Nat) : Conservative tags (turn tags n) (turn .empty n) :=
  (congruence_conservative tags).turn (conservative_tag n)

theorem template_grows (n : Nat) (p : Progress) : p.journal <:+ (template tags n p).2.progress.journal :=
  steady_template (fun n => (conservative_turn n).grows p.journal) n p List.suffix_rfl

theorem template_conservative : ∀ (n : Nat) (p : Progress),
    Parts tags p (template tags n p).2 (template .empty n p).2 ∨
      template tags n p = template .empty n p ∧ (p.Idle → (template tags n p).2.progress.Idle)
  | 0, p => .inr ⟨rfl, fun hp => hp⟩
  | n + 1, p => by
    rw [template_succ, template_succ]
    rcases (conservative_turn n).follows p with hparts | ⟨hsame, hidle⟩
    · left
      obtain ⟨name, q, hmiss, hrest⟩ := hparts
      rw [hmiss]
      refine Parts.mono (o := (turn tags n).run p) ⟨name, q, rfl, hrest⟩ ?_
      cases (turn tags n).run p with
      | failed e r | exhausted r => exact List.suffix_rfl
      | done node r =>
        cases node with
        | none => exact List.suffix_rfl
        | some node => exact template_grows n r
    · rw [hsame] at hidle ⊢
      cases hr : (turn .empty n).run p with
      | failed e q | exhausted q =>
        rw [hr] at hidle
        exact .inr ⟨rfl, hidle⟩
      | done node q =>
        rw [hr] at hidle
        cases node with
        | none => exact .inr ⟨rfl, hidle⟩
        | some node =>
          rcases template_conservative n q with hparts | ⟨hsame', hq⟩
          · exact .inl (hparts.of_later hidle)
          · simp only
            rw [hsame'] at hq ⊢
            exact .inr ⟨rfl, fun hp => hq (hidle hp)⟩

end Reading

/-! ## Transcripts and drafts -/

theorem filterMap_dispatched?_eq_nil_iff {entries : List Entry} : entries.filterMap (·.event.dispatched?) = [] ↔
    ∀ entry ∈ entries, ∀ name, entry.event ≠ .dispatched name := by
  rw [List.filterMap_eq_nil_iff]
  refine forall₂_congr fun entry _ => ?_
  rcases entry with ⟨_, _ | _ | _⟩ <;> simp [Event.dispatched?]

theorem Transcript.journal_ofTokens (tags : Catalog) (ts : List Token) : (ofTokens tags ts).journal =
    (Reading.template tags (rounds ts.length) ⟨.ofTokens ts, []⟩).2.progress.journal.reverse := by
  rw [ofTokens]
  rcases Reading.template tags (rounds ts.length) ⟨.ofTokens ts, []⟩ with ⟨nodes, _ | _ | _⟩ <;> rfl

open Reading in
theorem transcript_parts (tags : Catalog) (ts : List Token) :
    (∃ name rest, (Transcript.ofTokens tags ts).dispatches = name :: rest ∧ tags.contains name.text = true ∧
      (Transcript.ofTokens .empty ts).fault = some (name.fault (.unknownTag name.text))) ∨
    (Transcript.ofTokens tags ts).dispatches = [] ∧ Transcript.ofTokens tags ts = Transcript.ofTokens .empty ts := by
  have hnone : (⟨.ofTokens ts, []⟩ : Progress).Idle := fun _ h => by cases h
  rcases @template_conservative tags (Transcript.rounds ts.length) ⟨.ofTokens ts, []⟩ with
    ⟨name, q, hmiss, hname, hidle, later, hjournal⟩ | ⟨hsame, hidle⟩
  · have hbefore : q.journal.reverse.filterMap (·.event.dispatched?) = [] :=
      filterMap_dispatched?_eq_nil_iff.2 fun entry hentry => hidle hnone entry (List.mem_reverse.1 hentry)
    refine .inl ⟨name, later.reverse.filterMap (·.event.dispatched?), ?_, hname, ?_⟩
    · rw [Transcript.dispatches, Transcript.journal_ofTokens, ← hjournal, List.reverse_append, List.reverse_cons,
        List.append_assoc, List.filterMap_append, hbefore]
      rfl
    · rw [Transcript.ofTokens, ← Prod.eta (template _ _ _), hmiss]
      rfl
  · refine .inr ⟨filterMap_dispatched?_eq_nil_iff.2 fun entry hentry => ?_, congrArg Transcript.ofEnding hsame⟩
    rw [Transcript.journal_ofTokens] at hentry
    exact hidle hnone entry (List.mem_reverse.1 hentry)

theorem transcript_conservative {tags : Catalog} (ts : List Token)
    (h : ∀ place name, (Transcript.ofTokens .empty ts).fault = some ⟨place, .unknownTag name⟩ → tags.contains name = false) :
    Transcript.ofTokens tags ts = Transcript.ofTokens .empty ts ∧
      ∀ entry ∈ (Transcript.ofTokens tags ts).journal, ∀ name, entry.event ≠ .dispatched name := by
  rcases transcript_parts tags ts with ⟨name, rest, -, hname, hfault⟩ | ⟨hnone, hsame⟩
  · cases hname.symm.trans (h _ _ hfault)
  · exact ⟨hsame, filterMap_dispatched?_eq_nil_iff.1 hnone⟩

/-- **A catalog only adds.**  Unless a source fails without tags of one's own, at a tag that the catalog of the draft
knows, the draft reads it as it would without a catalog, with the same report, root and standing, and hands no tag to a
program. -/
theorem Draft.parse_conservative (d : Draft) (source : String)
    (h : ∀ place name, ({ d with tags := .empty }.parse source).2.transcript.fault = some ⟨place, .unknownTag name⟩ →
      d.tags.contains name = false) :
    (d.parse source).2 = ({ d with tags := .empty }.parse source).2 ∧
      (d.parse source).1.root = ({ d with tags := .empty }.parse source).1.root ∧
      (d.parse source).1.parsed = ({ d with tags := .empty }.parse source).1.parsed ∧
      ∀ entry ∈ (d.parse source).2.transcript.journal, ∀ name, entry.event ≠ .dispatched name := by
  obtain ⟨hsame, hidle⟩ := transcript_conservative (scan source) fun place name hfault => h place name (by
    rw [Draft.transcript_parse rfl]
    exact hfault)
  rw [← Supply.tokens_ofScan d.name] at hsame hidle
  refine ⟨?_, ?_, ?_, hidle⟩
  · simp only [parse, parseSupply, hsame]
  · simp only [parse, root_parseSupply, hsame]
  · simp only [parse, parsed_parseSupply, hsame]

def captious : Catalog := (Catalog.empty.register "endblock" (.enclosing "x")).register "block" (.enclosing "block")

theorem Draft.parse_captious :
    ((fresh "t" captious).parse titled).1.root = [.block 3 "a" [] [.text 13 "x"], .text 30 "y"] ∧
      ∀ entry ∈ ((fresh "t" captious).parse titled).2.transcript.journal, ∀ name, entry.event ≠ .dispatched name := by
  obtain ⟨hfault, hroot⟩ := accepts_titled
  obtain ⟨-, hsame, -, hidle⟩ := parse_conservative (fresh "t" captious) titled fun place name hunknown => by
    cases hfault.symm.trans hunknown
  exact ⟨hsame.trans hroot, hidle⟩

end Stencil
