import Mathlib.Data.List.Forall2
import Stencil.Proofs.Judgement
import Stencil.Proofs.Unplaced
import Stencil.Transcript
/-!
# Tokens in other places

Reading never looks at where a token stands.  If two sources have the same tokens in places that a relation `R` connects,
the two readings go the same way: they come to nodes that differ in nothing but their places, or to faults with one cause
in places that `R` connects.  This is about the grammar alone, without tags of one's own, since a program may look at a
place.
-/
namespace Stencil

variable {R : Place → Place → Prop} {α β γ δ : Type}

/-- Two tokens that differ in their places only, which `R` connects. -/
structure Token.Alike (R : Place → Place → Prop) (t u : Token) : Prop where
  kind : u.kind = t.kind
  text : u.text = t.text
  place : R t.place u.place

/-- What a token is, wherever it stands. -/
def Token.content (t : Token) : Kind × String := (t.kind, t.text)

/-- Two feeds with the same tokens before them, in places that `R` connects. -/
structure Feed.Alike (R : Place → Place → Prop) (f g : Feed) : Prop where
  front : List.Forall₂ (Token.Alike R) f.front g.front
  source : List.Forall₂ (Token.Alike R) f.source g.source
  last : R f.last g.last
  ended : g.ended = f.ended

structure ParseFault.Alike (R : Place → Place → Prop) (e e' : ParseFault) : Prop where
  place : R e.place e'.place
  cause : e'.cause = e.cause

inductive AnswersAlike (R : Place → Place → Prop) (A : α → β → Prop) : Except ParseFault α → Except ParseFault β → Prop
  | ok {a : α} {b : β} (h : A a b) : AnswersAlike R A (.ok a) (.ok b)
  | error {e e' : ParseFault} (h : e.Alike R e') : AnswersAlike R A (.error e) (.error e')

/-- Two outcomes: values that `A` connects, faults that are alike, or neither, and feeds that are alike. -/
inductive Outcome.Alike (R : Place → Place → Prop) (A : α → β → Prop) : Outcome α → Outcome β → Prop
  | done {a : α} {b : β} {p q : Progress} (h : A a b) (hfeed : p.feed.Alike R q.feed) : Alike R A (.done a p) (.done b q)
  | failed {e e' : ParseFault} {p q : Progress} (h : e.Alike R e') (hfeed : p.feed.Alike R q.feed) :
    Alike R A (.failed e p) (.failed e' q)
  | exhausted {p q : Progress} (hfeed : p.feed.Alike R q.feed) : Alike R A (.exhausted p) (.exhausted q)

theorem alike_of_content : ∀ {ts us : List Token}, ts.map Token.content = us.map Token.content →
    List.Forall₂ (Token.Alike fun _ _ => True) ts us
  | [], [], _ => .nil
  | [], _ :: _, h | _ :: _, [], h => by cases h
  | t :: ts, u :: us, h => by
    rw [List.map_cons, List.map_cons, List.cons.injEq] at h
    obtain ⟨hcontent, hrest⟩ := h
    obtain ⟨hkind, htext⟩ := Prod.mk.inj hcontent
    exact .cons ⟨hkind.symm, htext.symm, trivial⟩ (alike_of_content hrest)

theorem Token.Alike.fault {t u : Token} (h : t.Alike R u) {c : ParseCause} : (t.fault c).Alike R (u.fault c) := ⟨h.place, rfl⟩

theorem Token.Alike.unexpected {t u : Token} (h : t.Alike R u) (expected : String) :
    (t.unexpected expected).Alike R (u.unexpected expected) := by
  refine ⟨h.place, ?_⟩
  simp only [Token.unexpected, Token.fault, ParseCause.unexpectedToken, h.kind, h.text]

theorem Token.Alike.endedBefore {t u : Token} (h : t.Alike R u) (expected : String) :
    (t.endedBefore expected).Alike R (u.endedBefore expected) := ⟨h.place, rfl⟩

theorem Token.Alike.isWord {t u : Token} (h : t.Alike R u) (word : String) : u.isWord word = t.isWord word := by
  rw [Token.isWord, Token.isWord, h.kind, h.text]

/-! ## Feeds -/

namespace Feed

theorem alike_ofTokens {ts us : List Token} (h : List.Forall₂ (Token.Alike R) ts us) (h0 : R .origin .origin) :
    (ofTokens ts).Alike R (ofTokens us) := ⟨.nil, h, h0, rfl⟩

namespace Alike

variable {f g : Feed}

theorem pull (h : f.Alike R g) : f.pull.1.Alike R g.pull.1 ∧ f.pull.2.Alike R g.pull.2 := by
  obtain ⟨front, source, last, ended, asked⟩ := f
  obtain ⟨front', source', last', ended', asked'⟩ := g
  obtain ⟨hfront, hsource, hlast, hended⟩ := h
  obtain rfl : ended' = ended := hended
  cases hfront with
  | cons ht hfront => exact ⟨ht, hfront, hsource, hlast, rfl⟩
  | nil =>
    cases hsource with
    | cons ht hsource => exact ⟨ht, .nil, hsource, hlast, by simp only [Feed.pull, ht.kind]⟩
    | nil =>
      refine ⟨?_, .nil, .nil, hlast, rfl⟩
      simp only [Feed.pull, beyond]
      split
      · exact ⟨rfl, rfl, hlast⟩
      · exact ⟨rfl, rfl, hlast⟩

theorem putBack (h : f.Alike R g) {t u : Token} (ht : t.Alike R u) : (f.putBack t).Alike R (g.putBack u) :=
  ⟨.cons ht h.front, h.source, h.last, h.ended⟩

theorem next (h : f.Alike R g) :
    AnswersAlike R (Token.Alike R) f.next.1 g.next.1 ∧ f.next.2.Alike R g.next.2 := by
  obtain ⟨ht, hrest⟩ := h.pull
  have hmoved : Feed.Alike R { f.pull.2 with last := f.pull.1.place } { g.pull.2 with last := g.pull.1.place } :=
    ⟨hrest.front, hrest.source, ht.place, hrest.ended⟩
  by_cases hk : f.pull.1.kind = .error
  · have hk' : g.pull.1.kind = .error := ht.kind.trans hk
    simp only [Feed.next, if_pos hk, if_pos hk']
    refine ⟨.error ?_, hmoved.putBack ht⟩
    rw [lexicalFault, lexicalFault, ht.text]
    exact ht.fault
  · have hk' : g.pull.1.kind ≠ .error := fun h' => hk (ht.kind.symm.trans h')
    simp only [Feed.next, if_neg hk, if_neg hk']
    exact ⟨.ok ht, hmoved⟩

theorem peek (h : f.Alike R g) :
    AnswersAlike R (Token.Alike R) f.peek.1 g.peek.1 ∧ f.peek.2.Alike R g.peek.2 := by
  obtain ⟨ht, hrest⟩ := h.pull
  refine ⟨?_, hrest.putBack ht⟩
  by_cases hk : f.pull.1.kind = .error
  · have hk' : g.pull.1.kind = .error := ht.kind.trans hk
    simp only [Feed.peek, if_pos hk, if_pos hk']
    refine .error ?_
    rw [lexicalFault, lexicalFault, ht.text]
    exact ht.fault
  · have hk' : g.pull.1.kind ≠ .error := fun h' => hk (ht.kind.symm.trans h')
    simp only [Feed.peek, if_neg hk, if_neg hk']
    exact .ok ht

end Alike

theorem Alike.skipUntil (kind : Kind) {f g : Feed} (h : f.Alike R g) :
    AnswersAlike R (fun _ _ => True) (f.skipUntil kind).1 (g.skipUntil kind).1 ∧
      (f.skipUntil kind).2.Alike R (g.skipUntil kind).2 := by
  obtain ⟨ha, hrest⟩ := h.next
  rw [skipUntil_eq kind f, skipUntil_eq kind g]
  rcases hf : f.next with ⟨r, f'⟩
  rcases hg : g.next with ⟨s, g'⟩
  rw [hf, hg] at ha hrest
  cases ha with
  | error he => exact ⟨.error he, hrest⟩
  | @ok t u ht =>
    by_cases hk : t.kind = kind ∨ t.kind = .endOfInput
    · have hk' : u.kind = kind ∨ u.kind = .endOfInput := by rwa [ht.kind]
      simp only [if_pos hk, if_pos hk']
      exact ⟨.ok trivial, hrest⟩
    · have hk' : ¬(u.kind = kind ∨ u.kind = .endOfInput) := by rwa [ht.kind]
      have := unread_lt_of_next hf (fun hend => hk (.inr hend))
      simp only [if_neg hk, if_neg hk']
      exact Alike.skipUntil kind hrest
termination_by f.unread

theorem operand_alike {t u : Token} (h : t.Alike R u) :
    AnswersAlike R (fun n m => n.unplaced = m.unplaced) t.operand u.operand := by
  unfold Token.operand
  rw [h.kind, h.text]
  split
  · exact .ok rfl
  · split
    · exact .ok rfl
    · exact .error h.fault
  · split
    · exact .ok rfl
    · exact .error (h.unexpected _)
  · exact .ok rfl
  · exact .error (h.endedBefore _)
  · exact .error (h.unexpected _)

theorem Alike.condition {f g : Feed} (h : f.Alike R g) :
    AnswersAlike R (fun ns ms => unplacedAll ns = unplacedAll ms) f.condition.1 g.condition.1 ∧
      f.condition.2.Alike R g.condition.2 := by
  obtain ⟨ha, hrest⟩ := h.next
  rw [condition_eq f, condition_eq g]
  rcases hf : f.next with ⟨r, f'⟩
  rcases hg : g.next with ⟨s, g'⟩
  rw [hf, hg] at ha hrest
  cases ha with
  | error he => exact ⟨.error he, hrest⟩
  | @ok t u ht =>
    by_cases hk : t.kind = .tagEnd
    · have hk' : u.kind = .tagEnd := by rwa [ht.kind]
      simp only [if_pos hk, if_pos hk']
      exact ⟨.ok rfl, hrest⟩
    · have hk' : u.kind ≠ .tagEnd := by rwa [ht.kind]
      simp only [if_neg hk, if_neg hk']
      have ho := operand_alike ht
      rcases hto : t.operand with e | n <;> rcases huo : u.operand with e' | m <;> rw [hto, huo] at ho <;> cases ho
      · rename_i he
        exact ⟨.error he, hrest⟩
      · rename_i hnode
        have := unread_lt_of_next hf (Token.kind_ne_of_operand hto)
        obtain ⟨hc, hrest'⟩ := Alike.condition hrest
        rcases hf' : f'.condition with ⟨e | ns, f''⟩ <;> rcases hg' : g'.condition with ⟨e' | ms, g''⟩ <;>
          rw [hf', hg'] at hc hrest' <;> cases hc
        · rename_i he
          exact ⟨.error he, hrest'⟩
        · rename_i hnodes
          refine ⟨.ok ?_, hrest'⟩
          rw [unplacedAll, unplacedAll, hnode, hnodes]
termination_by f.unread

end Feed
/-! ## Readings -/

namespace Reading

/-- From feeds that are alike the two readings come to outcomes that are alike. -/
def Tracks (R : Place → Place → Prop) (A : α → β → Prop) (x : Reading α) (y : Reading β) : Prop :=
  ∀ p q : Progress, p.feed.Alike R q.feed → (x.run p).Alike R A (y.run q)

variable {A : α → β → Prop} {B : γ → δ → Prop}

theorem tracks_pure {a : α} {b : β} (h : A a b) : Tracks R A (pure a) (pure b) := fun _ _ hp => .done h hp

theorem tracks_fail {e e' : ParseFault} (h : e.Alike R e') : Tracks R A (fail e) (fail e') := fun _ _ hp => .failed h hp

theorem tracks_exhausted : Tracks R A exhausted exhausted := fun _ _ hp => .exhausted hp

theorem tracks_note (e e' : Event) : Tracks R (fun _ _ => True) (note e) (note e') := fun _ _ hp => .done trivial hp

theorem tracks_ofFeed {f : Feed → Except ParseFault α × Feed} {g : Feed → Except ParseFault β × Feed}
    (h : ∀ {feed feed' : Feed}, feed.Alike R feed' →
      AnswersAlike R A (f feed).1 (g feed').1 ∧ (f feed).2.Alike R (g feed').2) : Tracks R A (ofFeed f) (ofFeed g) := by
  intro p q hp
  obtain ⟨ha, hrest⟩ := h hp
  rw [run_ofFeed, run_ofFeed]
  rcases hf : f p.feed with ⟨r, feed⟩
  rcases hg : g q.feed with ⟨s, feed'⟩
  rw [hf, hg] at ha hrest
  cases ha with
  | ok ha => exact .done ha hrest
  | error he => exact .failed he hrest

theorem Tracks.bind {x : Reading α} {y : Reading β} {f : α → Reading γ} {g : β → Reading δ} (hx : Tracks R A x y)
    (hf : ∀ a b, A a b → Tracks R B (f a) (g b)) : Tracks R B (x >>= f) (y >>= g) := by
  intro p q hp
  have h := hx p q hp
  rw [run_bind, run_bind]
  cases hrx : x.run p <;> cases hry : y.run q <;> rw [hrx, hry] at h <;> cases h
  · rename_i ha hfeed
    exact hf _ _ ha _ _ hfeed
  · rename_i he hfeed
    exact .failed he hfeed
  · rename_i hfeed
    exact .exhausted hfeed

theorem tracks_next : Tracks R (Token.Alike R) next next := tracks_ofFeed Feed.Alike.next

theorem tracks_peek : Tracks R (Token.Alike R) peek peek := tracks_ofFeed Feed.Alike.peek

theorem tracks_skipUntil (kind : Kind) : Tracks R (fun _ _ => True) (skipUntil kind) (skipUntil kind) :=
  tracks_ofFeed (Feed.Alike.skipUntil kind)

theorem tracks_expect (kind : Kind) (expected : String) :
    Tracks R (Token.Alike R) (expect kind expected) (expect kind expected) := by
  refine tracks_next.bind fun t u ht => ?_
  rw [ht.kind]
  split
  · exact tracks_pure ht
  · exact tracks_fail (ht.unexpected expected)

/-- Two lists of nodes that differ in their places only. -/
def SameNodes (as bs : List Node) : Prop := unplacedAll as = unplacedAll bs

def SameNode (a b : Node) : Prop := a.unplaced = b.unplaced

def SameBranches (a b : List Node × Option Node) : Prop :=
  SameNodes a.1 b.1 ∧ a.2.map Node.unplaced = b.2.map Node.unplaced

theorem sameNodes_cons {a b : Node} {as bs : List Node} (h : SameNode a b) (hs : SameNodes as bs) :
    SameNodes (a :: as) (b :: bs) := by
  rw [SameNodes, unplacedAll, unplacedAll, h, hs]

theorem sameNode_block {as bs : List Node} (start start' : Nat) (name : String) (h : SameNodes as bs) :
    SameNode (.block start name [] as) (.block start' name [] bs) := by
  rw [SameNode, Node.unplaced, Node.unplaced, h]

theorem sameNode_conditional {cs ds as bs : List Node} {o o' : Option Node} (start start' : Nat) (hc : SameNodes cs ds)
    (h : SameBranches (as, o) (bs, o')) : SameNode (.conditional start cs as o) (.conditional start' ds bs o') := by
  obtain ⟨hbody, ho⟩ := h
  cases o <;> cases o' <;> simp_all [SameNode, Node.unplaced, SameNodes]

theorem sameBranches_cons {a b : Node} {r r' : List Node × Option Node} (h : SameNode a b) (hs : SameBranches r r') :
    SameBranches (a :: r.1, r.2) (b :: r'.1, r'.2) := ⟨sameNodes_cons h hs.1, hs.2⟩

theorem sameBranches_group {as bs : List Node} (start start' : Nat) (h : SameNodes as bs) :
    SameBranches ([], some (.group start as)) ([], some (.group start' bs)) :=
  ⟨rfl, congrArg some (sameNode_block start start' "" h)⟩

theorem textNode_same {t u : Token} (h : t.Alike R u) : SameNode t.textNode u.textNode := by
  rw [SameNode, Token.textNode, Token.textNode, h.text, Node.unplaced, Node.unplaced]

mutual

theorem tracks_tag : ∀ n : Nat, Tracks R SameNode (tag .empty n) (tag .empty n)
  | 0 => tracks_exhausted
  | n + 1 => by
    rw [tag]
    refine tracks_next.bind fun name name' hname => ?_
    rw [hname.kind]
    split
    · refine (tracks_expect _ _).bind fun title title' htitle => ?_
      refine (tracks_expect _ _).bind fun _ _ _ => ?_
      refine (tracks_body n _).bind fun nodes nodes' hnodes => ?_
      rw [htitle.text]
      exact tracks_pure (sameNode_block _ _ _ hnodes)
    · exact tracks_conditional n hname
    · rw [hname.text]
      exact tracks_fail hname.fault
    · exact tracks_fail (hname.endedBefore _)
    · rw [hname.text]
      exact tracks_fail hname.fault

theorem tracks_body : ∀ (n : Nat) (close : String), Tracks R SameNodes (body .empty n close) (body .empty n close)
  | 0, _ => tracks_exhausted
  | n + 1, close => by
    rw [body]
    refine tracks_next.bind fun t t' ht => ?_
    rw [ht.kind]
    split
    · refine (tracks_body n close).bind fun nodes nodes' hnodes => ?_
      exact tracks_pure (sameNodes_cons (textNode_same ht) hnodes)
    · refine tracks_peek.bind fun word word' hword => ?_
      rw [hword.isWord]
      split
      · exact (tracks_skipUntil _).bind fun _ _ _ => tracks_pure rfl
      · refine (tracks_tag n).bind fun node node' hnode => ?_
        refine (tracks_body n close).bind fun nodes nodes' hnodes => ?_
        exact tracks_pure (sameNodes_cons hnode hnodes)
    · exact tracks_fail (ht.endedBefore _)
    · exact tracks_fail (ht.unexpected _)

theorem tracks_conditional : ∀ (n : Nat) {keyword keyword' : Token}, keyword.Alike R keyword' →
    Tracks R SameNode (conditional .empty n keyword) (conditional .empty n keyword')
  | 0, _, _, _ => tracks_exhausted
  | n + 1, keyword, keyword', _ => by
    rw [conditional, conditional]
    refine (tracks_ofFeed Feed.Alike.condition).bind fun cs ds hcs => ?_
    refine (tracks_branches n).bind fun a b hab => ?_
    exact tracks_pure (sameNode_conditional _ _ hcs hab)

theorem tracks_branches : ∀ n : Nat, Tracks R SameBranches (branches .empty n) (branches .empty n)
  | 0 => tracks_exhausted
  | n + 1 => by
    rw [branches]
    refine tracks_next.bind fun t t' ht => ?_
    rw [ht.kind]
    split
    · refine (tracks_branches n).bind fun a b hab => ?_
      exact tracks_pure (sameBranches_cons (textNode_same ht) hab)
    · refine tracks_peek.bind fun word word' hword => ?_
      rw [hword.kind]
      split
      · refine tracks_next.bind fun keyword keyword' hkeyword => ?_
        refine (tracks_note _ _).bind fun _ _ _ => ?_
        refine (tracks_conditional n hkeyword).bind fun inner inner' hinner => ?_
        exact tracks_pure (sameBranches_group _ _ (sameNodes_cons hinner rfl))
      · refine tracks_next.bind fun keyword keyword' hkeyword => ?_
        refine (tracks_expect _ _).bind fun _ _ _ => ?_
        refine (tracks_body n _).bind fun nodes nodes' hnodes => ?_
        exact tracks_pure (sameBranches_group _ _ hnodes)
      · rw [hword.isWord]
        split
        · exact (tracks_skipUntil _).bind fun _ _ _ => tracks_pure ⟨rfl, rfl⟩
        · refine (tracks_tag n).bind fun node node' hnode => ?_
          refine (tracks_branches n).bind fun a b hab => ?_
          exact tracks_pure (sameBranches_cons hnode hab)
    · exact tracks_fail (ht.endedBefore _)
    · exact tracks_fail (ht.unexpected _)

end

theorem tracks_turn (n : Nat) : Tracks R (Option.Rel SameNode) (turn .empty n) (turn .empty n) := by
  refine tracks_next.bind fun t t' ht => ?_
  rw [ht.kind]
  split
  · exact tracks_pure .none
  · exact tracks_pure (.some (textNode_same ht))
  · exact (tracks_tag n).bind fun node node' hnode => tracks_pure (.some hnode)
  · exact tracks_fail (ht.unexpected _)

theorem template_alike : ∀ (n : Nat) (p q : Progress), p.feed.Alike R q.feed →
    SameNodes (template .empty n p).1 (template .empty n q).1 ∧
      (template .empty n p).2.Alike R (fun _ _ => True) (template .empty n q).2
  | 0, _, _, h => ⟨rfl, .exhausted h⟩
  | n + 1, p, q, h => by
    have hturn := tracks_turn n p q h
    rw [template_succ, template_succ]
    generalize (turn .empty n).run p = o at hturn ⊢
    generalize (turn .empty n).run q = o' at hturn ⊢
    cases hturn with
    | done ha hfeed =>
      cases ha with
      | none => exact ⟨rfl, .done trivial hfeed⟩
      | some hnode =>
        obtain ⟨hnodes, hend⟩ := template_alike n _ _ hfeed
        exact ⟨sameNodes_cons hnode hnodes, hend⟩
    | failed he hfeed => exact ⟨rfl, .failed he hfeed⟩
    | exhausted hfeed => exact ⟨rfl, .exhausted hfeed⟩

end Reading

/-! ## Transcripts -/

open Reading in
/-- **Sources with the same tokens in other places are read to the same nodes, up to their places, and to the same
fault, if to any.** -/
theorem transcript_alike {ts us : List Token} (h : List.Forall₂ (Token.Alike R) ts us) (h0 : R .origin .origin) :
    SameNodes (Transcript.ofTokens .empty ts).root (Transcript.ofTokens .empty us).root ∧
      ((Transcript.ofTokens .empty ts).fault = none ∧ (Transcript.ofTokens .empty us).fault = none ∨
        ∃ e e', (Transcript.ofTokens .empty ts).fault = some e ∧ (Transcript.ofTokens .empty us).fault = some e' ∧
          e.Alike R e') := by
  obtain ⟨hroot, hend⟩ := template_alike (Transcript.rounds ts.length) ⟨.ofTokens ts, []⟩ ⟨.ofTokens us, []⟩
    (Feed.alike_ofTokens h h0)
  rw [Transcript.ofTokens, Transcript.ofTokens, ← h.length_eq]
  generalize template .empty (Transcript.rounds ts.length) ⟨.ofTokens ts, []⟩ = r at hroot hend ⊢
  generalize template .empty (Transcript.rounds ts.length) ⟨.ofTokens us, []⟩ = s at hroot hend ⊢
  obtain ⟨nodes, r⟩ := r
  obtain ⟨nodes', s⟩ := s
  cases hend with
  | done => exact ⟨hroot, .inl ⟨rfl, rfl⟩⟩
  | failed he _ => exact ⟨hroot, .inr ⟨_, _, rfl, rfl, he⟩⟩
  | exhausted hfeed => exact ⟨hroot, .inr ⟨_, _, rfl, rfl, hfeed.last, rfl⟩⟩

end Stencil
