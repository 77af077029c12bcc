import Stencil.Proofs.Acceptance
import Stencil.Proofs.Blame
import Stencil.Proofs.Completion
import Stencil.Proofs.Horizon
/-!
# Complete items are taken off one by one

Between two items of a template a feed is bare (`Feed.Bare`): nothing is in front of it, no end of input has come, and all
that has passed are plain tokens.  A complete tag takes it from one such place to the next, whatever comes behind the tag,
and nothing else does.  So complete items are read to their nodes with no regard to the rest of the source, be that the
start of another item, a fault, or nothing.

That a layout is read was shown before feeds that a reader can finish.  It carries over since no reading sees beyond what
it asked for, and a tag asks for no more than its own tokens: whoever looks at a token takes it before the tag is done
(`Reading.Clears`).
-/
namespace Stencil

/-! ## Nothing is left in front -/

namespace Feed

/-- At most one token is in front. -/
def Shows (f : Feed) : Prop := f.front.length ≤ 1

theorem shows_of_bare {f : Feed} (h : f.front = []) : f.Shows := by
  rw [Shows, h]
  exact Nat.zero_le 1

theorem shows_putBack {f : Feed} (h : f.front = []) (t : Token) : (f.putBack t).Shows :=
  Nat.le_of_eq (congrArg (·.length + 1) h)

theorem front_pull {f : Feed} (h : f.Shows) : f.pull.2.front = [] := by
  obtain ⟨front, source, last, ended, asked⟩ := f
  cases front with
  | nil => cases source <;> rfl
  | cons t front => exact List.length_eq_zero_iff.1 (Nat.le_zero.1 (Nat.le_of_succ_le_succ h))

theorem front_next {f g : Feed} {t : Token} (h : f.Shows) (hn : f.next = (.ok t, g)) : g.front = [] := by
  by_cases ht : f.pull.1.kind = .error
  · cases hn.symm.trans (next_of_pull_error rfl ht)
  · cases hn.symm.trans (next_of_pull rfl ht)
    exact front_pull h

theorem lasting_shows : Lasting Shows where
  next f h := by
    by_cases ht : f.pull.1.kind = .error
    · rw [next_of_pull_error rfl ht]
      exact shows_putBack (front_pull h) _
    · rw [next_of_pull rfl ht]
      exact shows_of_bare (front_pull h)
  peek f h := shows_putBack (front_pull h) _

theorem front_skipUntil {kind : Kind} {f g : Feed} (h : f.Shows) (hs : f.skipUntil kind = (.ok (), g)) :
    g.front = [] := by
  rw [skipUntil_eq] at hs
  split at hs
  · cases hs
  · rename_i t g' hn
    have hfront := front_next h hn
    split at hs
    · cases hs
      exact hfront
    · rename_i ht
      have := unread_lt_of_next hn fun hk => ht (.inr hk)
      exact front_skipUntil (shows_of_bare hfront) hs
termination_by f.unread

end Feed

namespace Reading

variable {α β : Type}

/-- A reading that comes to a value leaves nothing in front. -/
def Clears (x : Reading α) : Prop := ∀ (p q : Progress) (a : α), p.feed.Shows → x.run p = .done a q → q.feed.front = []

theorem Clears.bind {x : Reading α} {f : α → Reading β} (hx : x.Keeps Feed.Shows) (hf : ∀ a, (f a).Clears) :
    (x >>= f).Clears := by
  intro p r b hp h
  have hq := hx p hp
  rw [run_bind] at h
  cases hr : x.run p with
  | done a q =>
    rw [hr] at hq h
    exact hf a q r b hq h
  | failed e q | exhausted q =>
    rw [hr] at h
    cases h

theorem Clears.returning {x : Reading α} {f : α → Reading β} (hx : x.Clears) (hf : ∀ a, ∃ b, f a = pure b) :
    (x >>= f).Clears := by
  intro p r b hp h
  rw [run_bind] at h
  cases hr : x.run p with
  | done a q =>
    obtain ⟨c, hc⟩ := hf a
    rw [hr] at h
    simp only [hc] at h
    cases h
    exact hx p _ a hp hr
  | failed e q | exhausted q =>
    rw [hr] at h
    cases h

theorem clears_fail (e : ParseFault) : (fail e : Reading α).Clears := fun _ _ _ _ h => by cases h

theorem clears_exhausted : (exhausted : Reading α).Clears := fun _ _ _ _ h => by cases h

theorem clears_skipUntil (kind : Kind) : (skipUntil kind).Clears := by
  intro p q a hp h
  rw [skipUntil, run_ofFeed] at h
  split at h
  · rename_i hs
    cases h
    exact Feed.front_skipUntil hp hs
  · cases h

theorem hereditary_shows : Hereditary (Keeps Feed.Shows) := hereditary_keeps Feed.lasting_shows

theorem shows_expect (kind : Kind) (expected : String) : (expect kind expected).Keeps Feed.Shows :=
  hereditary_shows.answering.expect kind expected

theorem shows_tag (n : Nat) : (tag .empty n).Keeps Feed.Shows := hereditary_shows.tag Catalog.neverPutsBack_empty n

mutual

theorem clears_tag : ∀ n : Nat, (tag .empty n).Clears
  | 0 => clears_exhausted
  | n + 1 => by
    rw [tag]
    refine .bind hereditary_shows.next fun name => ?_
    split
    · refine .bind (shows_expect _ _) fun title => .bind (shows_expect _ _) fun _ => ?_
      exact (clears_body n "endblock").returning fun _ => ⟨_, rfl⟩
    · exact clears_conditional n name
    · exact clears_fail _
    · exact clears_fail _
    · exact clears_fail _

theorem clears_body : ∀ (n : Nat) (close : String), (body .empty n close).Clears
  | 0, _ => clears_exhausted
  | n + 1, close => by
    rw [body]
    refine .bind hereditary_shows.next fun t => ?_
    split
    · exact (clears_body n close).returning fun _ => ⟨_, rfl⟩
    · refine .bind hereditary_shows.peek fun word => ?_
      split
      · exact (clears_skipUntil _).returning fun _ => ⟨_, rfl⟩
      · exact .bind (shows_tag n) fun _ => (clears_body n close).returning fun _ => ⟨_, rfl⟩
    · exact clears_fail _
    · exact clears_fail _

theorem clears_conditional : ∀ (n : Nat) (keyword : Token), (conditional .empty n keyword).Clears
  | 0, _ => clears_exhausted
  | n + 1, keyword => by
    rw [conditional]
    exact .bind hereditary_shows.condition fun _ => (clears_branches n).returning fun _ => ⟨_, rfl⟩

theorem clears_branches : ∀ n : Nat, (branches .empty n).Clears
  | 0 => clears_exhausted
  | n + 1 => by
    rw [branches]
    refine .bind hereditary_shows.next fun t => ?_
    split
    · exact (clears_branches n).returning fun _ => ⟨_, rfl⟩
    · refine .bind hereditary_shows.peek fun word => ?_
      split
      · refine .bind hereditary_shows.next fun keyword => .bind (hereditary_shows.note _) fun _ => ?_
        exact (clears_conditional n keyword).returning fun _ => ⟨_, rfl⟩
      · refine .bind hereditary_shows.next fun keyword => .bind (shows_expect _ _) fun _ => ?_
        exact (clears_body n "endif").returning fun _ => ⟨_, rfl⟩
      · split
        · exact (clears_skipUntil _).returning fun _ => ⟨_, rfl⟩
        · exact .bind (shows_tag n) fun _ => (clears_branches n).returning fun _ => ⟨_, rfl⟩
    · exact clears_fail _
    · exact clears_fail _

end

end Reading

/-! ## Plain tokens and complete items -/

namespace Layout

theorem plain_nil : Plain [] := fun _ h => by cases h

theorem plain_text {t : Token} (ht : t.kind = .text) : Plain [t] :=
  List.forall_mem_singleton.2 ⟨by rw [ht]; decide, by rw [ht]; decide⟩

def aText : Token := ⟨.text, "", .origin⟩

def anEnd : Token := ⟨.endOfInput, "", .origin⟩

theorem complete_nil : Complete ([] : List (Item [])) := fun _ => trivial

theorem Complete.concat_text {is : List (Item [])} (h : Complete is) (t : TokenOf .text) : Complete (is ++ [.text t]) :=
  fun _ => (fitsAll_append is _).2 ⟨h _, trivial, trivial⟩

theorem Complete.uncons {i : Item []} {is : List (Item [])} (h : Complete (i :: is)) :
    (∀ us, i.Fits us) ∧ Complete is := by
  refine ⟨i.fits_of_ne (h [aText]).1 ?_, fun us => (h us).2⟩
  exact List.append_ne_nil_of_right_ne_nil _ (List.cons_ne_nil _ _)

/-- A layout whose tags all end is made of complete items. -/
theorem Derives.complete {us : List Token} {is : List (Item [])} (h : Derives us is) (ht : TagsEnd us) : Complete is :=
  fitsAll_anywhere is [] h.fits (by rwa [List.append_nil, h.spells])

end Layout

/-! ## Bare feeds -/

open Layout

variable {before us ts rest : List Token}

namespace Feed

/-- A feed that stands between the tokens `before`, which were taken, and `rest`, for which nobody has asked. -/
structure Bare (f : Feed) (before rest : List Token) : Prop where
  front : f.front = []
  source : f.source = rest
  ended : f.ended = false
  asked : f.asked = before.length
  last : f.last = lastPlace before
  plain : Plain before

variable {f : Feed}

theorem bare_ofTokens (ts : List Token) : (ofTokens ts).Bare [] ts := ⟨rfl, rfl, rfl, rfl, rfl, plain_nil⟩

theorem Bare.withSource (h : f.Bare before rest) (ts : List Token) : (f.withSource ts).Bare before ts :=
  ⟨h.front, rfl, h.ended, h.asked, h.last, h.plain⟩

theorem Bare.follows (h : f.Bare before rest) : f.Follows (before ++ rest) := by
  have htake : (before ++ rest).take f.asked = before := by rw [h.asked, List.take_left]
  refine ⟨?_, ?_, fun u hu => ?_, .bare h.front ?_ ?_ fun hran => ?_⟩
  · rw [h.asked, List.drop_left, h.source]
  · rw [htake, h.ended]
    exact (List.any_eq_false.2 fun t ht hk => (h.plain t ht).1 (beq_iff_eq.1 hk)).symm
  · refine (h.plain u ?_).2
    rw [← htake]
    exact List.take_subset_take_left _ (Nat.sub_le ..) hu
  · rw [htake, h.last]
  · rw [htake]
    exact fun u hu => (h.plain u hu).2
  · have := hran.1
    rw [h.asked, List.length_append] at this
    omega

theorem Follows.bare (h : f.Follows ts) (hfront : f.front = []) (hended : f.ended = false) :
    f.Bare (ts.take f.asked) (ts.drop f.asked) := by
  have hopen : ∀ t ∈ ts.take f.asked, t.kind ≠ .endOfInput := by
    intro t ht hk
    have := List.any_eq_false.1 (h.ended.symm.trans hended) t ht
    exact this (beq_iff_eq.2 hk)
  rcases h.fronts with ⟨-, hlast, hclean, hwithin⟩ | ⟨t, hshowing, -, -⟩
  · refine ⟨hfront, h.source, hended, ?_, hlast, fun t ht => ⟨hopen t ht, hclean t ht⟩⟩
    refine (List.length_take_of_le (Nat.le_of_not_lt fun hlt => hwithin ⟨hlt, ?_⟩)).symm
    rwa [List.take_of_length_le (Nat.le_of_lt hlt)] at hopen
  · rw [hfront] at hshowing
    cases hshowing

theorem Bare.faces {e : Token} (h : f.Bare before (ts ++ [e])) (hts : Plain ts) (he : e.kind = .endOfInput) : f.Faces ts where
  ends := ⟨[e], by rw [upcoming, h.front, h.source]; rfl, by simpa using he⟩
  plain := hts
  closes := by simp [closes, h.source, he]

theorem Faces.unique (h : f.Faces ts) (h' : f.Faces us) : ts = us := by
  have htake : ∀ {ts : List Token}, f.Faces ts → f.upcoming.takeWhile (·.kind != .endOfInput) = ts := by
    intro ts h
    obtain ⟨es, hu, hes⟩ := h.ends
    rw [hu, List.takeWhile_append_of_pos fun t ht => bne_iff_ne.2 (h.plain t ht).1]
    cases es with
    | nil => exact List.append_nil ts
    | cons e es => simp [hes e List.mem_cons_self]
  exact (htake h).symm.trans (htake h')

theorem Bare.next {t : Token} (h : f.Bare before (t :: rest)) (ht : t.kind ≠ .endOfInput ∧ t.kind ≠ .error) :
    ∃ g, f.next = (.ok t, g) ∧ g.Bare (before ++ [t]) rest := by
  obtain ⟨front, source, last, ended, asked⟩ := f
  obtain ⟨rfl, rfl, rfl, rfl, rfl, hplain⟩ := h
  refine ⟨_, next_of_pull rfl ht.2, rfl, rfl, ?_, ?_, (lastPlace_concat before t).symm, ?_⟩
  · simp [ht.1]
  · rw [List.length_append]
    rfl
  · exact plain_append hplain (List.forall_mem_singleton.2 ht)

theorem Bare.of_next {g : Feed} {t : Token} (h : f.Bare before rest) (hn : f.next = (.ok t, g)) (ht : t.kind ≠ .endOfInput) :
    ∃ more, rest = t :: more ∧ t.kind ≠ .error ∧ g.Bare (before ++ [t]) more := by
  cases rest with
  | nil =>
    have hup : f.upcoming = [] := by rw [upcoming, h.front, h.source]; rfl
    obtain ⟨r, hp, -⟩ := pull_of_upcoming_nil hup
    have hk : f.beyond.kind = .error := by rw [beyond, h.ended]; rfl
    cases hn.symm.trans (next_of_pull_error hp hk)
  | cons u more =>
    have hup : f.upcoming = u :: more := by rw [upcoming, h.front, h.source]; rfl
    obtain ⟨r, hp, -⟩ := pull_of_upcoming hup
    by_cases hu : u.kind = .error
    · cases hn.symm.trans (next_of_pull_error hp hu)
    · cases hn.symm.trans (next_of_pull hp hu)
      obtain ⟨g, hn', hg⟩ := h.next ⟨ht, hu⟩
      cases hn.symm.trans hn'
      exact ⟨more, rfl, hu, hg⟩

end Feed

namespace Reading

variable {α : Type} {x : Reading α} {p q : Progress} {a : α}

theorem exists_taken (hlocal : x.Local) (hblames : Blames (before ++ rest) x) (hclears : x.Clears)
    (hp : p.feed.Bare before rest) (hr : x.run p = .done a q) (hended : q.feed.ended = false) :
    ∃ us rest', rest = us ++ rest' ∧ q.feed.Bare (before ++ us) rest' := by
  have hblamed := hblames p hp.follows
  have hasks := hlocal.asks before.length p (Nat.le_of_eq hp.asked.symm)
  rw [hr] at hblamed hasks
  have hfollows : q.feed.Follows (before ++ rest) := hblamed.follows
  have hle : before.length ≤ q.feed.asked := hasks
  have hq := hfollows.bare (hclears p q a (Feed.shows_of_bare hp.front) hr) hended
  rw [List.take_append, List.drop_append, List.take_of_length_le hle, List.drop_of_length_le hle, List.nil_append] at hq
  exact ⟨_, _, (List.take_append_drop _ rest).symm, hq⟩

theorem run_withSource (hlocal : x.Local) (hp : p.feed.Bare before (us ++ rest)) (hr : x.run p = .done a q)
    (hq : q.feed.Bare (before ++ us) rest) (rest' : List Token) :
    ∃ q', x.run (p.withSource (us ++ rest')) = .done a q' ∧ q'.feed.Bare (before ++ us) rest' := by
  have hswap := hlocal.swap p us rest rest' hp.source
  have hasked : q.feed.asked = p.feed.asked + us.length := by rw [hq.asked, hp.asked, List.length_append]
  rw [hr] at hswap
  obtain ⟨s, -, hlen, hrun⟩ := hswap (Nat.le_of_eq hasked)
  obtain rfl : s = [] := by
    rw [← List.length_eq_zero_iff]
    have : q.feed.asked + s.length = p.feed.asked + us.length := hlen
    omega
  exact ⟨q.withSource rest', hrun, hq.withSource rest'⟩

end Reading

/-! ## Tags -/

namespace Layout

open Reading (tag local_tag lockstep_blames clears_tag keeps_tag exists_taken run_withSource)

variable {n : Nat} {p q : Progress} {g : Tag []}

theorem faces_aText {f : Feed} (h : f.Bare before (ts ++ [aText, anEnd])) (hts : Plain ts) : f.Faces (ts ++ [aText]) := by
  rw [← List.singleton_append, ← List.append_assoc] at h
  exact h.faces (plain_append hts (plain_text rfl)) rfl

/-- A tag that was read before the end of input has come was complete. -/
theorem tag_of_run {node : Node} (hp : p.feed.Bare before rest) (hr : (tag .empty n).run p = .done node q)
    (hended : q.feed.ended = false) : ∃ (g : Tag []) (rest' : List Token), rest = g.tokens ++ rest' ∧ (∀ us, g.Fits us) ∧
      node = g.node ∧ q.feed.Bare (before ++ g.tokens) rest' := by
  obtain ⟨us, rest', rfl, hq⟩ := exists_taken (local_tag .empty n) ((lockstep_blames _).tag n) (clears_tag n) hp hr hended
  obtain ⟨q', hr', hq'⟩ := run_withSource (local_tag .empty n) hp hr hq [aText, anEnd]
  have hus : Plain us := fun t ht => hq.plain t (List.mem_append_right _ ht)
  obtain ⟨mid, hmid, g, hg, hfits, rfl⟩ := ensures_tag n (us ++ [aText]) _ q' node
    (faces_aText (hp.withSource (us ++ [aText, anEnd])) hus) hr'
  have hleft : q'.feed.Faces ([] ++ [aText]) := faces_aText hq' plain_nil
  obtain rfl := hmid.unique hleft
  obtain rfl := List.append_cancel_right hg
  exact ⟨g, rest', rfl, g.fits_of_ne hfits (List.cons_ne_nil _ _), rfl, hq⟩

theorem run_of_tag (hg : ∀ us, g.Fits us) (hplain : Plain g.tokens) (hn : g.tokens.length + 1 < n)
    (hp : p.feed.Bare before (g.tokens ++ rest)) :
    ∃ q, (tag .empty n).run p = .done g.node q ∧ q.feed.Bare (before ++ g.tokens) rest := by
  have hp₀ : (p.withSource (g.tokens ++ [aText, anEnd])).feed.Bare before (g.tokens ++ [aText, anEnd]) := hp.withSource _
  have hfaces := faces_aText hp₀ hplain
  obtain ⟨node, q, hr, -, hq⟩ := reaches_tag (serves_nil .empty) n g [aText] (hg _) (by simpa using hn) _ hfaces
  -- The end of input has not come, since the text before it is still there.
  have hended : q.feed.ended = false := by
    have horderly := keeps_tag Feed.lasting_orderly Catalog.neverPutsBack_empty n _
      ⟨_, Feed.awaits_of_not_ended hfaces hp₀.ended⟩
    rw [hr] at horderly
    obtain ⟨us, hus⟩ := horderly
    obtain rfl := hus.faces.unique hq
    exact hus.not_ended
  obtain ⟨g', rest', hg', hfits, rfl, hbare⟩ := tag_of_run hp₀ hr hended
  obtain ⟨rfl, rfl⟩ := Tag.unique g g' _ _ hg' (hg _) (hfits _)
  obtain ⟨q', hr', hq'⟩ := run_withSource (local_tag .empty n) hp₀ hr hbare rest
  have hself : (p.withSource (g.tokens ++ [aText, anEnd])).withSource (g.tokens ++ rest) = p := by
    rw [← hp.source]
    rfl
  rw [hself] at hr'
  exact ⟨q', hr', hq'⟩

/-! ## Templates -/

open Reading (template) in
/-- Complete items are read to their nodes, and what comes behind them as a template of its own. -/
theorem template_items : ∀ (is : List (Item [])) {before : List Token} {p : Progress}, Complete is → Plain (tokensOf is) →
    (tokensOf is).length + 1 < n → p.feed.Bare before (tokensOf is ++ rest) →
      ∃ q, q.feed.Bare (before ++ tokensOf is) rest ∧
        template .empty (n + is.length) p = (nodesOf is ++ (template .empty n q).1, (template .empty n q).2)
  | [], before, p, _, _, _, hp => ⟨p, by rwa [tokensOf, List.append_nil], rfl⟩
  | .text t :: is, before, p, his, hplain, hn, hp => by
    rw [tokensOf, Item.tokens, List.singleton_append] at hplain hn hp ⊢
    obtain ⟨g, hnext, hg⟩ := hp.next (hplain t.1 List.mem_cons_self)
    obtain ⟨q, hq, htemplate⟩ := template_items is (p := { p with feed := g }) his.uncons.2
      (fun u hu => hplain u (List.mem_cons_of_mem _ hu)) (Nat.lt_of_succ_lt hn) hg
    refine ⟨q, by rwa [List.append_cons], ?_⟩
    rw [List.length_cons, ← Nat.add_assoc, template, Reading.next, Reading.run_ofFeed, hnext]
    simp only [t.2, htemplate]
    rfl
  | .tag opening g :: is, before, p, his, hplain, hn, hp => by
    rw [tokensOf, Item.tokens, List.cons_append] at hplain hn hp ⊢
    rw [List.length_cons, List.length_append] at hn
    rw [List.cons_append, List.append_assoc] at hp
    obtain ⟨f, hnext, hf⟩ := hp.next (hplain opening.1 List.mem_cons_self)
    have htag : Plain g.tokens := fun u hu => hplain u (List.mem_cons_of_mem _ (List.mem_append_left _ hu))
    obtain ⟨r, hr, hrf⟩ := run_of_tag (n := n + is.length) (p := { p with feed := f }) his.uncons.1 htag (by omega) hf
    obtain ⟨q, hq, htemplate⟩ := template_items is his.uncons.2
      (fun u hu => hplain u (List.mem_cons_of_mem _ (List.mem_append_right _ hu))) (by omega) hrf
    refine ⟨q, by simpa using hq, ?_⟩
    rw [List.length_cons, ← Nat.add_assoc, template, Reading.next, Reading.run_ofFeed, hnext]
    simp only [opening.2, hr, htemplate]
    rfl

end Layout

/-! ## Transcripts -/

/-- More rounds than tokens make no difference to a transcript, where no tag puts anything back. -/
theorem Transcript.ofRounds_eq {tags : Catalog} (htags : tags.NeverPutsBack) {n : Nat} (hn : ts.length < n) :
    ofRounds tags n ts = ofTokens tags ts := by
  obtain ⟨nodes, fault, q, hwhole, htranscript⟩ := exists_whole htags ts
  have hrun := hwhole n hn
  rw [Reading.run_whole] at hrun
  rw [htranscript, ofRounds]
  rcases ht : Reading.template tags n ⟨.ofTokens ts, []⟩ with ⟨nodes', _ | _ | _⟩ <;> rw [ht] at hrun <;> cases hrun <;> rfl

open Reading (template) in
/-- What a source comes to that starts with complete items: first their nodes, then what is read behind them. -/
theorem exists_behind {is : List (Item [])} (his : Complete is) (hplain : Plain (tokensOf is)) {n : Nat}
    (hn : (tokensOf is ++ rest).length + 1 < n) : ∃ q : Progress, q.feed.Bare (tokensOf is) rest ∧
      Transcript.ofTokens .empty (tokensOf is ++ rest) =
        .ofEnding (nodesOf is ++ (template .empty n q).1, (template .empty n q).2) := by
  have hlen : (tokensOf is ++ rest).length = (tokensOf is).length + rest.length := List.length_append
  obtain ⟨q, hq, htemplate⟩ := template_items (n := n) is (p := ⟨.ofTokens (tokensOf is ++ rest), []⟩) his hplain
    (by omega) (Feed.bare_ofTokens _)
  refine ⟨q, hq, ?_⟩
  rw [← Transcript.ofRounds_eq Catalog.neverPutsBack_empty (n := n + is.length) (by omega), Transcript.ofRounds, htemplate]

end Stencil
