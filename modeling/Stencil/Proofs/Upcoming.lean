import Stencil.Feed
/-!
# What a feed has before it

Whatever was looked at or put back, a feed is as good as one list: the tokens in front, then those of the source.  Taking
a token takes the head of that list, looking at one leaves the list as it is.  Past its end there is the end of input,
for ever, if the source delivers one at all.

`Feed.Faces` is the case a reader can finish: some tokens that are neither faults nor ends of input, and nothing but ends
of input after them.
-/
namespace Stencil
namespace Feed

/-- The tokens that were not taken: those in front, then those of the source. -/
def upcoming (f : Feed) : List Token := f.front ++ f.source

/-- Whether the source has delivered an end of input or is still to deliver one. -/
def closes (f : Feed) : Bool := f.ended || f.source.any (·.kind == .endOfInput)

/-- The end of input that is repeated past the end of the source. -/
def repeatedEnd (f : Feed) : Token := ⟨.endOfInput, "", f.last⟩

theorem closes_ofTokens (ts : List Token) : (ofTokens ts).closes = ts.any (·.kind == .endOfInput) := by
  simp [closes, ofTokens]

theorem pull_of_upcoming {f : Feed} {t : Token} {ts : List Token} (h : f.upcoming = t :: ts) :
    ∃ g, f.pull = (t, g) ∧ g.upcoming = ts ∧ g.closes = f.closes ∧ g.last = f.last := by
  obtain ⟨front, source, last, ended, asked⟩ := f
  cases front with
  | cons u front =>
    obtain ⟨rfl, rfl⟩ := List.cons.inj h
    exact ⟨_, rfl, rfl, rfl, rfl⟩
  | nil =>
    cases source with
    | nil => cases h
    | cons u source =>
      obtain ⟨rfl, rfl⟩ := List.cons.inj h
      refine ⟨_, rfl, rfl, ?_, rfl⟩
      simp [closes, Bool.or_assoc]

theorem pull_of_upcoming_nil {f : Feed} (h : f.upcoming = []) :
    ∃ g, f.pull = (f.beyond, g) ∧ g.upcoming = [] ∧ g.closes = f.closes ∧ g.last = f.last := by
  obtain ⟨front, source, last, ended, asked⟩ := f
  obtain ⟨rfl, rfl⟩ := List.append_eq_nil_iff.1 h
  exact ⟨_, rfl, rfl, rfl, rfl⟩

theorem closes_of_upcoming_nil {f : Feed} (h : f.upcoming = []) : f.closes = f.ended := by
  simp [closes, (List.append_eq_nil_iff.1 h).2]

theorem beyond_of_closes {f : Feed} (h : f.upcoming = []) (hc : f.closes = true) : f.beyond = f.repeatedEnd := by
  rw [beyond, if_pos ((closes_of_upcoming_nil h).symm.trans hc), repeatedEnd]

theorem next_of_pull {f g : Feed} {t : Token} (h : f.pull = (t, g)) (ht : t.kind ≠ .error) :
    f.next = (.ok t, { g with last := t.place }) := by
  unfold next
  rw [h]
  simp only [if_neg ht]

theorem peek_of_pull {f g : Feed} {t : Token} (h : f.pull = (t, g)) (ht : t.kind ≠ .error) :
    f.peek = (.ok t, g.putBack t) := by
  unfold peek
  rw [h]
  simp only [if_neg ht]

theorem next_of_pull_error {f g : Feed} {t : Token} (h : f.pull = (t, g)) (ht : t.kind = .error) :
    f.next = (.error (lexicalFault t), putBack { g with last := t.place } t) := by
  unfold next
  rw [h]
  simp only [if_pos ht]

theorem peek_of_pull_error {f g : Feed} {t : Token} (h : f.pull = (t, g)) (ht : t.kind = .error) :
    f.peek = (.error (lexicalFault t), g.putBack t) := by
  unfold peek
  rw [h]
  simp only [if_pos ht]

theorem next_of_upcoming {f : Feed} {t : Token} {ts : List Token} (h : f.upcoming = t :: ts) (ht : t.kind ≠ .error) :
    ∃ g, f.next = (.ok t, g) ∧ g.upcoming = ts ∧ g.closes = f.closes ∧ g.last = t.place := by
  obtain ⟨g, hp, hu, hc, -⟩ := pull_of_upcoming h
  exact ⟨_, next_of_pull hp ht, hu, hc, rfl⟩

theorem next_of_upcoming_nil {f : Feed} (h : f.upcoming = []) (hc : f.closes = true) :
    ∃ g, f.next = (.ok f.repeatedEnd, g) ∧ g.upcoming = [] ∧ g.closes = true ∧ g.last = f.last := by
  obtain ⟨g, hp, hu, hcg, -⟩ := pull_of_upcoming_nil h
  rw [beyond_of_closes h hc] at hp
  exact ⟨_, next_of_pull hp (by simp [repeatedEnd]), hu, hcg.trans hc, rfl⟩

theorem peek_of_upcoming {f : Feed} {t : Token} {ts : List Token} (h : f.upcoming = t :: ts) (ht : t.kind ≠ .error) :
    ∃ g, f.peek = (.ok t, g) ∧ g.upcoming = t :: ts ∧ g.closes = f.closes ∧ g.last = f.last := by
  obtain ⟨g, hp, hu, hc, hl⟩ := pull_of_upcoming h
  exact ⟨_, peek_of_pull hp ht, congrArg (t :: ·) hu, hc, hl⟩

theorem peek_of_upcoming_nil {f : Feed} (h : f.upcoming = []) (hc : f.closes = true) :
    ∃ g, f.peek = (.ok f.repeatedEnd, g) ∧ g.upcoming = [f.repeatedEnd] ∧ g.closes = true ∧ g.last = f.last := by
  obtain ⟨g, hp, hu, hcg, hl⟩ := pull_of_upcoming_nil h
  rw [beyond_of_closes h hc] at hp
  exact ⟨_, peek_of_pull hp (by simp [repeatedEnd]), congrArg (f.repeatedEnd :: ·) hu, hcg.trans hc, hl⟩

/-! ## Feeds that a reader can finish -/

/-- A feed with the tokens `ts` before it and then nothing but ends of input. -/
structure Faces (f : Feed) (ts : List Token) : Prop where
  ends : ∃ es, f.upcoming = ts ++ es ∧ ∀ e ∈ es, e.kind = .endOfInput
  plain : ∀ t ∈ ts, t.kind ≠ .endOfInput ∧ t.kind ≠ .error
  closes : f.closes = true

theorem faces_ofTokens {ts : List Token} {e : Token} (he : e.kind = .endOfInput)
    (hts : ∀ t ∈ ts, t.kind ≠ .endOfInput ∧ t.kind ≠ .error) : (ofTokens (ts ++ [e])).Faces ts where
  ends := ⟨[e], rfl, by simpa using he⟩
  plain := hts
  closes := by simp [closes_ofTokens, he]

theorem Faces.next_cons {f : Feed} {t : Token} {ts : List Token} (h : f.Faces (t :: ts)) :
    ∃ g, f.next = (.ok t, g) ∧ g.Faces ts ∧ g.last = t.place := by
  obtain ⟨es, hu, hes⟩ := h.ends
  obtain ⟨g, hn, hg, hc, hl⟩ := next_of_upcoming hu (h.plain t List.mem_cons_self).2
  exact ⟨g, hn, ⟨⟨es, hg, hes⟩, fun u hu => h.plain u (List.mem_cons_of_mem t hu), hc.trans h.closes⟩, hl⟩

theorem Faces.next_nil {f : Feed} (h : f.Faces []) : ∃ e g, f.next = (.ok e, g) ∧ e.kind = .endOfInput ∧ g.Faces [] := by
  obtain ⟨es, hu, hes⟩ := h.ends
  cases es with
  | nil =>
    obtain ⟨g, hn, hg, hc, -⟩ := next_of_upcoming_nil hu h.closes
    exact ⟨_, g, hn, rfl, ⟨[], hg, by simp⟩, by simp, hc⟩
  | cons e es =>
    have he := hes e List.mem_cons_self
    obtain ⟨g, hn, hg, hc, -⟩ := next_of_upcoming hu (by simp [he])
    exact ⟨e, g, hn, he, ⟨es, hg, fun u hu => hes u (List.mem_cons_of_mem e hu)⟩, by simp, hc.trans h.closes⟩

theorem Faces.peek_cons {f : Feed} {t : Token} {ts : List Token} (h : f.Faces (t :: ts)) :
    ∃ g, f.peek = (.ok t, g) ∧ g.Faces (t :: ts) := by
  obtain ⟨es, hu, hes⟩ := h.ends
  obtain ⟨g, hn, hg, hc, -⟩ := peek_of_upcoming hu (h.plain t List.mem_cons_self).2
  exact ⟨g, hn, ⟨es, hg, hes⟩, h.plain, hc.trans h.closes⟩

theorem Faces.peek_nil {f : Feed} (h : f.Faces []) : ∃ e g, f.peek = (.ok e, g) ∧ e.kind = .endOfInput ∧ g.Faces [] := by
  obtain ⟨es, hu, hes⟩ := h.ends
  cases es with
  | nil =>
    obtain ⟨g, hn, hg, hc, -⟩ := peek_of_upcoming_nil hu h.closes
    exact ⟨_, g, hn, rfl, ⟨_, hg, by simp [repeatedEnd]⟩, by simp, hc⟩
  | cons e es =>
    have he := hes e List.mem_cons_self
    obtain ⟨g, hn, hg, hc, -⟩ := peek_of_upcoming hu (by simp [he])
    exact ⟨e, g, hn, he, ⟨e :: es, hg, hes⟩, by simp, hc.trans h.closes⟩

/-! ## Skipping -/

theorem skipUntil_eq (kind : Kind) (f : Feed) :
    f.skipUntil kind = match f.next with
      | (.error e, g) => (.error e, g)
      | (.ok t, g) => if t.kind = kind ∨ t.kind = .endOfInput then (.ok (), g) else g.skipUntil kind := by
  rw [skipUntil]
  split <;> rename_i heq <;> simp only [heq, dite_eq_ite]

/-- What is left behind the first token of a kind. -/
def behind (kind : Kind) : List Token → List Token
  | [] => []
  | t :: ts => if t.kind = kind then ts else behind kind ts

theorem Faces.skipUntil (kind : Kind) : ∀ {ts : List Token} {f : Feed}, f.Faces ts →
    ∃ g, f.skipUntil kind = (.ok (), g) ∧ g.Faces (behind kind ts)
  | [], f, h => by
    obtain ⟨e, g, hn, he, hg⟩ := h.next_nil
    exact ⟨g, by simp [skipUntil_eq, hn, he], hg⟩
  | t :: ts, f, h => by
    obtain ⟨g, hn, hg, -⟩ := h.next_cons
    have hplain := (h.plain t List.mem_cons_self).1
    by_cases hk : t.kind = kind
    · exact ⟨g, by simp [skipUntil_eq kind f, hn, hk], by simpa [behind, hk] using hg⟩
    · obtain ⟨g', hs, hg'⟩ := Faces.skipUntil kind hg
      exact ⟨g', by simp [skipUntil_eq kind f, hn, hk, hplain, hs], by simpa [behind, hk] using hg'⟩

end Feed
end Stencil
