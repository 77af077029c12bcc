import Stencil.Proofs.Acceptance
import Stencil.Proofs.Blame
import Stencil.Proofs.Completion
import Stencil.Proofs.Horizon
/-!
# The first fault

Without tags of one's own a fault names the first token that does not belong where it stands: the fault is about the last
token that was asked for, nothing behind that token was looked at, and what stands before it is the start of a template.
-/
namespace Stencil

open Layout

/-- Only the last token may be an end of input. -/
def EndsOnce (ts : List Token) : Prop := ∀ t ∈ ts.dropLast, t.kind ≠ .endOfInput

variable {ts us : List Token}

theorem EndsOnce.take {k : Nat} (h : EndsOnce ts) (hk : k < ts.length) : ∀ t ∈ ts.take k, t.kind ≠ .endOfInput := by
  intro t ht
  refine h t ?_
  rw [List.dropLast_eq_take]
  exact (List.take_subset_take_left ts (Nat.le_sub_one_of_lt hk)) ht

theorem EndsOnce.eq_of_take (h : EndsOnce us) (hend : ∃ t ∈ ts, t.kind = .endOfInput) (htake : us.take ts.length = ts) :
    us = ts := by
  obtain ⟨t, ht, hk⟩ := hend
  by_cases hlen : us.length ≤ ts.length
  · rwa [List.take_of_length_le hlen] at htake
  · rw [← htake] at ht
    exact absurd hk (h.take (Nat.lt_of_not_le hlen) t ht)

theorem exists_blamed {asked : Nat} {e : ParseFault} (h : Blame ts asked e)
    (hother : ¬(RanOut ts asked ∧ e.cause = closedEarly)) :
    ∃ k t, k + 1 = min asked ts.length ∧ ts[k]? = some t ∧ e.place = t.place := by
  have hran : ¬RanOut ts asked := fun hran => hother ⟨hran, h.ranOut hran⟩
  have hne : ts ≠ [] := by
    rintro rfl
    exact hran ⟨h.pos, fun t ht => by cases ht⟩
  have hlen : 0 < ts.length := List.length_pos_iff.2 hne
  have hpos : 0 < min asked ts.length := Nat.lt_min.2 ⟨h.pos, hlen⟩
  obtain ⟨k, hk⟩ : ∃ k, min asked ts.length = k + 1 := Nat.exists_eq_add_one_of_ne_zero (Nat.ne_of_gt hpos)
  have hlt : k < ts.length := Nat.lt_of_succ_le (Nat.le_trans (Nat.le_of_eq hk.symm) (Nat.min_le_right ..))
  have htake : ts.take asked = ts.take k ++ [ts[k]] := by
    rw [List.take_append_getElem hlt, ← hk, List.take_eq_take_min]
  refine ⟨k, ts[k], hk.symm, List.getElem?_eq_getElem hlt, ?_⟩
  rw [h.place, htake, lastPlace_concat]

/-! ## Transcripts -/

open Reading in
theorem blame_of_template {n : Nat} {nodes : List Node} {e : ParseFault} {q : Progress}
    (h : template .empty n ⟨.ofTokens ts, []⟩ = (nodes, .failed e q)) : q.feed.Follows ts ∧ Blame ts q.feed.asked e := by
  have hrun := run_whole .empty n ⟨.ofTokens ts, []⟩
  rw [h] at hrun
  exact blame_of_whole (Feed.follows_ofTokens ts) hrun

/-- Tokens that are read up to the end of input are the start of a template. -/
theorem exists_completion {e : Token} (he : e.kind = .endOfInput) (hus : Plain us)
    (hasked : us.length < (Transcript.ofTokens .empty (us ++ [e])).asked) :
    ∃ more, Plain more ∧
      ∀ last : Token, last.kind = .endOfInput → (Transcript.ofTokens .empty (us ++ more ++ [last])).fault = none := by
  cases hf : (Transcript.ofTokens .empty (us ++ [e])).fault with
  | none =>
    obtain ⟨is, his, -⟩ := layout_of_transcript he hus hf
    refine ⟨[], fun _ h => (by cases h), fun last hlast => ?_⟩
    rw [List.append_nil]
    exact (transcript_of_layout (serves_nil .empty) hlast hus his).1
  | some f =>
    obtain ⟨nodes, q, ht, hq⟩ := template_of_fault Catalog.neverPutsBack_empty hf
    have hlen : (us ++ [e]).length ≤ q.feed.asked := by
      rw [List.length_append, ← hq]
      exact hasked
    have hended : q.feed.ended = true := by
      rw [(blame_of_template ht).1.ended, List.take_of_length_le hlen]
      simp [he]
    obtain ⟨is, -, ⟨more, htokens, hmore⟩, his, rfl⟩ :=
      starts_of_template _ us nodes f _ q (Feed.awaits_ofTokens he hus) ht hended
    rw [List.append_nil] at htokens
    refine ⟨more, hmore, fun last hlast => ?_⟩
    exact (transcript_of_layout (serves_nil .empty) hlast (plain_append hus hmore) ⟨htokens, his []⟩).1

/-- Unless a source ran out, what stands behind the last token that was asked for does not matter. -/
theorem transcript_eq_of_ends {k : Nat} {f : ParseFault} (hus : EndsOnce us)
    (hblame : Blame ts (Transcript.ofTokens .empty ts).asked f)
    (hother : ¬(RanOut ts (Transcript.ofTokens .empty ts).asked ∧ f.cause = closedEarly))
    (hk : k + 1 = min (Transcript.ofTokens .empty ts).asked ts.length) (htake : us.take (k + 1) = ts.take (k + 1)) :
    Transcript.ofTokens .empty us = Transcript.ofTokens .empty ts := by
  by_cases hasked : (Transcript.ofTokens .empty ts).asked ≤ ts.length
  · rw [Nat.min_eq_left hasked] at hk
    have hlt : k < ts.length := Nat.lt_of_succ_le (Nat.le_trans (Nat.le_of_eq hk) hasked)
    exact transcript_eq_of_take Catalog.neverPutsBack_empty (Nat.le_of_eq hk.symm) hlt htake
  · have hlen : k + 1 = ts.length := hk.trans (Nat.min_eq_right (Nat.le_of_not_le hasked))
    have hend : ∃ t ∈ ts, t.kind = .endOfInput := by
      refine Classical.byContradiction fun hnone => ?_
      have hran : RanOut ts _ := ⟨Nat.lt_of_not_le hasked, fun t ht hkind => hnone ⟨t, ht, hkind⟩⟩
      exact hother ⟨hran, hblame.ranOut hran⟩
    rw [hlen, List.take_length] at htake
    rw [hus.eq_of_take hend htake]

theorem lt_asked_of_take {k : Nat} (hlen : us.length = k) (e : Token) (htake : ts.take k = us)
    (hasked : k < (Transcript.ofTokens .empty ts).asked) : k < (Transcript.ofTokens .empty (us ++ [e])).asked := by
  refine Nat.lt_of_not_le fun hle => ?_
  have hsame : Transcript.ofTokens .empty ts = Transcript.ofTokens .empty (us ++ [e]) :=
    transcript_eq_of_take Catalog.neverPutsBack_empty hle (by simp [hlen]) (by rw [htake, ← hlen, List.take_left])
  rw [hsame] at hasked
  omega

/-! ## Drafts -/

/-- **A fault names the first token that does not belong where it stands.**  Unless a source without an end of input ran
out, the fault of a draft without tags of its own is at the last token `t` that was asked for.  Whatever comes behind `t`,
fault and root are the same; and what comes before `t` goes on to tokens that are accepted, so nothing was at fault
there. -/
theorem Draft.first_fault (d : Draft) (hd : d.tags = .empty) (ts : List Token) (hts : EndsOnce ts) (f : ParseFault)
    (hf : (d.parseTokens ts).2.transcript.fault = some f)
    (hother : ¬(RanOut ts (d.parseTokens ts).2.transcript.asked ∧ f.cause = closedEarly)) :
    ∃ k t, k + 1 = min (d.parseTokens ts).2.transcript.asked ts.length ∧ ts[k]? = some t ∧ f.place = t.place ∧
      (∀ us : List Token, EndsOnce us → us.take (k + 1) = ts.take (k + 1) →
        (d.parseTokens us).2.transcript.fault = some f ∧ (d.parseTokens us).1.root = (d.parseTokens ts).1.root) ∧
      ∃ more : List Token, Plain more ∧ ∀ last : Token, last.kind = .endOfInput →
        (d.parseTokens (ts.take k ++ more ++ [last])).2.transcript.fault = none := by
  simp only [parseTokens, transcript_parseSupply, root_parseSupply, Supply.tokens_silent, hd] at hf hother ⊢
  obtain ⟨nodes, q, ht, hq⟩ := template_of_fault Catalog.neverPutsBack_empty hf
  obtain ⟨hfollows, hblame⟩ := blame_of_template ht
  rw [← hq] at hblame
  obtain ⟨k, t, hk, htk, hplace⟩ := exists_blamed hblame hother
  have hlt : k < ts.length := (List.getElem?_eq_some_iff.1 htk).1
  refine ⟨k, t, hk, htk, hplace, fun us hus htake => ?_, ?_⟩
  · rw [transcript_eq_of_ends hus hblame hother hk htake]
    exact ⟨hf, rfl⟩
  · have hasked : k < (Transcript.ofTokens .empty ts).asked :=
      Nat.lt_of_succ_le (Nat.le_trans (Nat.le_of_eq hk) (Nat.min_le_left ..))
    have hplain : Plain (ts.take k) := by
      refine fun u hu => ⟨hts.take hlt u hu, hfollows.earlier u ?_⟩
      rw [← hq]
      exact (List.take_subset_take_left ts (Nat.le_sub_one_of_lt hasked)) hu
    have hlen : (ts.take k).length = k := List.length_take_of_le (Nat.le_of_lt hlt)
    refine exists_completion (e := ⟨.endOfInput, "", .origin⟩) rfl hplain ?_
    rw [hlen]
    exact lt_asked_of_take hlen _ rfl hasked

def untitled : List Token :=
  [⟨.tagStart, "\x7b%", ⟨0, 1, 1⟩⟩, ⟨.blockWord, "block", ⟨3, 1, 4⟩⟩, ⟨.identifier, "a", ⟨9, 1, 10⟩⟩,
    ⟨.tagEnd, "%\x7d", ⟨11, 1, 12⟩⟩, ⟨.text, "x", ⟨13, 1, 14⟩⟩, ⟨.tagStart, "\x7b%", ⟨14, 1, 15⟩⟩,
    ⟨.blockWord, "block", ⟨17, 1, 18⟩⟩, ⟨.tagEnd, "%\x7d", ⟨23, 1, 24⟩⟩, ⟨.text, "y", ⟨25, 1, 26⟩⟩]

theorem transcript_untitled : (Transcript.ofTokens .empty untitled).fault =
      some ⟨⟨23, 1, 24⟩, .unexpected "block name" "right-delim '%\x7d'"⟩ ∧
    (Transcript.ofTokens .empty untitled).asked = 8 := by decide +kernel

theorem Draft.first_fault_untitled :
    ((fresh "t" .empty).parseTokens untitled).2.transcript.fault =
        some ⟨⟨23, 1, 24⟩, .unexpected "block name" "right-delim '%\x7d'"⟩ ∧
      (∀ us : List Token, EndsOnce us → us.take 8 = untitled.take 8 →
        ((fresh "t" .empty).parseTokens us).2.transcript.fault =
          some ⟨⟨23, 1, 24⟩, .unexpected "block name" "right-delim '%\x7d'"⟩) ∧
      ∃ more : List Token, Plain more ∧ ∀ last : Token, last.kind = .endOfInput →
        ((fresh "t" .empty).parseTokens (untitled.take 7 ++ more ++ [last])).2.transcript.fault = none := by
  obtain ⟨hfault, hasked⟩ := transcript_untitled
  rw [← Supply.tokens_silent untitled] at hfault hasked
  have hends : EndsOnce untitled := by
    unfold EndsOnce
    decide
  have hwithin : ¬RanOut untitled 8 := fun hran => absurd hran.1 (by decide)
  obtain ⟨k, t, hk, -, -, hsame, hmore⟩ := first_fault (fresh "t" .empty) rfl untitled hends _ hfault
    fun hran => hwithin (hasked ▸ hran.1)
  obtain rfl : k = 7 := Nat.succ.inj (hk.trans (congrArg (min · untitled.length) hasked))
  exact ⟨hfault, fun us hus htake => (hsame us hus htake).1, hmore⟩

end Stencil
