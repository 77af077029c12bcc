import Stencil.Proofs.Judgement
import Stencil.Proofs.Layout
import Stencil.Transcript
/-!
# Conditions, read

A condition is read exactly where every token before the closing delimiter stands for a part of one; the first that does
not is its fault.
-/
namespace Stencil
namespace Layout

theorem operand_eq_ok_iff {t : Token} {node : Node} : t.operand = .ok node ↔ Stands t node := by
  constructor
  · intro h
    unfold Token.operand at h
    split at h
    · rename_i hk
      cases h
      exact .string t hk
    · rename_i hk
      split at h
      · rename_i n hn
        cases h
        exact .number t hk n (readWord?_eq_some_iff.1 hn)
      · cases h
    · rename_i hk
      split at h
      · rename_i c hc
        cases h
        exact .comparison t hk c (Comparison.ofSymbol?_eq_some_iff.1 hc)
      · cases h
    · rename_i hk
      cases h
      exact .name t hk
    · cases h
    · cases h
  · intro h
    cases h with
    | string hk => simp [Token.operand, hk]
    | number hk n hn => simp [Token.operand, hk, readWord?_eq_some_iff.2 hn]
    | comparison hk c hc => simp [Token.operand, hk, Comparison.ofSymbol?_eq_some_iff.2 hc]
    | name hk => simp [Token.operand, hk]

theorem Stands.unique {t : Token} {m n : Node} (hm : Stands t m) (hn : Stands t n) : m = n :=
  Except.ok.inj ((operand_eq_ok_iff.2 hm).symm.trans (operand_eq_ok_iff.2 hn))

theorem Stands.kind_ne_tagEnd {t : Token} {n : Node} (h : Stands t n) : t.kind ≠ .tagEnd := by
  cases h with
  | string h | number h | comparison h | name h => simp [h]

theorem Stands.kind_ne_error {t : Token} {n : Node} (h : Stands t n) : t.kind ≠ .error := by
  cases h with
  | string h | number h | comparison h | name h => simp [h]

theorem Part.eq_of_token_eq {a b : Part} (h : a.token = b.token) : a = b := by
  obtain ⟨t, n, hn⟩ := a
  obtain ⟨u, m, hm⟩ := b
  obtain rfl : t = u := h
  obtain rfl := hn.unique hm
  rfl

theorem faces_condition : ∀ (ps : List Part) (closing : TokenOf .tagEnd) (rest : List Token) (f : Feed),
    f.Faces (Condition.tokens ⟨ps, closing⟩ ++ rest) →
      ∃ g, f.condition = (.ok (Condition.nodes ⟨ps, closing⟩), g) ∧ g.Faces rest
  | [], closing, rest, f, h => by
    obtain ⟨g, hn, hg, -⟩ := h.next_cons
    refine ⟨g, ?_, hg⟩
    rw [Feed.condition]
    split
    · rename_i heq
      rw [hn] at heq
      cases heq
    · rename_i heq
      rw [hn] at heq
      cases heq
      rw [if_pos closing.2]
      rfl
  | p :: ps, closing, rest, f, h => by
    obtain ⟨g, hn, hg, -⟩ := h.next_cons
    obtain ⟨g', hc, hg'⟩ := faces_condition ps closing rest g hg
    have hp := operand_eq_ok_iff.2 p.stands
    refine ⟨g', ?_, hg'⟩
    rw [Feed.condition]
    split
    · rename_i heq
      rw [hn] at heq
      cases heq
    · rename_i heq
      rw [hn] at heq
      cases heq
      rw [if_neg p.stands.kind_ne_tagEnd]
      split
      · rename_i ho
        cases hp.symm.trans ho
      · rename_i node ho
        cases hp.symm.trans ho
        rw [hc]
        rfl

theorem gives_condition (c : Condition) (rest : List Token) :
    Reading.condition.Gives (c.tokens ++ rest) c.nodes rest :=
  Reading.gives_ofFeed fun f h => faces_condition c.parts c.closing rest f h

theorem condition_of_faces : ∀ (ts : List Token) (f g : Feed) (nodes : List Node), f.Faces ts →
    f.condition = (.ok nodes, g) →
      ∃ (c : Condition) (rest : List Token), g.Faces rest ∧ ts = c.tokens ++ rest ∧ nodes = c.nodes
  | [], f, g, nodes, h, hc => by
    obtain ⟨e, f', hn, he, hf⟩ := h.next_nil
    have ho : e.operand = .error (e.endedBefore "'%\x7d'") := by simp [Token.operand, he]
    rw [Feed.condition] at hc
    split at hc
    · cases hc
    · rename_i heq
      rw [hn] at heq
      cases heq
      rw [if_neg (by simp [he])] at hc
      split at hc
      · cases hc
      · rename_i node hok
        cases ho.symm.trans hok
  | t :: ts, f, g, nodes, h, hc => by
    obtain ⟨f', hn, hf, -⟩ := h.next_cons
    rw [Feed.condition] at hc
    split at hc
    · cases hc
    · rename_i heq
      rw [hn] at heq
      cases heq
      by_cases ht : t.kind = .tagEnd
      · rw [if_pos ht] at hc
        cases hc
        exact ⟨⟨[], ⟨t, ht⟩⟩, ts, hf, rfl, rfl⟩
      · rw [if_neg ht] at hc
        split at hc
        · cases hc
        · rename_i node hok
          split at hc
          · rename_i nodes' g' hrec
            cases hc
            obtain ⟨c, rest, hg, hts, hnodes⟩ := condition_of_faces ts f' g nodes' hf hrec
            refine ⟨⟨⟨t, node, operand_eq_ok_iff.1 hok⟩ :: c.parts, c.closing⟩, rest, hg, ?_, ?_⟩
            · rw [hts]
              rfl
            · rw [hnodes]
              rfl
          · cases hc

theorem ensures_condition (ts : List Token) :
    Reading.condition.Ensures ts (fun nodes rest => ∃ c : Condition, ts = c.tokens ++ rest ∧ nodes = c.nodes) := by
  intro p q nodes hp h
  unfold Reading.condition at h
  rw [Reading.run_ofFeed] at h
  split at h
  · rename_i nodes' g hc
    cases h
    obtain ⟨c, rest, hg, hts, hnodes⟩ := condition_of_faces ts p.feed g nodes hp hc
    exact ⟨rest, hg, c, hts, hnodes⟩
  · cases h

/-! ## The fault of a condition -/

/-- Behind some parts the first token that is no part is the fault of a condition, whatever comes after it. -/
theorem condition_of_operand_error {t : Token} {e : ParseFault} (hkind : t.kind ≠ .error ∧ t.kind ≠ .tagEnd)
    (he : t.operand = .error e) (rest : List Token) : ∀ (ps : List Part) (f : Feed),
    f.upcoming = ps.map (·.token) ++ t :: rest → ∃ g, f.condition = (.error e, g)
  | [], f, h => by
    obtain ⟨g, hn, -⟩ := Feed.next_of_upcoming h hkind.1
    refine ⟨g, ?_⟩
    rw [Feed.condition_eq, hn]
    simp only [if_neg hkind.2, he]
  | p :: ps, f, h => by
    obtain ⟨g, hn, hg, -⟩ := Feed.next_of_upcoming h p.stands.kind_ne_error
    obtain ⟨g', hc⟩ := condition_of_operand_error hkind he rest ps g hg
    refine ⟨g', ?_⟩
    rw [Feed.condition_eq, hn]
    simp only [if_neg p.stands.kind_ne_tagEnd, operand_eq_ok_iff.2 p.stands, hc]

end Layout

open Layout in
/-- The first token that is no part of the condition is the fault of a template that starts with a conditional. -/
theorem fault_of_condition (tags : Catalog) {opener keyword t : Token} (hopener : opener.kind = .tagStart)
    (hkeyword : keyword.kind = .ifWord) (ps : List Part) {e : ParseFault}
    (hkind : t.kind ≠ .error ∧ t.kind ≠ .tagEnd) (he : t.operand = .error e) (rest : List Token) :
    (Transcript.ofTokens tags (opener :: keyword :: (ps.map (·.token) ++ t :: rest))).fault = some e := by
  generalize hts : opener :: keyword :: (ps.map (·.token) ++ t :: rest) = ts
  obtain ⟨n, hn⟩ : ∃ n, Transcript.rounds ts.length = n + 3 := by
    have hlt := Transcript.lt_rounds ts.length
    have hlen : 3 ≤ ts.length := by
      rw [← hts]
      simp
      omega
    exact ⟨Transcript.rounds ts.length - 3, by omega⟩
  have hup : (Feed.ofTokens ts).upcoming = opener :: keyword :: (ps.map (·.token) ++ t :: rest) := hts.symm
  obtain ⟨f, hf, hfUp, -⟩ := Feed.next_of_upcoming hup (by simp [hopener])
  obtain ⟨g, hg, hgUp, -⟩ := Feed.next_of_upcoming hfUp (by simp [hkeyword])
  obtain ⟨g', hg'⟩ := condition_of_operand_error hkind he rest ps g hgUp
  have hconditional : (Reading.conditional tags (n + 1) keyword).run ⟨g, []⟩ = .failed e ⟨g', []⟩ := by
    rw [Reading.conditional, Reading.run_bind, Reading.condition, Reading.run_ofFeed, hg']
  have htag : (Reading.tag tags (n + 2)).run ⟨f, []⟩ = .failed e ⟨g', []⟩ := by
    rw [Reading.tag, Reading.run_bind, Reading.next, Reading.run_ofFeed, hg]
    simp only [hkeyword]
    exact hconditional
  have htemplate : Reading.template tags (n + 3) ⟨.ofTokens ts, []⟩ = ([], .failed e ⟨g', []⟩) := by
    rw [Reading.template, Reading.next, Reading.run_ofFeed, hf]
    simp only [hopener, htag]
  rw [Transcript.ofTokens, hn, htemplate]
  rfl

end Stencil
