import Stencil.Proofs.LayoutGives
/-!
# Layouts, one behind the other

Where every tag that starts also ends, no closer does without its end, so the layout may stand before anything and another
layout can be put behind it.  At the seam the last item of the one and the first of the other may be texts that have
become one token; then they are one item.
-/
namespace Stencil
namespace Layout

variable {names : List String} {rest : List Token}

/-! ## Layouts that may stand before anything -/

/-- Behind every opening delimiter among these tokens a tag ends. -/
def TagsEnd (ts : List Token) : Prop :=
  ∀ before o behind, ts = before ++ o :: behind → o.kind = .tagStart → ∃ t ∈ behind, t.kind = .tagEnd

theorem TagsEnd.of_append {ts us : List Token} (h : TagsEnd (ts ++ us)) : TagsEnd us := by
  intro before o behind hus ho
  refine h (ts ++ before) o behind ?_ ho
  rw [hus, List.append_assoc]

theorem TagsEnd.of_cons {t : Token} {us : List Token} (h : TagsEnd (t :: us)) : TagsEnd us := by
  rw [← List.singleton_append] at h
  exact h.of_append

theorem TagsEnd.of_concat {us : List Token} {t : Token} (h : TagsEnd (us ++ [t])) (ht : t.kind ≠ .tagEnd) : TagsEnd us := by
  intro before o behind hus ho
  obtain ⟨u, hu, hk⟩ := h before o (behind ++ [t]) (by rw [hus, List.append_assoc, List.cons_append]) ho
  rcases List.mem_append.1 hu with hu | hu
  · exact ⟨u, hu, hk⟩
  · obtain rfl := List.mem_singleton.1 hu
    exact absurd hk ht

theorem Closer.fits_anywhere {word : String} {c : Closer word} (hf : c.Fits rest) (ht : TagsEnd (c.tokens ++ rest))
    (rest' : List Token) : c.Fits rest' := by
  intro hnone
  obtain rfl := hf hnone
  rw [List.append_nil, Closer.tokens, hnone, Option.toList_none, List.map_nil, List.append_nil] at ht
  obtain ⟨t, hmem, hk⟩ := ht [] c.opening.1 _ rfl c.opening.2
  rcases List.mem_cons.1 hmem with rfl | hmem
  · cases hk.symm.trans (kind_of_isWord c.name.2)
  · exact absurd hk (c.skipped.2 t hmem)

mutual

theorem Item.fits_anywhere : ∀ (i : Item names) (rest : List Token), i.Fits rest → TagsEnd (i.tokens ++ rest) →
    ∀ rest' : List Token, i.Fits rest'
  | .text _, _, _, _, _ => trivial
  | .tag _ tag, rest, hf, ht, rest' => tag.fits_anywhere rest hf ht.of_cons rest'

theorem fitsAll_anywhere : ∀ (is : List (Item names)) (rest : List Token), FitsAll is rest → TagsEnd (tokensOf is ++ rest) →
    ∀ rest' : List Token, FitsAll is rest'
  | [], _, _, _, _ => trivial
  | i :: is, rest, hf, ht, rest' => by
    rw [tokensOf, List.append_assoc] at ht
    exact ⟨i.fits_anywhere _ hf.1 ht _, fitsAll_anywhere is rest hf.2 ht.of_append rest'⟩

theorem Tag.fits_anywhere : ∀ (g : Tag names) (rest : List Token), g.Fits rest → TagsEnd (g.tokens ++ rest) →
    ∀ rest' : List Token, g.Fits rest'
  | .block keyword title closing body closer, rest, hf, ht, rest' => by
    have hbody : TagsEnd (tokensOf body ++ (closer.tokens ++ rest)) := by
      rw [← List.append_assoc]
      exact ht.of_cons.of_cons.of_cons
    exact ⟨fitsAll_anywhere body _ hf.1 hbody _, closer.fits_anywhere hf.2 hbody.of_append rest'⟩
  | .conditional keyword condition body ending, rest, hf, ht, rest' => by
    have hbody : TagsEnd (tokensOf body ++ (ending.tokens ++ rest)) := by
      rw [Tag.tokens, List.cons_append, List.append_assoc, List.append_assoc] at ht
      exact ht.of_cons.of_append
    exact ⟨fitsAll_anywhere body _ hf.1 hbody _, ending.fits_anywhere rest hf.2 hbody.of_append rest'⟩
  | .enclosing name h word skipped closing body closer, rest, hf, ht, rest' => by
    have hbody : TagsEnd (tokensOf body ++ (closer.tokens ++ rest)) := by
      rw [Tag.tokens, List.cons_append, List.append_assoc, List.cons_append, List.append_assoc] at ht
      exact ht.of_cons.of_append.of_cons
    exact ⟨fitsAll_anywhere body _ hf.1 hbody _, closer.fits_anywhere hf.2 hbody.of_append rest'⟩

theorem Ending.fits_anywhere : ∀ (ending : Ending names) (rest : List Token), ending.Fits rest →
    TagsEnd (ending.tokens ++ rest) → ∀ rest' : List Token, ending.Fits rest'
  | .close closer, _, hf, ht, rest' => closer.fits_anywhere hf ht rest'
  | .otherwise opening keyword closing body closer, rest, hf, ht, rest' => by
    have hbody : TagsEnd (tokensOf body ++ (closer.tokens ++ rest)) := by
      rw [← List.append_assoc]
      exact ht.of_cons.of_cons.of_cons
    exact ⟨fitsAll_anywhere body _ hf.1 hbody _, closer.fits_anywhere hf.2 hbody.of_append rest'⟩
  | .another opening keyword condition body ending, rest, hf, ht, rest' => by
    have hbody : TagsEnd (tokensOf body ++ (ending.tokens ++ rest)) := by
      rw [Ending.tokens, List.cons_append, List.cons_append, List.append_assoc, List.append_assoc] at ht
      exact ht.of_cons.of_cons.of_append
    exact ⟨fitsAll_anywhere body _ hf.1 hbody _, ending.fits_anywhere rest hf.2 hbody.of_append rest'⟩

end

/-! A closer that is followed by something has its end, so it may be followed by anything. -/

theorem Closer.fits_of_ne {word : String} {c : Closer word} (h : c.Fits rest) (hne : rest ≠ []) (rest' : List Token) :
    c.Fits rest' := fun hnone => absurd (h hnone) hne

theorem Ending.tokens_append_ne (e : Ending names) (ts : List Token) : e.tokens ++ ts ≠ [] := by
  cases e <;> exact List.cons_ne_nil _ _

mutual

theorem Item.fits_of_ne : ∀ (i : Item names) {rest : List Token}, i.Fits rest → rest ≠ [] → ∀ rest', i.Fits rest'
  | .text _, _, _, _, _ => trivial
  | .tag _ tag, _, h, hne, rest' => tag.fits_of_ne h hne rest'

theorem complete_of_ne : ∀ (is : List (Item names)) {rest : List Token}, FitsAll is rest → rest ≠ [] → Complete is
  | [], _, _, _, _ => trivial
  | i :: is, _, h, hne, rest' => ⟨i.fits_of_ne h.1 (by simp [hne]) _, complete_of_ne is h.2 hne rest'⟩

theorem Tag.fits_of_ne : ∀ (g : Tag names) {rest : List Token}, g.Fits rest → rest ≠ [] → ∀ rest', g.Fits rest'
  | .block _ _ _ body closer, _, h, hne, rest' =>
    ⟨complete_of_ne body h.1 (List.cons_ne_nil _ _) _, closer.fits_of_ne h.2 hne rest'⟩
  | .conditional _ _ body ending, _, h, hne, rest' =>
    ⟨complete_of_ne body h.1 (ending.tokens_append_ne _) _, ending.fits_of_ne h.2 hne rest'⟩
  | .enclosing _ _ _ _ _ body closer, _, h, hne, rest' =>
    ⟨complete_of_ne body h.1 (List.cons_ne_nil _ _) _, closer.fits_of_ne h.2 hne rest'⟩

theorem Ending.fits_of_ne : ∀ (e : Ending names) {rest : List Token}, e.Fits rest → rest ≠ [] → ∀ rest', e.Fits rest'
  | .close closer, _, h, hne, rest' => closer.fits_of_ne h hne rest'
  | .otherwise _ _ _ body closer, _, h, hne, rest' =>
    ⟨complete_of_ne body h.1 (List.cons_ne_nil _ _) _, closer.fits_of_ne h.2 hne rest'⟩
  | .another _ _ _ body ending, _, h, hne, rest' =>
    ⟨complete_of_ne body h.1 (ending.tokens_append_ne _) _, ending.fits_of_ne h.2 hne rest'⟩

end

/-! ## The last token of a tag -/

/-- Tokens that come to the end of a tag. -/
def EndsTag (ts : List Token) : Prop := ∃ us t, ts = us ++ [t] ∧ t.kind = .tagEnd

theorem EndsTag.append {ts : List Token} (us : List Token) (h : EndsTag ts) : EndsTag (us ++ ts) := by
  obtain ⟨vs, t, rfl, hk⟩ := h
  exact ⟨us ++ vs, t, (List.append_assoc ..).symm, hk⟩

theorem EndsTag.cons {ts : List Token} (t : Token) (h : EndsTag ts) : EndsTag (t :: ts) := h.append [t]

theorem Closer.endsTag {word : String} {c : Closer word} {t : Token} (h : c.Fits (t :: rest)) : EndsTag c.tokens := by
  cases hc : c.closing with
  | none => exact absurd (h hc) (List.cons_ne_nil t rest)
  | some e =>
    refine ⟨c.opening.1 :: c.name.1 :: c.skipped.1, e.1, ?_, e.2⟩
    rw [Closer.tokens, hc]
    rfl

theorem Ending.endsTag {t : Token} : ∀ ending : Ending names, ending.Fits (t :: rest) → EndsTag ending.tokens
  | .close _, h => Closer.endsTag h
  | .otherwise _ _ _ _ _, h => (((Closer.endsTag h.2).append _).cons _).cons _ |>.cons _
  | .another _ _ _ _ ending, h => (((ending.endsTag h.2).append _).append _).cons _ |>.cons _

theorem Tag.endsTag {t : Token} : ∀ g : Tag names, g.Fits (t :: rest) → EndsTag g.tokens
  | .block _ _ _ _ _, h => (((Closer.endsTag h.2).append _).cons _).cons _ |>.cons _
  | .conditional _ _ _ ending, h => (((ending.endsTag h.2).append _).append _).cons _
  | .enclosing _ _ _ _ _ _ _, h => ((((Closer.endsTag h.2).append _).cons _).append _).cons _

/-! ## One behind the other -/

theorem tokensOf_append : ∀ is js : List (Item names), tokensOf (is ++ js) = tokensOf is ++ tokensOf js
  | [], _ => rfl
  | i :: is, js => by rw [List.cons_append, tokensOf, tokensOf, tokensOf_append is js, List.append_assoc]

theorem nodesOf_append : ∀ is js : List (Item names), nodesOf (is ++ js) = nodesOf is ++ nodesOf js
  | [], _ => rfl
  | i :: is, js => congrArg (i.node :: ·) (nodesOf_append is js)

theorem fitsAll_append : ∀ is js : List (Item names),
    FitsAll (is ++ js) rest ↔ FitsAll is (tokensOf js ++ rest) ∧ FitsAll js rest
  | [], _ => ⟨fun h => ⟨trivial, h⟩, fun h => h.2⟩
  | i :: is, js => by
    rw [List.cons_append, FitsAll, FitsAll, fitsAll_append is js, tokensOf_append, List.append_assoc, and_assoc]

variable {us vs : List Token} {is js : List (Item names)}

theorem Derives.append (hi : Derives us is) (ht : TagsEnd us) (hj : Derives vs js) : Derives (us ++ vs) (is ++ js) where
  spells := by rw [tokensOf_append, hi.spells, hj.spells]
  fits := by
    refine (fitsAll_append is js).2 ⟨fitsAll_anywhere is [] hi.fits ?_ _, hj.fits⟩
    rwa [List.append_nil, hi.spells]

/-- A layout whose tokens start with a text starts with that text. -/
theorem Derives.exists_first {v : Token} (h : Derives (v :: vs) js) (hv : v.kind = .text) :
    ∃ js', js = .text ⟨v, hv⟩ :: js' ∧ Derives vs js' := by
  obtain ⟨hspells, hfits⟩ := h
  cases js with
  | nil => cases hspells
  | cons j js =>
    cases j with
    | text t =>
      obtain ⟨rfl, rfl⟩ := List.cons.inj hspells
      exact ⟨js, rfl, rfl, hfits.2⟩
    | tag opening =>
      obtain ⟨rfl, -⟩ := List.cons.inj hspells
      cases hv.symm.trans opening.2

/-- A layout whose tokens end with a text ends with that text. -/
theorem Derives.exists_last {t : Token} (h : Derives (us ++ [t]) is) (ht : TagsEnd (us ++ [t])) (hk : t.kind = .text) :
    ∃ is', is = is' ++ [.text ⟨t, hk⟩] ∧ Derives us is' := by
  obtain ⟨hspells, hfits⟩ := h
  rcases List.eq_nil_or_concat is with rfl | ⟨is, i, rfl⟩
  · exact absurd hspells (by simp [tokensOf])
  rw [List.concat_eq_append] at hspells hfits ⊢
  have hends : TagsEnd (tokensOf is ++ tokensOf [i]) := by rwa [← tokensOf_append, hspells]
  have hi := (fitsAll_append is [i]).1 hfits
  rw [tokensOf_append, tokensOf, tokensOf, List.append_nil] at hspells
  cases i with
  | text u =>
    obtain ⟨rfl, hu⟩ := List.append_inj' hspells rfl
    obtain rfl := List.singleton_inj.1 hu
    rw [List.append_nil] at hi
    exact ⟨is, rfl, rfl, fitsAll_anywhere is _ hi.1 hends []⟩
  | tag opening tag =>
    have hlast : TagsEnd (opening.1 :: (tag.tokens ++ [])) := hends.of_append
    have hfit : tag.Fits [t] := tag.fits_anywhere _ hi.2.1 hlast.of_cons [t]
    obtain ⟨vs, e, htag, he⟩ := (tag.endsTag hfit).cons opening.1
    rw [show (Item.tag opening tag).tokens = vs ++ [e] from htag, ← List.append_assoc] at hspells
    obtain ⟨-, het⟩ := List.append_inj' hspells rfl
    obtain rfl := List.singleton_inj.1 het
    cases hk.symm.trans he

end Layout
end Stencil
