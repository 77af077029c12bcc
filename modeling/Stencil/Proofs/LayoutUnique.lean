import Stencil.Proofs.LayoutGives
/-!
# A template has one layout

Two layouts that spell the same tokens, up to where they end, are the same layout.  Wherever a body goes on with an item
the other one cannot end, because no ending starts as an item does (`Stops`).  This is about layouts without names of
one's own.
-/
namespace Stencil
namespace Layout

/-! ## Closers and conditions -/

theorem Skipped.unique : ∀ (s t : List Token) (p q : Option (TokenOf .tagEnd)) (x y : List Token),
    s ++ (p.toList.map (·.1) ++ x) = t ++ (q.toList.map (·.1) ++ y) → (∀ u ∈ s, u.kind ≠ .tagEnd) →
      (∀ u ∈ t, u.kind ≠ .tagEnd) → (p = none → x = []) → (q = none → y = []) → s = t ∧ p = q ∧ x = y
  | [], [], some p, some q, x, y, h, _, _, _, _ => by
    obtain ⟨hpq, hxy⟩ := List.cons.inj h
    exact ⟨rfl, congrArg some (Subtype.ext hpq), hxy⟩
  | [], [], some p, none, x, y, h, _, _, _, hq => by
    rw [hq rfl] at h
    cases h
  | [], [], none, some q, x, y, h, _, _, hp, _ => by
    rw [hp rfl] at h
    cases h
  | [], [], none, none, x, y, h, _, _, _, _ => ⟨rfl, rfl, h⟩
  | [], u :: t, some p, q, x, y, h, _, ht, _, _ => by
    obtain ⟨hpu, -⟩ := List.cons.inj h
    exact absurd (hpu ▸ p.2) (ht u List.mem_cons_self)
  | [], u :: t, none, q, x, y, h, _, _, hp, _ => by
    rw [hp rfl] at h
    cases h
  | u :: s, [], p, some q, x, y, h, hs, _, _, _ => by
    obtain ⟨huq, -⟩ := List.cons.inj h
    exact absurd (huq ▸ q.2) (hs u List.mem_cons_self)
  | u :: s, [], p, none, x, y, h, _, _, _, hq => by
    rw [hq rfl] at h
    cases h
  | u :: s, v :: t, p, q, x, y, h, hs, ht, hp, hq => by
    obtain ⟨rfl, htail⟩ := List.cons.inj h
    obtain ⟨rfl, hpq, hxy⟩ := Skipped.unique s t p q x y htail (fun w hw => hs w (List.mem_cons_of_mem u hw))
      (fun w hw => ht w (List.mem_cons_of_mem u hw)) hp hq
    exact ⟨rfl, hpq, hxy⟩

theorem Closer.unique {word : String} {c d : Closer word} {x y : List Token} (h : c.tokens ++ x = d.tokens ++ y)
    (hc : c.Fits x) (hd : d.Fits y) : c = d ∧ x = y := by
  obtain ⟨co, cn, cs, cc⟩ := c
  obtain ⟨do', dn, ds, dc⟩ := d
  obtain ⟨ho, h⟩ := List.cons.inj h
  obtain ⟨hn, h⟩ := List.cons.inj h
  rw [List.append_eq, List.append_assoc, List.append_eq, List.append_assoc] at h
  obtain ⟨hs, hcl, hxy⟩ := Skipped.unique cs.1 ds.1 cc dc x y h cs.2 ds.2 hc hd
  obtain rfl := Subtype.ext ho
  obtain rfl := Subtype.ext hn
  obtain rfl := Subtype.ext hs
  exact ⟨by rw [hcl], hxy⟩

theorem parts_unique : ∀ (ps qs : List Part) (c d : TokenOf .tagEnd) (x y : List Token),
    ps.map (·.token) ++ c.1 :: x = qs.map (·.token) ++ d.1 :: y → ps = qs ∧ c = d ∧ x = y
  | [], [], c, d, x, y, h => by
    obtain ⟨hcd, hxy⟩ := List.cons.inj h
    exact ⟨rfl, Subtype.ext hcd, hxy⟩
  | [], q :: qs, c, d, x, y, h => by
    obtain ⟨hcq, -⟩ := List.cons.inj h
    have hq : q.token.kind = .tagEnd := (congrArg Token.kind hcq).symm.trans c.2
    exact absurd hq q.stands.kind_ne_tagEnd
  | p :: ps, [], c, d, x, y, h => by
    obtain ⟨hpd, -⟩ := List.cons.inj h
    have hp : p.token.kind = .tagEnd := (congrArg Token.kind hpd).trans d.2
    exact absurd hp p.stands.kind_ne_tagEnd
  | p :: ps, q :: qs, c, d, x, y, h => by
    obtain ⟨hpq, h⟩ := List.cons.inj h
    obtain ⟨rfl, hcd, hxy⟩ := parts_unique ps qs c d x y h
    exact ⟨by rw [Part.eq_of_token_eq hpq], hcd, hxy⟩

theorem Condition.unique {c d : Condition} {x y : List Token} (h : c.tokens ++ x = d.tokens ++ y) : c = d ∧ x = y := by
  obtain ⟨ps, cc⟩ := c
  obtain ⟨qs, dc⟩ := d
  simp only [Condition.tokens, List.append_assoc, List.singleton_append] at h
  obtain ⟨rfl, rfl, hxy⟩ := parts_unique ps qs cc dc x y h
  exact ⟨rfl, hxy⟩

/-! ## Where items end -/

/-- Tokens that start no item. -/
def Stops : List Token → Prop
  | [] => True
  | [t] => t.kind ≠ .text
  | t :: u :: _ => t.kind ≠ .text ∧ u.kind ≠ .blockWord ∧ u.kind ≠ .ifWord

theorem Closer.stops {word : String} (c : Closer word) (x : List Token) : Stops (c.tokens ++ x) := by
  have ho := c.opening.2
  have hn := kind_of_isWord c.name.2
  exact ⟨by simp [ho], by simp [hn], by simp [hn]⟩

theorem Ending.stops {names : List String} (e : Ending names) (x : List Token) : Stops (e.tokens ++ x) := by
  cases e with
  | close c => exact c.stops x
  | otherwise opening keyword => exact ⟨by simp [opening.2], by simp [keyword.2], by simp [keyword.2]⟩
  | another opening keyword => exact ⟨by simp [opening.2], by simp [keyword.2], by simp [keyword.2]⟩

theorem Item.not_stops (i : Item []) (x : List Token) : ¬ Stops (i.tokens ++ x) := by
  intro h
  cases i with
  | text t =>
    cases x with
    | nil => exact h t.2
    | cons u x => exact h.1 t.2
  | tag opening g =>
    cases g with
    | block keyword => exact h.2.1 keyword.2
    | conditional keyword => exact h.2.2 keyword.2
    | enclosing name hname => cases hname

/-! ## What tells layouts apart -/

variable {names : List String} {x y : List Token}

def Item.lead : Item names → Kind
  | .text _ => .text
  | .tag _ _ => .tagStart

def Tag.lead : Tag names → Kind
  | .block _ _ _ _ _ => .blockWord
  | .conditional _ _ _ _ => .ifWord
  | .enclosing _ _ _ _ _ _ _ => .identifier

def Ending.lead : Ending names → Kind
  | .close _ => .identifier
  | .otherwise _ _ _ _ _ => .elseWord
  | .another _ _ _ _ _ => .elifWord

theorem Item.exists_lead (i : Item names) : ∃ t ts, i.tokens = t :: ts ∧ t.kind = i.lead := by
  cases i with
  | text t => exact ⟨t.1, [], rfl, t.2⟩
  | tag opening g => exact ⟨opening.1, g.tokens, rfl, opening.2⟩

theorem Tag.exists_lead (g : Tag names) : ∃ t ts, g.tokens = t :: ts ∧ t.kind = g.lead := by
  cases g with
  | block keyword => exact ⟨keyword.1, _, rfl, keyword.2⟩
  | conditional keyword => exact ⟨keyword.1, _, rfl, keyword.2⟩
  | enclosing _ _ word => exact ⟨word.1, _, rfl, kind_of_isWord word.2⟩

theorem Ending.exists_lead (e : Ending names) : ∃ o t ts, e.tokens = o :: t :: ts ∧ t.kind = e.lead := by
  cases e with
  | close c => exact ⟨c.opening.1, c.name.1, _, rfl, kind_of_isWord c.name.2⟩
  | otherwise opening keyword => exact ⟨opening.1, keyword.1, _, rfl, keyword.2⟩
  | another opening keyword => exact ⟨opening.1, keyword.1, _, rfl, keyword.2⟩

theorem Item.lead_eq {i j : Item names} (h : i.tokens ++ x = j.tokens ++ y) : i.lead = j.lead := by
  obtain ⟨t, ts, hi, ht⟩ := i.exists_lead
  obtain ⟨u, us, hj, hu⟩ := j.exists_lead
  rw [hi, hj] at h
  rw [← ht, ← hu, (List.cons.inj h).1]

theorem Tag.lead_eq {g k : Tag names} (h : g.tokens ++ x = k.tokens ++ y) : g.lead = k.lead := by
  obtain ⟨t, ts, hg, ht⟩ := g.exists_lead
  obtain ⟨u, us, hk, hu⟩ := k.exists_lead
  rw [hg, hk] at h
  rw [← ht, ← hu, (List.cons.inj h).1]

theorem Ending.lead_eq {e f : Ending names} (h : e.tokens ++ x = f.tokens ++ y) : e.lead = f.lead := by
  obtain ⟨o, t, ts, he, ht⟩ := e.exists_lead
  obtain ⟨p, u, us, hf, hu⟩ := f.exists_lead
  rw [he, hf] at h
  rw [← ht, ← hu, (List.cons.inj (List.cons.inj h).2).1]

/-! ## The induction -/

mutual

theorem Item.unique : ∀ (i j : Item []) (x y : List Token), i.tokens ++ x = j.tokens ++ y → i.Fits x → j.Fits y →
    i = j ∧ x = y
  | .text t, .text u, x, y, h, _, _ => by
    obtain ⟨htu, hxy⟩ := List.cons.inj h
    exact ⟨by rw [Subtype.ext htu], hxy⟩
  | .text _, .tag _ _, _, _, h, _, _ => by cases Item.lead_eq h
  | .tag _ _, .text _, _, _, h, _, _ => by cases Item.lead_eq h
  | .tag o g, .tag p k, x, y, h, hg, hk => by
    obtain ⟨hop, htag⟩ := List.cons.inj h
    obtain ⟨rfl, hxy⟩ := Tag.unique g k x y htag hg hk
    exact ⟨by rw [Subtype.ext hop], hxy⟩

theorem items_unique : ∀ (is js : List (Item [])) (x y : List Token), tokensOf is ++ x = tokensOf js ++ y →
    FitsAll is x → FitsAll js y → Stops x → Stops y → is = js ∧ x = y
  | [], [], _, _, h, _, _, _, _ => ⟨rfl, h⟩
  | [], j :: js, x, y, h, _, _, hx, _ => by
    rw [tokensOf, tokensOf, List.append_assoc, List.nil_append] at h
    rw [h] at hx
    exact absurd hx (j.not_stops _)
  | i :: is, [], x, y, h, _, _, _, hy => by
    rw [tokensOf, tokensOf, List.append_assoc, List.nil_append] at h
    rw [← h] at hy
    exact absurd hy (i.not_stops _)
  | i :: is, j :: js, x, y, h, hi, hj, hx, hy => by
    rw [tokensOf, tokensOf, List.append_assoc, List.append_assoc] at h
    obtain ⟨rfl, hrest⟩ := Item.unique i j _ _ h hi.1 hj.1
    obtain ⟨rfl, hxy⟩ := items_unique is js x y hrest hi.2 hj.2 hx hy
    exact ⟨rfl, hxy⟩

theorem Tag.unique : ∀ (g k : Tag []) (x y : List Token), g.tokens ++ x = k.tokens ++ y → g.Fits x → k.Fits y →
    g = k ∧ x = y
  | .block kw title cl is c, .block kw' title' cl' js d, x, y, h, hg, hk => by
    simp only [Tag.tokens, List.cons_append, List.append_assoc, List.cons.injEq] at h
    obtain ⟨h1, h2, h3, h⟩ := h
    obtain ⟨rfl, hend⟩ := items_unique is js _ _ h hg.1 hk.1 (c.stops x) (d.stops y)
    obtain ⟨rfl, hxy⟩ := Closer.unique hend hg.2 hk.2
    exact ⟨by rw [Subtype.ext h1, Subtype.ext h2, Subtype.ext h3], hxy⟩
  | .block _ _ _ _ _, .conditional _ _ _ _, _, _, h, _, _ => by cases Tag.lead_eq h
  | .conditional _ _ _ _, .block _ _ _ _ _, _, _, h, _, _ => by cases Tag.lead_eq h
  | .conditional kw c is e, .conditional kw' d js f, x, y, h, hg, hk => by
    simp only [Tag.tokens, List.cons_append, List.append_assoc, List.cons.injEq] at h
    obtain ⟨h1, h⟩ := h
    obtain ⟨rfl, hbody⟩ := Condition.unique h
    obtain ⟨rfl, hend⟩ := items_unique is js _ _ hbody hg.1 hk.1 (e.stops x) (f.stops y)
    obtain ⟨rfl, hxy⟩ := Ending.unique e f x y hend hg.2 hk.2
    exact ⟨by rw [Subtype.ext h1], hxy⟩
  | .enclosing _ hname _ _ _ _ _, _, _, _, _, _, _ => by cases hname
  | _, .enclosing _ hname _ _ _ _ _, _, _, _, _, _ => by cases hname

theorem Ending.unique : ∀ (e f : Ending []) (x y : List Token), e.tokens ++ x = f.tokens ++ y → e.Fits x → f.Fits y →
    e = f ∧ x = y
  | .close c, .close d, x, y, h, he, hf => by
    obtain ⟨rfl, hxy⟩ := Closer.unique h he hf
    exact ⟨rfl, hxy⟩
  | .otherwise o kw cl is c, .otherwise o' kw' cl' js d, x, y, h, he, hf => by
    simp only [Ending.tokens, List.cons_append, List.append_assoc, List.cons.injEq] at h
    obtain ⟨h1, h2, h3, h⟩ := h
    obtain ⟨rfl, hend⟩ := items_unique is js _ _ h he.1 hf.1 (c.stops x) (d.stops y)
    obtain ⟨rfl, hxy⟩ := Closer.unique hend he.2 hf.2
    exact ⟨by rw [Subtype.ext h1, Subtype.ext h2, Subtype.ext h3], hxy⟩
  | .another o kw c is e, .another o' kw' d js f, x, y, h, he, hf => by
    simp only [Ending.tokens, List.cons_append, List.append_assoc, List.cons.injEq] at h
    obtain ⟨h1, h2, h⟩ := h
    obtain ⟨rfl, hbody⟩ := Condition.unique h
    obtain ⟨rfl, hend⟩ := items_unique is js _ _ hbody he.1 hf.1 (e.stops x) (f.stops y)
    obtain ⟨rfl, hxy⟩ := Ending.unique e f x y hend he.2 hf.2
    exact ⟨by rw [Subtype.ext h1, Subtype.ext h2], hxy⟩
  | .close _, .otherwise _ _ _ _ _, _, _, h, _, _ => by cases Ending.lead_eq h
  | .close _, .another _ _ _ _ _, _, _, h, _, _ => by cases Ending.lead_eq h
  | .otherwise _ _ _ _ _, .close _, _, _, h, _, _ => by cases Ending.lead_eq h
  | .otherwise _ _ _ _ _, .another _ _ _ _ _, _, _, h, _, _ => by cases Ending.lead_eq h
  | .another _ _ _ _ _, .close _, _, _, h, _, _ => by cases Ending.lead_eq h
  | .another _ _ _ _ _, .otherwise _ _ _ _ _, _, _, h, _, _ => by cases Ending.lead_eq h

end

/-- Tokens have at most one layout. -/
theorem Derives.unique {ts : List Token} {is js : List (Item [])} (hi : Derives ts is) (hj : Derives ts js) :
    is = js := by
  have h : tokensOf is ++ [] = tokensOf js ++ [] := by rw [hi.spells, hj.spells]
  exact (items_unique is js [] [] h hi.fits hj.fits trivial trivial).1

end Layout
end Stencil
