import Stencil.Proofs.Neighbours
import Stencil.Proofs.Written
/-!
# The shape of what is read

Whatever is read from a source can be written out again: no text is empty or stands next to another one, since no token
of text is or does; a block has a name, since its token is one; what stands in a condition is a literal, a name or a
comparison; and groups are nowhere but in what a conditional does otherwise.
-/
namespace Stencil

open Layout

variable {source : String}

theorem isOperand_of_stands {t : Token} {n : Node} (hstands : Stands t n) (h : t ∈ scan source) : IsOperand n := by
  cases hstands with
  | string => exact .string
  | number => exact .int
  | comparison => exact .comparison
  | name ht => exact .ident (scan_isName h ht)

theorem isOperand_of_condition {c : Condition} (h : c.tokens <:+: scan source) : ∀ n ∈ c.nodes, IsOperand n := by
  intro n hn
  obtain ⟨p, hp, rfl⟩ := List.mem_map.1 hn
  exact isOperand_of_stands p.stands (h.subset (List.mem_append_left _ (List.mem_map_of_mem hp)))

theorem head_ne_text {t : TokenOf .text} : ∀ {is : List (Item [])}, t.1 :: tokensOf is <:+: scan source →
    ∀ start s, (nodesOf is).head? ≠ some (.text start s)
  | [], _, _, _ => nofun
  | .tag opening tag :: is, _, _, _ => by cases tag <;> exact fun h => by cases h
  | .text u :: is, h, _, _ => by
    have hneighbours : [t.1, u.1] <:+: scan source := (List.prefix_append [t.1, u.1] (tokensOf is)).isInfix.trans h
    exact absurd ⟨t.2, u.2⟩ ((scans_scan source).textsApart _ _ hneighbours)

mutual

theorem writable_items : ∀ (is : List (Item [])), tokensOf is <:+: scan source → Writable (nodesOf is)
  | [], _ => .nil
  | .text t :: is, h => by
    have ht := (scans_scan source).isText t.1 (h.subset List.mem_cons_self) t.2
    exact .text ht.ne ht.plain (head_ne_text h) (writable_items is ((List.suffix_cons t.1 _).isInfix.trans h))
  | .tag opening (.block keyword title closing body closer) :: is, h => by
    have htag : opening.1 :: keyword.1 :: title.1 :: closing.1 :: (tokensOf body ++ closer.tokens) <:+: scan source :=
      (List.prefix_append _ _).isInfix.trans h
    have hname := scan_isName (htag.subset (by simp)) title.2
    have hbody := writable_items body
      ((List.infix_append' [opening.1, keyword.1, title.1, closing.1] (tokensOf body) closer.tokens).trans htag)
    exact .block hname hbody (writable_items is ((List.suffix_append _ _).isInfix.trans h))
  | .tag opening (.conditional keyword condition body ending) :: is, h => by
    have htag : [opening.1, keyword.1] ++ (condition.tokens ++ (tokensOf body ++ ending.tokens)) <:+: scan source :=
      (List.prefix_append _ _).isInfix.trans h
    obtain ⟨hcs, hbs, hes⟩ := infix_parts ((List.suffix_append _ _).isInfix.trans htag)
    exact writable_ending ending hes (isOperand_of_condition hcs) (writable_items body hbs)
      (writable_items is ((List.suffix_append _ _).isInfix.trans h))
  | .tag _ (.enclosing _ h _ _ _ _ _) :: _, _ => by cases h

theorem writable_ending : ∀ (ending : Layout.Ending []), ending.tokens <:+: scan source →
    ∀ {start : Nat} {condition body nodes : List Node}, (∀ n ∈ condition, IsOperand n) → Writable body → Writable nodes →
      Writable (.conditional start condition body ending.node :: nodes)
  | .close _, _, _, _, _, _, hcondition, hbody, hrest => .conditional hcondition hbody hrest
  | .otherwise opening keyword closing inner closer, h, _, _, _, _, hcondition, hbody, hrest => by
    have hinner := writable_items inner
      ((List.infix_append' [opening.1, keyword.1, closing.1] (tokensOf inner) closer.tokens).trans h)
    exact .otherwise hcondition hbody hinner hrest
  | .another opening keyword further inner ending, h, _, _, _, _, hcondition, hbody, hrest => by
    obtain ⟨hcs, hbs, hes⟩ := infix_parts ((List.suffix_append [opening.1, keyword.1] _).isInfix.trans h)
    have hnested : Writable [.conditional keyword.1.place.offset further.nodes (nodesOf inner) ending.node] :=
      writable_ending ending hes (isOperand_of_condition hcs) (writable_items inner hbs) .nil
    exact .otherwise hcondition hbody hnested hrest

end

/-- Whatever is read can be written out again. -/
theorem Draft.writable_of_parse {d : Draft} (hd : d.tags = .empty) {source : String}
    (h : (d.parse source).2.transcript.fault = none) : Writable (d.parse source).1.root := by
  obtain ⟨is, hstart, hroot⟩ := layout_start hd h
  rw [hroot]
  exact writable_items is hstart.isInfix

end Stencil
