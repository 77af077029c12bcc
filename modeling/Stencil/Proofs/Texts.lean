import Stencil.Proofs.ScanTags
import Stencil.Proofs.Sources
/-!
# The texts of a template

A template keeps every text of its source, in order and in its place, except where the source goes on inside a tag that
closes a body.  Such a tag ends at the next '%}', and what stands before that is skipped whatever it is: so if '}}' comes
first there may be text among it.  Where it does not, no text is lost.
-/
namespace Stencil

/-! ## The texts of nodes -/

namespace Node

/-- A node and all that is below it, parents first. -/
def preorder (node : Node) : List Node := node :: node.children.attach.flatMap fun ⟨child, _⟩ => child.preorder
termination_by sizeOf node
decreasing_by exact sizeOf_lt_of_mem_children (by assumption)

theorem preorder_eq (node : Node) : node.preorder = node :: node.children.flatMap preorder := by
  have h : (node.children.attach.map Subtype.val).flatMap preorder =
      node.children.attach.flatMap fun child => child.1.preorder := List.flatMap_map ..
  rw [List.attach_map_subtype_val] at h
  rw [preorder, h]

def asText? : Node → Option (Nat × String)
  | text start s => some (start, s)
  | _ => none

end Node

def textsOf (nodes : List Node) : List (Nat × String) := (nodes.flatMap Node.preorder).filterMap Node.asText?

theorem textsOf_append (as bs : List Node) : textsOf (as ++ bs) = textsOf as ++ textsOf bs := by
  rw [textsOf, List.flatMap_append, List.filterMap_append]
  rfl

theorem textsOf_cons (node : Node) (nodes : List Node) : textsOf (node :: nodes) = textsOf [node] ++ textsOf nodes :=
  textsOf_append [node] nodes

theorem textsOf_singleton (node : Node) : textsOf [node] = node.asText?.toList ++ textsOf node.children := by
  rw [textsOf, List.flatMap_cons, List.flatMap_nil, List.append_nil, Node.preorder_eq]
  cases h : node.asText? with
  | none => rw [List.filterMap_cons_none h]; rfl
  | some s => rw [List.filterMap_cons_some h]; rfl

theorem textsOf_block (start : Nat) (name : String) (arguments body : List Node) :
    textsOf [.block start name arguments body] = textsOf body := textsOf_singleton _

theorem textsOf_conditional (start : Nat) (condition body : List Node) (otherwise : Option Node) :
    textsOf [.conditional start condition body otherwise] =
      textsOf condition ++ (textsOf body ++ textsOf otherwise.toList) := by
  rw [textsOf_singleton, Node.children, textsOf_append, textsOf_append, List.append_assoc]
  rfl

/-! ## The texts of tokens -/

def Token.closesBody (t : Token) : Bool := t.isWord "endif" || t.isWord "endblock"

/-- Whether a tag that closes a body starts with `t`, if `ts` comes next. -/
def startsCloser (t : Token) (ts : List Token) : Bool := t.kind == .tagStart && ts.head?.any Token.closesBody

theorem length_behind_le (kind : Kind) : ∀ ts : List Token, (Feed.behind kind ts).length ≤ ts.length
  | [] => Nat.le_refl 0
  | t :: ts => by
    have := length_behind_le kind ts
    rw [Feed.behind, List.length_cons]
    split <;> omega

theorem behind_concat {kind : Kind} {e : Token} (he : e.kind ≠ kind) : ∀ ts : List Token,
    Feed.behind kind (ts ++ [e]) = Feed.behind kind ts ++ [e] ∨
      Feed.behind kind (ts ++ [e]) = [] ∧ Feed.behind kind ts = []
  | [] => .inr ⟨if_neg he, rfl⟩
  | t :: ts => by
    rw [List.cons_append, Feed.behind, Feed.behind]
    split
    · exact .inl rfl
    · exact behind_concat he ts

/-- The tokens outside the tags that close bodies.  Such a tag goes up to the next '%}', or to the end of the source. -/
def outsideClosers : List Token → List Token
  | [] => []
  | t :: ts => if startsCloser t ts then outsideClosers (Feed.behind .tagEnd ts) else t :: outsideClosers ts
termination_by ts => ts.length
decreasing_by
  · exact Nat.lt_succ_of_le (length_behind_le _ _)
  · exact Nat.lt_succ_self _

def upTo (kind : Kind) : List Token → List Token
  | [] => []
  | t :: ts => if t.kind = kind then [t] else t :: upTo kind ts

/-- The tokens of the tags that close bodies. -/
def insideClosers : List Token → List Token
  | [] => []
  | t :: ts =>
    if startsCloser t ts then t :: (upTo .tagEnd ts ++ insideClosers (Feed.behind .tagEnd ts)) else insideClosers ts
termination_by ts => ts.length
decreasing_by
  · exact Nat.lt_succ_of_le (length_behind_le _ _)
  · exact Nat.lt_succ_self _

theorem upTo_append_behind (kind : Kind) : ∀ ts : List Token, upTo kind ts ++ Feed.behind kind ts = ts
  | [] => rfl
  | t :: ts => by
    rw [upTo, Feed.behind]
    split
    · rfl
    · exact congrArg (t :: ·) (upTo_append_behind kind ts)

theorem mem_of_mem_insideClosers {u : Token} : ∀ ts : List Token, u ∈ insideClosers ts → u ∈ ts
  | [], h => by
    rw [insideClosers] at h
    exact h
  | t :: ts, h => by
    rw [insideClosers] at h
    split at h
    · have := length_behind_le .tagEnd ts
      rw [← upTo_append_behind .tagEnd ts]
      rcases List.mem_cons.1 h with rfl | h
      · exact List.mem_cons_self
      · refine List.mem_cons_of_mem t (List.mem_append.2 ?_)
        exact (List.mem_append.1 h).imp id (mem_of_mem_insideClosers _)
    · exact List.mem_cons_of_mem t (mem_of_mem_insideClosers ts h)
termination_by ts => ts.length
decreasing_by
  · exact Nat.lt_succ_self _
  · exact Nat.lt_succ_of_le this

def Token.asText? (t : Token) : Option (Nat × String) := if t.kind = .text then some (t.place.offset, t.text) else none

def textsIn (ts : List Token) : List (Nat × String) := ts.filterMap Token.asText?

theorem textsIn_append (as bs : List Token) : textsIn (as ++ bs) = textsIn as ++ textsIn bs := List.filterMap_append ..

theorem textsIn_cons_of_ne {t : Token} (ht : t.kind ≠ .text) (ts : List Token) : textsIn (t :: ts) = textsIn ts :=
  List.filterMap_cons_none (if_neg ht)

theorem textsIn_cons_text {t : Token} (ht : t.kind = .text) (ts : List Token) :
    textsIn (t :: ts) = (t.place.offset, t.text) :: textsIn ts :=
  List.filterMap_cons_some (if_pos ht)

theorem textsIn_of_forall_ne {ts : List Token} (h : ∀ t ∈ ts, t.kind ≠ .text) : textsIn ts = [] :=
  List.filterMap_eq_nil_iff.2 fun t ht => if_neg (h t ht)

/-! ## The texts outside closing tags -/

def keptTexts (ts : List Token) : List (Nat × String) := textsIn (outsideClosers ts)

theorem keptTexts_nil : keptTexts [] = [] := by
  rw [keptTexts, outsideClosers]
  rfl

theorem keptTexts_cons {t : Token} {ts : List Token} (h : startsCloser t ts = false) :
    keptTexts (t :: ts) = textsIn [t] ++ keptTexts ts := by
  rw [keptTexts, outsideClosers, h, if_neg Bool.false_ne_true]
  exact textsIn_append [t] _

theorem keptTexts_closing {t : Token} {ts : List Token} (h : startsCloser t ts = true) :
    keptTexts (t :: ts) = keptTexts (Feed.behind .tagEnd ts) := by
  rw [keptTexts, outsideClosers, if_pos h]
  rfl

theorem startsCloser_of_ne {t : Token} (ht : t.kind ≠ .tagStart) (ts : List Token) : startsCloser t ts = false := by
  simp [startsCloser, ht]

theorem keptTexts_text {t : Token} (ht : t.kind = .text) (ts : List Token) :
    keptTexts (t :: ts) = (t.place.offset, t.text) :: keptTexts ts := by
  rw [keptTexts_cons (startsCloser_of_ne (by rw [ht]; decide) ts), textsIn_cons_text ht]
  rfl

theorem keptTexts_other {t : Token} (ht : t.kind ≠ .text) (hs : t.kind ≠ .tagStart) (ts : List Token) :
    keptTexts (t :: ts) = keptTexts ts := by
  rw [keptTexts_cons (startsCloser_of_ne hs ts), textsIn_cons_of_ne ht]
  rfl

theorem keptTexts_opening {o t : Token} (ho : o.kind = .tagStart) (ht : t.kind ≠ .identifier) (ts : List Token) :
    keptTexts (o :: t :: ts) = keptTexts (t :: ts) := by
  have hcloses : t.closesBody = false := by simp [Token.closesBody, Token.isWord, ht]
  rw [keptTexts_cons (by simp [startsCloser, hcloses]), textsIn_cons_of_ne (by rw [ho]; decide)]
  rfl

theorem keptTexts_append {us : List Token} (h : ∀ t ∈ us, t.kind ≠ .text ∧ t.kind ≠ .tagStart) (ts : List Token) :
    keptTexts (us ++ ts) = keptTexts ts := by
  induction us with
  | nil => rfl
  | cons t us ih =>
    obtain ⟨htext, hstart⟩ := h t List.mem_cons_self
    rw [List.cons_append, keptTexts_other htext hstart, ih fun u hu => h u (List.mem_cons_of_mem t hu)]

namespace Layout

theorem keptTexts_closer {word : String} (hword : word = "endif" ∨ word = "endblock") {c : Closer word}
    {rest : List Token} (hf : c.Fits rest) : keptTexts (c.tokens ++ rest) = keptTexts rest := by
  have hcloses : c.name.1.closesBody = true := by
    unfold Token.closesBody
    rcases hword with rfl | rfl <;> rw [c.name.2]
    · rfl
    · exact Bool.or_true _
  have hstart : startsCloser c.opening.1 (c.name.1 :: (c.skipped.1 ++ c.closing.toList.map (·.1)) ++ rest) = true := by
    simp [startsCloser, c.opening.2, hcloses]
  rw [Closer.tokens, List.cons_append, keptTexts_closing hstart, behind_closer hf]

theorem keptTexts_condition (c : Condition) (rest : List Token) : keptTexts (c.tokens ++ rest) = keptTexts rest := by
  refine keptTexts_append ?_ rest
  intro t ht
  rcases List.mem_append.1 ht with ht | ht
  · obtain ⟨⟨t, node, stands⟩, -, rfl⟩ := List.mem_map.1 ht
    cases stands <;> simp_all
  · rw [List.mem_singleton.1 ht, c.closing.2]
    decide

theorem textsOf_condition (c : Condition) : textsOf c.nodes = [] := by
  obtain ⟨parts, closing⟩ := c
  rw [Condition.nodes]
  induction parts with
  | nil => rfl
  | cons p parts ih =>
    obtain ⟨t, node, stands⟩ := p
    rw [List.map_cons, textsOf_cons, ih, textsOf_singleton]
    cases stands <;> rfl

mutual

theorem keptTexts_item : ∀ (i : Item []) (rest : List Token), i.Fits rest →
    keptTexts (i.tokens ++ rest) = textsOf [i.node] ++ keptTexts rest
  | .text t, rest, _ => by
    rw [Item.tokens, List.singleton_append, keptTexts_text t.2, Item.node, textsOf_singleton]
    rfl
  | .tag opening tag, rest, h => keptTexts_tag opening tag rest h

theorem keptTexts_items : ∀ (is : List (Item [])) (rest : List Token), FitsAll is rest →
    keptTexts (tokensOf is ++ rest) = textsOf (nodesOf is) ++ keptTexts rest
  | [], _, _ => rfl
  | i :: is, rest, ⟨hi, his⟩ => by
    rw [tokensOf, List.append_assoc, keptTexts_item i _ hi, keptTexts_items is rest his, nodesOf,
      textsOf_cons i.node (nodesOf is), List.append_assoc]

theorem keptTexts_tag : ∀ (opening : TokenOf .tagStart) (tag : Tag []) (rest : List Token), tag.Fits rest →
    keptTexts (opening.1 :: (tag.tokens ++ rest)) = textsOf [tag.node] ++ keptTexts rest
  | opening, .block keyword title closing body closer, rest, ⟨hbody, hcloser⟩ => by
    have hk := keyword.2
    have ht := title.2
    have hc := closing.2
    rw [Tag.tokens, List.cons_append, keptTexts_opening opening.2 (by simp [hk]), keptTexts_other (by simp [hk]) (by simp [hk]),
      List.cons_append, keptTexts_other (by simp [ht]) (by simp [ht]), List.cons_append,
      keptTexts_other (by simp [hc]) (by simp [hc]), List.append_assoc, keptTexts_items body _ hbody,
      keptTexts_closer (.inr rfl) hcloser, Tag.node, textsOf_block]
  | opening, .conditional keyword condition body ending, rest, ⟨hbody, hending⟩ => by
    have hk := keyword.2
    rw [Tag.tokens, List.cons_append, keptTexts_opening opening.2 (by simp [hk]), keptTexts_other (by simp [hk]) (by simp [hk]),
      List.append_assoc, keptTexts_condition, List.append_assoc, keptTexts_items body _ hbody,
      keptTexts_ending ending rest hending, Tag.node, textsOf_conditional, textsOf_condition, List.nil_append,
      List.append_assoc]
  | _, .enclosing _ h _ _ _ _ _, _, _ => by cases h

theorem keptTexts_ending : ∀ (ending : Ending []) (rest : List Token), ending.Fits rest →
    keptTexts (ending.tokens ++ rest) = textsOf ending.node.toList ++ keptTexts rest
  | .close closer, rest, h => keptTexts_closer (.inl rfl) h
  | .otherwise opening keyword closing body closer, rest, ⟨hbody, hcloser⟩ => by
    have hk := keyword.2
    have hc := closing.2
    rw [Ending.tokens, List.cons_append, List.cons_append, keptTexts_opening opening.2 (by simp [hk]),
      keptTexts_other (by simp [hk]) (by simp [hk]), List.cons_append, keptTexts_other (by simp [hc]) (by simp [hc]),
      List.append_assoc, keptTexts_items body _ hbody, keptTexts_closer (.inl rfl) hcloser, Ending.node, Option.toList_some,
      Node.group, textsOf_block]
  | .another opening keyword condition body ending, rest, ⟨hbody, hending⟩ => by
    have hk := keyword.2
    rw [Ending.tokens, List.cons_append, List.cons_append, keptTexts_opening opening.2 (by simp [hk]),
      keptTexts_other (by simp [hk]) (by simp [hk]), List.append_assoc, keptTexts_condition, List.append_assoc,
      keptTexts_items body _ hbody, keptTexts_ending ending rest hending, Ending.node, Option.toList_some, Node.group,
      textsOf_block, textsOf_conditional, textsOf_condition, List.nil_append, List.append_assoc]

end

end Layout

theorem keptTexts_concat {e : Token} (he : e.kind = .endOfInput) : ∀ us : List Token,
    keptTexts (us ++ [e]) = keptTexts us
  | [] => keptTexts_other (t := e) (by simp [he]) (by simp [he]) []
  | t :: us => by
    have hstart : startsCloser t (us ++ [e]) = startsCloser t us := by
      cases us with
      | nil => simp [startsCloser, Token.closesBody, Token.isWord, he]
      | cons u us => rfl
    cases hs : startsCloser t us with
    | false =>
      rw [List.cons_append, keptTexts_cons (hstart.trans hs), keptTexts_cons hs, keptTexts_concat he us]
    | true =>
      have hend : e.kind ≠ .tagEnd := by rw [he]; decide
      rw [List.cons_append, keptTexts_closing (hstart.trans hs), keptTexts_closing hs]
      rcases behind_concat hend us with hb | ⟨hb, hn⟩
      · have := length_behind_le .tagEnd us
        rw [hb, keptTexts_concat he (Feed.behind .tagEnd us)]
      · rw [hb, hn]
termination_by us => us.length
decreasing_by
  · exact Nat.lt_succ_self _
  · exact Nat.lt_succ_of_le this

/-! ## Where no text is lost -/

/-- Behind each opening delimiter stands a closing one, or an error, and no text before that. -/
def TextsOutside (ts : List Token) : Prop :=
  ∀ before o rest, ts = before ++ o :: rest → o.Opens → ∃ inner t behind, rest = inner ++ t :: behind ∧
    (∀ u ∈ inner, u.kind.isInner = true) ∧ (t.kind = .error ∧ behind = [] ∨ t.Closes)

theorem textsOutside_scan (source : String) : TextsOutside (scan source) := by
  intro before o rest hts ho
  obtain ⟨p, cs, hin⟩ := (scans_scan source).opensInside before o rest hts ho
  obtain ⟨inner, t, behind, hrest, hinner, ht⟩ := hin.between
  exact ⟨inner, t, behind, hrest, hinner, ht.imp id And.left⟩

theorem TextsOutside.of_append {ts : List Token} (us : List Token) (h : TextsOutside (us ++ ts)) : TextsOutside ts := by
  intro before o rest hts ho
  exact h (us ++ before) o rest (by rw [hts, List.append_assoc]) ho

theorem upTo_append {kind : Kind} : ∀ {ts : List Token}, (∀ t ∈ ts, t.kind ≠ kind) → ∀ rest : List Token,
    upTo kind (ts ++ rest) = ts ++ upTo kind rest
  | [], _, _ => rfl
  | t :: ts, h, rest => by
    rw [List.cons_append, upTo, if_neg (h t List.mem_cons_self),
      upTo_append (fun u hu => h u (List.mem_cons_of_mem t hu)) rest]
    rfl

theorem keptTexts_eq : ∀ ts : List Token, TextsOutside ts → (∀ t ∈ insideClosers ts, t.kind ≠ .varEnd) →
    keptTexts ts = textsIn ts
  | [], _, _ => keptTexts_nil
  | t :: ts, hout, hvar => by
    rw [insideClosers] at hvar
    cases hs : startsCloser t ts with
    | false =>
      rw [hs, if_neg Bool.false_ne_true] at hvar
      rw [keptTexts_cons hs, keptTexts_eq ts (hout.of_append [t]) hvar]
      exact (textsIn_append [t] ts).symm
    | true =>
      rw [if_pos hs] at hvar
      have ht : t.kind = .tagStart := by
        unfold startsCloser at hs
        rw [Bool.and_eq_true, beq_iff_eq] at hs
        exact hs.1
      obtain ⟨inner, c, behind, rfl, hinner, hc⟩ := hout [] t ts rfl (.inl ht)
      have hplain : ∀ u ∈ inner, u.kind ≠ .tagEnd ∧ u.kind ≠ .text := by
        intro u hu
        have := hinner u hu
        constructor <;>
        · intro hk
          rw [hk] at this
          cases this
      have hbehind := Layout.behind_append (fun u hu => (hplain u hu).1) (c :: behind)
      have hupTo := upTo_append (fun u hu => (hplain u hu).1) (c :: behind)
      have htexts : textsIn (t :: (inner ++ c :: behind)) = textsIn (c :: behind) := by
        rw [textsIn_cons_of_ne (by rw [ht]; decide), textsIn_append,
          textsIn_of_forall_ne fun u hu => (hplain u hu).2, List.nil_append]
      rw [keptTexts_closing hs, hbehind, htexts, Feed.behind]
      rw [hbehind, hupTo, upTo, Feed.behind] at hvar
      by_cases hend : c.kind = .tagEnd
      · rw [if_pos hend] at hvar
        rw [if_pos hend, textsIn_cons_of_ne (by rw [hend]; decide)]
        have hrest : TextsOutside behind := TextsOutside.of_append (t :: (inner ++ [c])) (by simpa using hout)
        exact keptTexts_eq behind hrest fun u hu => hvar u (by simp [hend, hu])
      · rw [if_neg hend] at hvar
        rcases hc with ⟨herror, rfl⟩ | hend' | hvarEnd
        · rw [if_neg hend, textsIn_cons_of_ne (by rw [herror]; decide)]
          exact keptTexts_nil
        · exact absurd hend' hend
        · exact absurd hvarEnd (hvar c (by simp))
termination_by ts => ts.length

/-! ## Sources -/

/-- **No text is lost outside the tags that close bodies.**  The texts of a template that is accepted, parents before
their children, are the texts of its source that stand outside such tags, in order, in the same places and with the same
characters.  They are all its texts if such tags have no '}}' in them. -/
theorem Draft.texts_of_parse (d : Draft) (hd : d.tags = .empty) (source : String)
    (h : (d.parse source).2.transcript.fault = none) :
    textsOf (d.parse source).1.root = textsIn (outsideClosers (scan source)) ∧
      ((∀ t ∈ insideClosers (scan source), t.kind ≠ .varEnd) →
        textsOf (d.parse source).1.root = textsIn (scan source)) := by
  obtain ⟨us, e, is, hscan, he, -, ⟨rfl, hfits⟩, hroot⟩ := layout_of_parse hd h
  have hkept : textsOf (d.parse source).1.root = keptTexts (scan source) := by
    have hitems := Layout.keptTexts_items is [] hfits
    rw [List.append_nil, keptTexts_nil, List.append_nil] at hitems
    rw [hroot, hscan, keptTexts_concat he, hitems]
  exact ⟨hkept, fun hvar => hkept.trans (keptTexts_eq _ (textsOutside_scan source) hvar)⟩

def titled : String := "\x7b% block a %\x7dx\x7b% endblock b %\x7dy"

def titledTokens : List Token :=
  [⟨.tagStart, "\x7b%", ⟨0, 1, 1⟩⟩, ⟨.blockWord, "block", ⟨3, 1, 4⟩⟩, ⟨.identifier, "a", ⟨9, 1, 10⟩⟩,
    ⟨.tagEnd, "%\x7d", ⟨11, 1, 12⟩⟩, ⟨.text, "x", ⟨13, 1, 14⟩⟩, ⟨.tagStart, "\x7b%", ⟨14, 1, 15⟩⟩,
    ⟨.identifier, "endblock", ⟨17, 1, 18⟩⟩, ⟨.identifier, "b", ⟨26, 1, 27⟩⟩, ⟨.tagEnd, "%\x7d", ⟨28, 1, 29⟩⟩,
    ⟨.text, "y", ⟨30, 1, 31⟩⟩]

theorem scan_titled : scan titled = titledTokens ++ [⟨.endOfInput, "", ⟨31, 1, 32⟩⟩] := by
  have h : Scans .text .origin titled.toList (titledTokens ++ [⟨.endOfInput, "", ⟨31, 1, 32⟩⟩]) :=
    .opening .tag <| .blank rfl <| .lexeme "block".toList rfl <| .blank rfl <| .lexeme ['a'] rfl <| .blank rfl <|
    .closing .tag <| .run ['x'] rfl <|
    .opening .tag <| .blank rfl <| .lexeme "endblock".toList rfl <| .blank rfl <| .lexeme ['b'] rfl <| .blank rfl <|
    .closing .tag <| .run ['y'] rfl <| .done _
  exact h.eq_scan.symm

open Layout in
def titledLayout : List (Item []) :=
  [.tag (.of ⟨.tagStart, "\x7b%", ⟨0, 1, 1⟩⟩)
      (.block (.of ⟨.blockWord, "block", ⟨3, 1, 4⟩⟩) (.of ⟨.identifier, "a", ⟨9, 1, 10⟩⟩)
        (.of ⟨.tagEnd, "%\x7d", ⟨11, 1, 12⟩⟩) [.text (.of ⟨.text, "x", ⟨13, 1, 14⟩⟩)]
        ⟨.of ⟨.tagStart, "\x7b%", ⟨14, 1, 15⟩⟩, ⟨⟨.identifier, "endblock", ⟨17, 1, 18⟩⟩, by decide⟩,
          ⟨[⟨.identifier, "b", ⟨26, 1, 27⟩⟩], by decide⟩, some (.of ⟨.tagEnd, "%\x7d", ⟨28, 1, 29⟩⟩)⟩),
    .text (.of ⟨.text, "y", ⟨30, 1, 31⟩⟩)]

theorem accepts_titled : ((Draft.fresh "t" .empty).parse titled).2.transcript.fault = none ∧
    ((Draft.fresh "t" .empty).parse titled).1.root = [.block 3 "a" [] [.text 13 "x"], .text 30 "y"] := by
  have hlayout : Layout.Derives titledTokens titledLayout :=
    ⟨rfl, ⟨⟨trivial, trivial⟩, fun h => by cases h⟩, trivial, trivial⟩
  exact Draft.parse_of_layout rfl scan_titled rfl (by decide) hlayout

theorem Draft.texts_of_titled : ((Draft.fresh "t" .empty).parse titled).2.transcript.fault = none ∧
    (∀ t ∈ insideClosers (scan titled), t.kind ≠ .varEnd) ∧
      textsOf ((Draft.fresh "t" .empty).parse titled).1.root = textsIn (scan titled) := by
  have haccepts := accepts_titled.1
  have hnone : ∀ t ∈ scan titled, t.kind ≠ .varEnd := by
    rw [scan_titled]
    decide
  have hvar : ∀ t ∈ insideClosers (scan titled), t.kind ≠ .varEnd := fun t ht => hnone t (mem_of_mem_insideClosers _ ht)
  exact ⟨haccepts, hvar, (Draft.texts_of_parse (.fresh "t" .empty) rfl titled haccepts).2 hvar⟩

/-! ## Where text is lost -/

/-- A block whose closing tag is closed by the wrong delimiter, and text behind it. -/
def swallowing : String := "\x7b% block a %\x7dx\x7b% endblock \x7d\x7d lost"

def swallowingTokens : List Token :=
  titledTokens.take 7 ++ [⟨.varEnd, "\x7d\x7d", ⟨26, 1, 27⟩⟩, ⟨.text, " lost", ⟨28, 1, 29⟩⟩]

theorem scan_swallowing : scan swallowing = swallowingTokens ++ [⟨.endOfInput, "", ⟨33, 1, 34⟩⟩] := by
  have h : Scans .text .origin swallowing.toList (swallowingTokens ++ [⟨.endOfInput, "", ⟨33, 1, 34⟩⟩]) :=
    .opening .tag <| .blank rfl <| .lexeme "block".toList rfl <| .blank rfl <| .lexeme ['a'] rfl <| .blank rfl <|
    .closing .tag <| .run ['x'] rfl <|
    .opening .tag <| .blank rfl <| .lexeme "endblock".toList rfl <| .blank rfl <|
    .closing .var <| .run " lost".toList rfl <| .done _
  exact h.eq_scan.symm

open Layout in
def swallowingLayout : List (Item []) :=
  [.tag (.of ⟨.tagStart, "\x7b%", ⟨0, 1, 1⟩⟩)
    (.block (.of ⟨.blockWord, "block", ⟨3, 1, 4⟩⟩) (.of ⟨.identifier, "a", ⟨9, 1, 10⟩⟩)
      (.of ⟨.tagEnd, "%\x7d", ⟨11, 1, 12⟩⟩) [.text (.of ⟨.text, "x", ⟨13, 1, 14⟩⟩)]
      ⟨.of ⟨.tagStart, "\x7b%", ⟨14, 1, 15⟩⟩, ⟨⟨.identifier, "endblock", ⟨17, 1, 18⟩⟩, by decide⟩,
        ⟨[⟨.varEnd, "\x7d\x7d", ⟨26, 1, 27⟩⟩, ⟨.text, " lost", ⟨28, 1, 29⟩⟩], by decide⟩, none⟩)]

/-- **Text behind a closing tag is lost where that tag is closed by '}}'.** -/
theorem Draft.swallowing_loses_text : ((Draft.fresh "t" .empty).parse swallowing).2.transcript.fault = none ∧
    textsOf ((Draft.fresh "t" .empty).parse swallowing).1.root = [(13, "x")] ∧
      textsIn (scan swallowing) = [(13, "x"), (28, " lost")] ∧
        textsOf ((Draft.fresh "t" .empty).parse swallowing).1.root ≠ textsIn (scan swallowing) := by
  have hlayout : Layout.Derives swallowingTokens swallowingLayout :=
    ⟨rfl, ⟨⟨trivial, trivial⟩, fun _ => rfl⟩, trivial⟩
  obtain ⟨hfault, hroot⟩ := Draft.parse_of_layout (d := .fresh "t" .empty) rfl scan_swallowing rfl (by decide) hlayout
  have hkept : textsOf ((Draft.fresh "t" .empty).parse swallowing).1.root = [(13, "x")] := by
    rw [hroot]
    show textsOf [.block 3 "a" [] [.text 13 "x"]] = _
    rw [textsOf_block, textsOf_singleton]
    rfl
  have hall : textsIn (scan swallowing) = [(13, "x"), (28, " lost")] := by
    rw [scan_swallowing]
    rfl
  refine ⟨hfault, hkept, hall, ?_⟩
  rw [hkept, hall]
  decide

end Stencil
