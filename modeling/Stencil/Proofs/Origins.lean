import Stencil.Proofs.Literals
import Stencil.Proofs.Neighbours
import Stencil.Proofs.Texts
/-!
# What nodes point at

A node starts where the token stands that it was made of: text, names, literals and comparisons where they are written,
blocks and conditionals at their keyword, behind the delimiter that opens the tag.  What a conditional does otherwise
starts at the keyword `else`, or at `elif`, and then the conditional in it, which was read from the same keyword, starts
there as well.

So nodes come in the order of their tokens, parents before their children, and no two start at the same offset but such a
group and its conditional.  `Anchored` says this of some nodes and the tokens they were read from, and the induction is
on the layout of the tokens.
-/
namespace Stencil

open Layout

/-- What stands in a source where a node starts. -/
inductive PointsAt (source : String) : Node → Prop
  | text {start : Nat} {s : String} (h : StandsAt source start s.toList) : PointsAt source (.text start s)
  | ident {start : Nat} {s : String} (h : StandsAt source start s.toList) : PointsAt source (.ident start s)
  | int {start : Nat} {n : Int64} {digits : List Char} (hn : WritesInt digits n.toInt) (h : StandsAt source start digits) :
    PointsAt source (.int start n)
  | string {start : Nat} {quote : Char} {parts : List QuotedPart} (hquote : quote = '"' ∨ quote = '\'')
    (hparts : ∀ part ∈ parts, part.Within quote)
    (h : StandsAt source start (quote :: (parts.flatMap QuotedPart.chars ++ [quote]))) :
    PointsAt source (.string start (String.ofList (parts.map QuotedPart.value)))
  | comparison {start : Nat} {c : Comparison} (h : StandsAt source start c.symbol.toList) :
    PointsAt source (.comparison start c)
  | block {start : Nat} {name : String} {arguments body : List Node} {gap : List Char} (hname : name ≠ "")
    (hgap : Blank gap) (hne : gap ≠ []) (h : StandsAt source start ("block".toList ++ (gap ++ name.toList))) :
    PointsAt source (.block start name arguments body)
  | conditional {start : Nat} {condition body : List Node} {otherwise : Option Node} {word : String}
    (hword : word = "if" ∨ word = "elif") (h : StandsAt source start word.toList) :
    PointsAt source (.conditional start condition body otherwise)
  | otherwise {start : Nat} {body : List Node} (h : StandsAt source start "else".toList) :
    PointsAt source (.group start body)
  | another {start : Nat} {condition body : List Node} {otherwise : Option Node}
    (h : StandsAt source start "elif".toList) :
    PointsAt source (.group start [.conditional start condition body otherwise])

/-- A group that was read from `elif`, and the conditional that was read from the same word. -/
inductive Shares (source : String) : Node → Node → Prop
  | elif {start : Nat} {condition body : List Node} {otherwise : Option Node} (h : StandsAt source start "elif".toList) :
    Shares source (.group start [.conditional start condition body otherwise]) (.conditional start condition body otherwise)

/-- A node starts before one that comes later, unless they share an `elif`. -/
def InOrder (source : String) (a b : Node) : Prop := a.start < b.start ∨ Shares source a b

variable {source : String}

/-! ## Nodes and their tokens -/

/-- Nodes that point at their source and start, in order, where some of the tokens do. -/
structure Anchored (source : String) (ts : List Token) (nodes : List Node) : Prop where
  points : ∀ n ∈ nodes.flatMap Node.preorder, PointsAt source n
  anchor : ∀ n ∈ nodes.flatMap Node.preorder, ∃ t ∈ ts, t.place.offset = n.start
  ordered : (nodes.flatMap Node.preorder).Pairwise (InOrder source)

theorem flatMap_preorder_singleton (n : Node) :
    [n].flatMap Node.preorder = n :: n.children.flatMap Node.preorder := by
  rw [List.flatMap_cons, List.flatMap_nil, List.append_nil, Node.preorder_eq]

namespace Anchored

variable {k : Token} {ts us : List Token} {nodes more : List Node}

theorem nil (ts : List Token) : Anchored source ts [] := ⟨nofun, nofun, .nil⟩

theorem mono (h : Anchored source ts nodes) (hsub : ts ⊆ us) : Anchored source us nodes := by
  refine ⟨h.points, fun n hn => ?_, h.ordered⟩
  obtain ⟨t, ht, hstart⟩ := h.anchor n hn
  exact ⟨t, hsub ht, hstart⟩

theorem append (h : Anchored source ts nodes) (h' : Anchored source us more) (hscan : ts ++ us <:+: scan source) :
    Anchored source (ts ++ us) (nodes ++ more) := by
  have hlt := (List.pairwise_append.1 (offsets_increase hscan)).2.2
  constructor
  case points =>
    rw [List.flatMap_append, List.forall_mem_append]
    exact ⟨h.points, h'.points⟩
  case anchor =>
    rw [List.flatMap_append, List.forall_mem_append]
    exact ⟨(h.mono (List.subset_append_left ts us)).anchor, (h'.mono (List.subset_append_right ts us)).anchor⟩
  case ordered =>
    rw [List.flatMap_append, List.pairwise_append]
    refine ⟨h.ordered, h'.ordered, fun a ha b hb => .inl ?_⟩
    obtain ⟨t, ht, hta⟩ := h.anchor a ha
    obtain ⟨u, hu, hub⟩ := h'.anchor b hb
    rw [← hta, ← hub]
    exact hlt t ht u hu

theorem start_lt (h : Anchored source ts nodes) (hscan : k :: ts <:+: scan source) :
    ∀ n ∈ nodes.flatMap Node.preorder, k.place.offset < n.start := by
  intro n hn
  obtain ⟨t, ht, hstart⟩ := h.anchor n hn
  rw [← hstart]
  exact (List.pairwise_cons.1 (offsets_increase hscan)).1 t ht

/-- A node above others, if it starts at one of the tokens and in order with all of them. -/
theorem above {n : Node} (h : Anchored source ts n.children) (hpoints : PointsAt source n) (hk : k ∈ ts)
    (hstart : k.place.offset = n.start) (hfirst : ∀ m ∈ n.children.flatMap Node.preorder, InOrder source n m) :
    Anchored source ts [n] := by
  have hpreorder : [n].flatMap Node.preorder = n :: n.children.flatMap Node.preorder := flatMap_preorder_singleton n
  constructor
  case points =>
    rw [hpreorder]
    exact List.forall_mem_cons.2 ⟨hpoints, h.points⟩
  case anchor =>
    rw [hpreorder]
    exact List.forall_mem_cons.2 ⟨⟨k, hk, hstart⟩, h.anchor⟩
  case ordered =>
    rw [hpreorder]
    exact List.pairwise_cons.2 ⟨hfirst, h.ordered⟩

theorem node {n : Node} (h : Anchored source ts n.children) (hscan : k :: ts <:+: scan source)
    (hpoints : PointsAt source n) (hstart : k.place.offset = n.start) : Anchored source (k :: ts) [n] := by
  refine (h.mono (List.subset_cons_self k ts)).above hpoints List.mem_cons_self hstart fun m hm => .inl ?_
  rw [← hstart]
  exact h.start_lt hscan m hm

theorem another {condition body : List Node} {otherwise : Option Node}
    (h : Anchored source ts (condition ++ body ++ otherwise.toList)) (hscan : k :: ts <:+: scan source)
    (hword : StandsAt source k.place.offset "elif".toList) :
    Anchored source (k :: ts) [.group k.place.offset [.conditional k.place.offset condition body otherwise]] := by
  have hinner : Anchored source (k :: ts) [.conditional k.place.offset condition body otherwise] :=
    h.node hscan (.conditional (.inr rfl) hword) rfl
  refine hinner.above (.another hword) List.mem_cons_self rfl fun m hm => ?_
  -- the conditional shares its word with the group, and only what is below it starts later
  rw [Node.group, Node.children, flatMap_preorder_singleton] at hm
  rcases List.mem_cons.1 hm with rfl | hm
  · exact .inr (.elif hword)
  · exact .inl (h.start_lt hscan m hm)

end Anchored

/-! ## Layouts -/

theorem pointsAt_of_stands {t : Token} {n : Node} (hstands : Stands t n) (ht : t ∈ scan source) : PointsAt source n := by
  cases hstands with
  | string h =>
    obtain ⟨quote, hquote, parts, hparts, htext⟩ := (scan_isLexeme ht (by rw [h]; rfl)).exists_parts h
    rw [literalValue_of_parts hparts htext]
    refine .string hquote hparts ?_
    rw [← htext]
    exact scan_standsAt ht (by rw [h]; decide)
  | number h n hn => exact .int hn (scan_standsAt ht (by rw [h]; decide))
  | comparison h c hc => exact .comparison (hc ▸ scan_standsAt ht (by rw [h]; decide))
  | name h => exact .ident (scan_standsAt ht (by rw [h]; decide))

theorem anchored_parts : ∀ {ps : List Part}, ps.map (·.token) <:+: scan source →
    Anchored source (ps.map (·.token)) (ps.map (·.node))
  | [], _ => .nil []
  | ⟨t, n, hstands⟩ :: ps, hscan => by
    have hone : [t] <:+: scan source := (List.prefix_append [t] _).isInfix.trans hscan
    have hpoints := pointsAt_of_stands hstands (hscan.subset List.mem_cons_self)
    have hfirst : Anchored source [t] [n] := by cases hstands <;> exact .node (.nil []) hone hpoints rfl
    exact hfirst.append (anchored_parts ((List.suffix_cons t _).isInfix.trans hscan)) hscan

theorem anchored_condition {c : Condition} (hscan : c.tokens <:+: scan source) : Anchored source c.tokens c.nodes :=
  (anchored_parts ((List.prefix_append _ _).isInfix.trans hscan)).mono (List.subset_append_left _ _)

theorem Anchored.branches {cs bs es : List Token} {condition body other : List Node}
    (hcondition : Anchored source cs condition) (hbody : Anchored source bs body) (hother : Anchored source es other)
    (hscan : cs ++ (bs ++ es) <:+: scan source) : Anchored source (cs ++ (bs ++ es)) (condition ++ body ++ other) := by
  rw [List.append_assoc]
  exact hcondition.append (hbody.append hother ((List.suffix_append _ _).isInfix.trans hscan)) hscan

theorem standsAt_keyword {t : Token} (h : t ∈ scan source) {kind : Kind} (ht : t.kind = kind)
    (hkind : kind ∈ [Kind.blockWord, .ifWord, .elseWord, .elifWord]) : StandsAt source t.place.offset kind.label.toList := by
  rw [← scan_keyword h ht hkind]
  exact scan_standsAt h (Kind.plain_of_isInner (by rw [ht]; exact Kind.isInner_of_keyword hkind))

theorem pointsAt_block {t u : Token} (h : [t, u] <:+: scan source) (ht : t.kind = .blockWord) (hu : u.kind = .identifier)
    (arguments body : List Node) : PointsAt source (.block t.place.offset u.text arguments body) := by
  have hname := scan_isName (h.subset (List.mem_cons_of_mem t List.mem_cons_self)) hu
  have hblock : t.text = "block" := scan_keyword (h.subset List.mem_cons_self) ht (by decide)
  have hword : IsWord t.text := hblock ▸ isWord_of_check (by decide)
  obtain ⟨gap, hgap, hne, hstands⟩ := gap_of_words h (by rw [ht]; rfl) (by rw [hu]; rfl) hword hname.toIsWord
  rw [hblock] at hstands
  exact .block hname.ne hgap hne hstands

mutual

theorem anchored_items : ∀ (is : List (Item [])), tokensOf is <:+: scan source →
    Anchored source (tokensOf is) (nodesOf is)
  | [], _ => .nil []
  | i :: is, hscan =>
    (anchored_item i ((List.prefix_append _ _).isInfix.trans hscan)).append
      (anchored_items is ((List.suffix_append _ _).isInfix.trans hscan)) hscan

theorem anchored_item : ∀ (i : Item []), i.tokens <:+: scan source → Anchored source i.tokens [i.node]
  | .text t, hscan => by
    have ht : t.1 ∈ scan source := hscan.subset List.mem_cons_self
    exact .node (.nil []) hscan (.text (scan_standsAt ht (by rw [t.2]; decide))) rfl
  | .tag opening tag, hscan =>
    (anchored_tag tag ((List.suffix_cons _ _).isInfix.trans hscan)).mono (List.subset_cons_self _ _)

theorem anchored_tag : ∀ (tag : Tag []), tag.tokens <:+: scan source → Anchored source tag.tokens [tag.node]
  | .block keyword title closing body closer, hscan => by
    have hbody := anchored_items body
      ((List.infix_append' [keyword.1, title.1, closing.1] (tokensOf body) closer.tokens).trans hscan)
    have hpoints := pointsAt_block ((List.prefix_append [keyword.1, title.1] _).isInfix.trans hscan) keyword.2 title.2 []
      (nodesOf body)
    exact (hbody.mono (List.infix_append' [title.1, closing.1] _ _).subset).node hscan hpoints rfl
  | .conditional keyword condition body ending, hscan => by
    have htail : condition.tokens ++ (tokensOf body ++ ending.tokens) <:+: scan source :=
      (List.suffix_cons keyword.1 _).isInfix.trans hscan
    obtain ⟨hcs, hbs, hes⟩ := infix_parts htail
    have hbelow := (anchored_condition hcs).branches (anchored_items body hbs) (anchored_ending ending hes) htail
    have hword := standsAt_keyword (hscan.subset List.mem_cons_self) keyword.2 (by decide)
    exact hbelow.node hscan (.conditional (.inl rfl) hword) rfl
  | .enclosing _ h _ _ _ _ _, _ => by cases h

theorem anchored_ending : ∀ (ending : Layout.Ending []), ending.tokens <:+: scan source →
    Anchored source ending.tokens ending.node.toList
  | .close closer, _ => .nil _
  | .otherwise opening keyword closing body closer, hscan => by
    have hscan' : keyword.1 :: closing.1 :: (tokensOf body ++ closer.tokens) <:+: scan source :=
      (List.suffix_cons opening.1 _).isInfix.trans hscan
    have hbody := anchored_items body
      ((List.infix_append' [keyword.1, closing.1] (tokensOf body) closer.tokens).trans hscan')
    have hword := standsAt_keyword (hscan'.subset List.mem_cons_self) keyword.2 (by decide)
    have hgroup := (hbody.mono (List.infix_append' [closing.1] _ _).subset).node hscan' (.otherwise hword) rfl
    exact hgroup.mono (List.subset_cons_self opening.1 _)
  | .another opening keyword condition body ending, hscan => by
    have hscan' : keyword.1 :: (condition.tokens ++ (tokensOf body ++ ending.tokens)) <:+: scan source :=
      (List.suffix_cons opening.1 _).isInfix.trans hscan
    have htail := (List.suffix_cons keyword.1 _).isInfix.trans hscan'
    obtain ⟨hcs, hbs, hes⟩ := infix_parts htail
    have hbelow := (anchored_condition hcs).branches (anchored_items body hbs) (anchored_ending ending hes) htail
    have hword := standsAt_keyword (hscan'.subset List.mem_cons_self) keyword.2 (by decide)
    exact (hbelow.another hscan' hword).mono (List.subset_cons_self opening.1 _)

end

/-! ## Sources -/

theorem start_of_asText? {n : Node} {p : Nat × String} (h : p ∈ n.asText?) : p.1 = n.start := by
  cases n with
  | text =>
    cases h
    rfl
  | string | int | ident | comparison | block | conditional => cases h

theorem Draft.anchored_of_parse {d : Draft} (hd : d.tags = .empty) {source : String}
    (h : (d.parse source).2.transcript.fault = none) : Anchored source (scan source) (d.parse source).1.root := by
  obtain ⟨is, hstart, hroot⟩ := layout_start hd h
  rw [hroot]
  exact (anchored_items is hstart.isInfix).mono hstart.subset

theorem Draft.pairwise_textsOf {d : Draft} (hd : d.tags = .empty) {source : String}
    (h : (d.parse source).2.transcript.fault = none) :
    (textsOf (d.parse source).1.root).Pairwise (fun a b => a.1 < b.1) := by
  refine List.pairwise_filterMap.2 ((anchored_of_parse hd h).ordered.imp ?_)
  rintro a b (hlt | hshares) p hp q hq
  · rw [start_of_asText? hp, start_of_asText? hq]
    exact hlt
  · cases hshares
    cases hq

/-- **Nodes point at their source.**  In a template that is accepted there stands, where a node starts, what the node was
read from.  Parents before their children, nodes start one behind another, but for a group that was read from `elif` and
the conditional in it, which start at the same word. -/
theorem Draft.nodes_of_parse {d : Draft} (hd : d.tags = .empty) {source : String}
    (h : (d.parse source).2.transcript.fault = none) :
    let nodes := (d.parse source).1.root.flatMap Node.preorder
    (∀ n ∈ nodes, PointsAt source n) ∧ nodes.Pairwise (fun a b => a.start < b.start ∨ Shares source a b) := by
  have hroot := anchored_of_parse hd h
  exact ⟨hroot.points, hroot.ordered⟩

def chained : String := "\x7b% if 0 %\x7d\x7b% elif +1 %\x7db\x7b% endif %\x7d"

def chainedLayout : List (Item []) :=
  [.tag (.of ⟨.tagStart, "\x7b%", ⟨0, 1, 1⟩⟩)
    (.conditional (.of ⟨.ifWord, "if", ⟨3, 1, 4⟩⟩)
      ⟨[⟨⟨.number, "0", ⟨6, 1, 7⟩⟩, .int 6 0, .number _ rfl 0 writesWord_zero⟩], .of ⟨.tagEnd, "%\x7d", ⟨8, 1, 9⟩⟩⟩ []
      (.another (.of ⟨.tagStart, "\x7b%", ⟨10, 1, 11⟩⟩) (.of ⟨.elifWord, "elif", ⟨13, 1, 14⟩⟩)
        ⟨[⟨⟨.number, "+1", ⟨18, 1, 19⟩⟩, .int 18 1, .number _ rfl 1 writesWord_plusOne⟩],
          .of ⟨.tagEnd, "%\x7d", ⟨21, 1, 22⟩⟩⟩
        [.text (.of ⟨.text, "b", ⟨23, 1, 24⟩⟩)]
        (.close ⟨.of ⟨.tagStart, "\x7b%", ⟨24, 1, 25⟩⟩, ⟨⟨.identifier, "endif", ⟨27, 1, 28⟩⟩, by decide⟩,
          (plainCloser "endif").skipped,
          some (.of ⟨.tagEnd, "%\x7d", ⟨33, 1, 34⟩⟩)⟩)))]

theorem scan_chained : scan chained = tokensOf chainedLayout ++ [⟨.endOfInput, "", ⟨35, 1, 36⟩⟩] := by
  have h : Scans .text .origin chained.toList (tokensOf chainedLayout ++ [⟨.endOfInput, "", ⟨35, 1, 36⟩⟩]) :=
    .opening .tag <| .blank rfl <| .lexeme "if".toList rfl <| .blank rfl <| .lexeme ['0'] rfl <| .blank rfl <|
    .closing .tag <| .opening .tag <| .blank rfl <| .lexeme "elif".toList rfl <| .blank rfl <| .lexeme "+1".toList rfl <|
    .blank rfl <| .closing .tag <| .run ['b'] rfl <|
    .opening .tag <| .blank rfl <| .lexeme "endif".toList rfl <| .blank rfl <| .closing .tag <| .done _
  exact h.eq_scan.symm

theorem accepts_chained : ((Draft.fresh "t" .empty).parse chained).2.transcript.fault = none ∧
    ((Draft.fresh "t" .empty).parse chained).1.root = nodesOf chainedLayout := by
  have hlayout : Derives (tokensOf chainedLayout) chainedLayout :=
    ⟨rfl, ⟨⟨trivial, ⟨trivial, trivial⟩, fun h => by cases h⟩, trivial⟩⟩
  exact Draft.parse_of_layout rfl scan_chained rfl (by decide) hlayout

theorem Draft.nodes_of_chained :
    let read := (Draft.fresh "t" .empty).parse chained
    let nodes := read.1.root.flatMap Node.preorder
    read.2.transcript.fault = none ∧ nodes.map Node.start = [3, 6, 13, 13, 18, 23] ∧ (∀ n ∈ nodes, PointsAt chained n) ∧
      nodes.Pairwise (fun a b => a.start < b.start ∨ Shares chained a b) := by
  intro read nodes
  have hstarts : nodes.map Node.start = [3, 6, 13, 13, 18, 23] := by
    show (read.1.root.flatMap Node.preorder).map Node.start = _
    rw [show read.1.root = nodesOf chainedLayout from accepts_chained.2]
    simp [chainedLayout, nodesOf, Item.node, Tag.node, Layout.Ending.node, Condition.nodes, Node.preorder_eq, Node.children,
      Node.group, Node.start, TokenOf.of]
  exact ⟨accepts_chained.1, hstarts, nodes_of_parse (d := .fresh "t" .empty) rfl accepts_chained.1⟩

end Stencil
