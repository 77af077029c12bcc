import Stencil.Proofs.Relocation
import Stencil.Proofs.Sources
import Stencil.Proofs.Spelling
/-!
# Templates written out

Nodes can be written out as a source: text as it is, blocks and conditionals between their tags, and in the tag of a
conditional the parts of its condition, each behind a space.  The nodes that can be read again in this way are those that
reading could have come to at all (`Writable`): no text is empty, has a brace in it or stands next to another one, a block
has a name and no arguments, and what a conditional does otherwise is a group.

Written out and read again, such nodes are what they were, but for their places.
-/
namespace Stencil

open Layout

/-! ## Tags -/

/-- Text that is read again as one token with a property, if a space is behind it. -/
def ReadsAs (P : Token → Prop) (cs : List Char) : Prop := ∃ kind, Rereads kind cs ∧ ∀ p, P ⟨kind, String.ofList cs, p⟩

def spaced (words : List (List Char)) : List Char := words.flatMap (' ' :: ·)

def tagText (words : List (List Char)) : List Char :=
  Delimiter.tag.openText ++ (spaced words ++ ' ' :: Delimiter.tag.closeText)

theorem spaced_cons (w : List Char) (ws : List (List Char)) : spaced (w :: ws) = ' ' :: (w ++ spaced ws) := rfl

theorem spaced_append (words : List (List Char)) (rest : List Char) : ∃ more, spaced words ++ ' ' :: rest = ' ' :: more := by
  cases words with
  | nil => exact ⟨rest, rfl⟩
  | cons w ws => exact ⟨_, rfl⟩

theorem Scans.between_spaces {depth : Nat} {kind : Kind} {cs : List Char}
    (h : ∀ more, pieceAt depth (cs ++ ' ' :: more) = .lexeme kind cs.length) {p : Place} {rest : List Char} {ts : List Token}
    (tail : Scans (.inside (kind.depthAfter depth)) ((p.next ' ').after cs) (' ' :: rest) ts) :
    Scans (.inside depth) p (' ' :: (cs ++ ' ' :: rest)) (⟨kind, String.ofList cs, p.next ' '⟩ :: ts) :=
  .blank (pieceAt_blank (.inl rfl) depth _) (.lexeme cs (h rest) tail)

theorem Scans.words {Ps : List (Token → Prop)} {words : List (List Char)} (h : List.Forall₂ ReadsAs Ps words) :
    ∀ {p : Place} {rest : List Char} {us : List Token}, Scans (.inside 0) (p.after (spaced words)) (' ' :: rest) us →
      ∃ ts, List.Forall₂ (fun P t => P t) Ps ts ∧ Scans (.inside 0) p (spaced words ++ ' ' :: rest) (ts ++ us) := by
  induction h with
  | nil => exact fun tail => ⟨[], .nil, tail⟩
  | @cons P w Ps ws hw _ ih =>
    intro p rest us tail
    obtain ⟨kind, hw, hP⟩ := hw
    rw [spaced_cons, Place.after_cons, Place.after_append] at tail
    obtain ⟨ts, hts, hscan⟩ := ih tail
    refine ⟨_ :: ts, .cons (hP (p.next ' ')) hts, ?_⟩
    obtain ⟨more, hmore⟩ := spaced_append ws rest
    rw [spaced_cons, List.cons_append, List.append_assoc, hmore]
    rw [hmore] at hscan
    refine .between_spaces hw.piece ?_
    rw [Kind.depthAfter_of_ne hw.plain]
    exact hscan

theorem Scans.tag {Ps : List (Token → Prop)} {words : List (List Char)} (h : List.Forall₂ ReadsAs Ps words) {p : Place}
    {rest : List Char} {us : List Token} (tail : Scans .text (p.after (tagText words)) rest us) :
    ∃ (opening : TokenOf .tagStart) (ts : List Token) (closing : TokenOf .tagEnd), List.Forall₂ (fun P t => P t) Ps ts ∧
      Scans .text p (tagText words ++ rest) (opening.1 :: (ts ++ closing.1 :: us)) := by
  rw [tagText, Place.after_append, Place.after_append, Place.after_cons] at tail
  obtain ⟨ts, hts, hscan⟩ := Scans.words h (.blank rfl (.closing .tag tail))
  have hspelled : tagText words ++ rest =
      Delimiter.tag.openText ++ (spaced words ++ ' ' :: (Delimiter.tag.closeText ++ rest)) := by
    simp [tagText]
  rw [hspelled]
  exact ⟨⟨_, rfl⟩, ts, ⟨_, rfl⟩, hts, .opening .tag hscan⟩

/-! ## Conditions -/

/-- Nodes that may stand in a condition and can be written out. -/
inductive IsOperand : Node → Prop
  | int {start : Nat} {n : Int64} : IsOperand (.int start n)
  | string {start : Nat} {s : String} : IsOperand (.string start s)
  | ident {start : Nat} {s : String} (hs : IsName s) : IsOperand (.ident start s)
  | comparison {start : Nat} {c : Comparison} : IsOperand (.comparison start c)

def Node.literal : Node → List Char
  | .int _ n => (writeWord n).toList
  | .string _ s => quotedLiteral s
  | .ident _ s => s.toList
  | .comparison _ c => c.symbol.toList
  | _ => []

/-- A token that stands for a node like this one, in whatever place. -/
def StandsFor (n : Node) (t : Token) : Prop := ∃ m, Stands t m ∧ m.unplaced = n.unplaced

theorem IsOperand.readsAs {n : Node} (h : IsOperand n) : ReadsAs (StandsFor n) n.literal := by
  cases h with
  | @int _ n =>
    refine ⟨_, rereads_number n, fun p => ⟨.int p.offset n, .number _ rfl n ?_, rfl⟩⟩
    rw [Node.literal, String.ofList_toList]
    exact writesWord_writeWord n
  | @string _ s =>
    refine ⟨_, rereads_string s, fun p => ⟨_, .string _ rfl, ?_⟩⟩
    rw [Node.literal, literalValue_quotedLiteral]
    rfl
  | ident hs =>
    refine ⟨_, rereads_name hs, fun p => ⟨_, .name _ rfl, ?_⟩⟩
    rw [Node.literal, String.ofList_toList]
    rfl
  | @comparison _ c =>
    exact ⟨_, rereads_comparison c, fun p => ⟨.comparison p.offset c, .comparison _ rfl c String.ofList_toList, rfl⟩⟩

theorem readsAs_operands : ∀ {nodes : List Node}, (∀ n ∈ nodes, IsOperand n) →
    List.Forall₂ ReadsAs (nodes.map StandsFor) (nodes.map Node.literal)
  | [], _ => .nil
  | _ :: _, h => .cons (List.forall_mem_cons.1 h).1.readsAs (readsAs_operands (List.forall_mem_cons.1 h).2)

theorem exists_parts {nodes : List Node} {ts : List Token} (h : List.Forall₂ (fun P t => P t) (nodes.map StandsFor) ts) :
    ∃ ps : List Part, ps.map (·.token) = ts ∧ unplacedAll (ps.map (·.node)) = unplacedAll nodes := by
  induction nodes generalizing ts with
  | nil =>
    cases h
    exact ⟨[], rfl, rfl⟩
  | cons n nodes ih =>
    cases h with
    | cons hn hs =>
      obtain ⟨m, hm, hunplaced⟩ := hn
      obtain ⟨ps, rfl, hps⟩ := ih hs
      refine ⟨⟨_, m, hm⟩ :: ps, rfl, ?_⟩
      simp only [List.map_cons, unplacedAll, hunplaced, hps]

/-! ## The tags of templates -/

theorem readsAs_word (s : String) (kind : Kind) (hs : IsWord s) (hkind : wordKind s = kind) :
    ReadsAs (fun t => t.kind = kind ∧ t.text = s) s.toList := ⟨_, rereads_word hs, fun _ => ⟨hkind, String.ofList_toList⟩⟩

theorem readsAs_name {s : String} (hs : IsName s) : ReadsAs (fun t => t.kind = .identifier ∧ t.text = s) s.toList :=
  readsAs_word s .identifier hs.toIsWord (wordKind_of_isName hs)

theorem isName_endblock : IsName "endblock" := ⟨isWord_of_check (by decide), by decide⟩

theorem isName_endif : IsName "endif" := ⟨isWord_of_check (by decide), by decide⟩

variable {p : Place} {rest : List Char} {us : List Token}

theorem Scans.closer {word : String} (hs : IsName word)
    (tail : Scans .text (p.after (tagText [word.toList])) rest us) :
    ∃ c : Closer word, (∀ after, c.Fits after) ∧ Scans .text p (tagText [word.toList] ++ rest) (c.tokens ++ us) := by
  obtain ⟨opening, ts, closing, hts, hscan⟩ := Scans.tag (.cons (readsAs_name hs) .nil) tail
  cases hts with
  | cons hname hnil =>
    cases hnil
    refine ⟨⟨opening, ⟨_, ?_⟩, ⟨[], by simp⟩, some closing⟩, fun after h => (by cases h), hscan⟩
    rw [Token.isWord, hname.1, hname.2]
    simp

theorem Scans.blockTag {name : String} (hs : IsName name)
    (tail : Scans .text (p.after (tagText ["block".toList, name.toList])) rest us) :
    ∃ (opening : TokenOf .tagStart) (keyword : TokenOf .blockWord) (title : TokenOf .identifier)
      (closing : TokenOf .tagEnd), title.1.text = name ∧ Scans .text p (tagText ["block".toList, name.toList] ++ rest)
        (opening.1 :: keyword.1 :: title.1 :: closing.1 :: us) := by
  have hblock := readsAs_word "block" .blockWord (isWord_of_check (by decide)) (by decide)
  obtain ⟨opening, ts, closing, hts, hscan⟩ := Scans.tag (.cons hblock (.cons (readsAs_name hs) .nil)) tail
  cases hts with
  | cons hkeyword hts =>
    cases hts with
    | cons htitle hnil =>
      cases hnil
      exact ⟨opening, ⟨_, hkeyword.1⟩, ⟨_, htitle.1⟩, closing, htitle.2, hscan⟩

theorem Scans.ifTag {condition : List Node} {words : List (List Char)}
    (hwords : List.Forall₂ ReadsAs (condition.map StandsFor) words)
    (tail : Scans .text (p.after (tagText ("if".toList :: words))) rest us) :
    ∃ (opening : TokenOf .tagStart) (keyword : TokenOf .ifWord) (c : Condition),
      unplacedAll c.nodes = unplacedAll condition ∧ Scans .text p (tagText ("if".toList :: words) ++ rest)
        (opening.1 :: keyword.1 :: (c.tokens ++ us)) := by
  have hif := readsAs_word "if" .ifWord (isWord_of_check (by decide)) (by decide)
  obtain ⟨opening, ts, closing, hts, hscan⟩ := Scans.tag (.cons hif hwords) tail
  cases hts with
  | cons hkeyword hts =>
    obtain ⟨ps, rfl, hps⟩ := exists_parts hts
    refine ⟨opening, ⟨_, hkeyword.1⟩, ⟨ps, closing⟩, hps, ?_⟩
    rw [Condition.tokens, List.append_assoc]
    exact hscan

theorem Scans.elseTag (tail : Scans .text (p.after (tagText ["else".toList])) rest us) :
    ∃ (opening : TokenOf .tagStart) (keyword : TokenOf .elseWord) (closing : TokenOf .tagEnd),
      Scans .text p (tagText ["else".toList] ++ rest) (opening.1 :: keyword.1 :: closing.1 :: us) := by
  have helse := readsAs_word "else" .elseWord (isWord_of_check (by decide)) (by decide)
  obtain ⟨opening, ts, closing, hts, hscan⟩ := Scans.tag (.cons helse .nil) tail
  cases hts with
  | cons hkeyword hnil =>
    cases hnil
    exact ⟨opening, ⟨_, hkeyword.1⟩, closing, hscan⟩

/-! ## What is read back -/

open Reading (SameNodes sameNodes_cons sameNode_block sameNode_conditional)

/-- The end of a source, or something that does not go on with a text. -/
def EndsText (rest : List Char) : Prop := ∀ c ∈ rest.head?, c = '{'

theorem endsText_tagText (words : List (List Char)) (more : List Char) : EndsText (tagText words ++ more) := by
  simp [EndsText, tagText, Delimiter.openText]

/-- A source that is scanned, wherever it stands, as a layout that stands for these nodes. -/
def ReadsBack (cs : List Char) (nodes : List Node) : Prop :=
  ∀ (p : Place) {rest : List Char} {us : List Token}, EndsText rest → Scans .text (p.after cs) rest us →
    ∃ is : List (Item []), Scans .text p (cs ++ rest) (tokensOf is ++ us) ∧ SameNodes (nodesOf is) nodes ∧ Complete is

theorem readsBack_nil : ReadsBack [] [] := fun _ _ _ _ tail => ⟨[], tail, rfl, fun _ => trivial⟩

namespace ReadsBack

variable {start start' : Nat} {cs bs os : List Char} {words : List (List Char)} {nodes body other condition : List Node}

theorem text (h : ReadsBack cs nodes) {s : String} (hs : s ≠ "") (hbrace : '{' ∉ s.toList)
    (hnext : ∀ {rest}, EndsText rest → EndsText (cs ++ rest)) : ReadsBack (s.toList ++ cs) (.text start s :: nodes) := by
  intro p rest us hrest tail
  rw [Place.after_append] at tail
  rw [List.append_assoc]
  obtain ⟨is, hscan, his, hcomplete⟩ := h _ hrest tail
  have hne : s.toList ≠ [] := fun h => hs (String.toList_eq_nil_iff.1 h)
  have htext : ∀ c ∈ s.toList, c ≠ '{' := by
    rintro c hc rfl
    exact hbrace hc
  exact ⟨.text ⟨_, rfl⟩ :: is, .text s.toList hne htext (hnext hrest) hscan,
    sameNodes_cons (congrArg (Node.text 0) String.ofList_toList) his, fun after => ⟨trivial, hcomplete after⟩⟩

theorem block (h : ReadsBack cs nodes) {name : String} (hname : IsName name) (hbody : ReadsBack bs body) :
    ReadsBack (tagText ["block".toList, name.toList] ++ (bs ++ tagText ["endblock".toList]) ++ cs)
      (.block start name [] body :: nodes) := by
  intro p rest us hrest tail
  simp only [Place.after_append, List.append_assoc] at tail ⊢
  -- from behind, since each piece is scanned with what comes after it
  obtain ⟨is, hscan, his, hcomplete⟩ := h _ hrest tail
  obtain ⟨closer, hcloser, hscan⟩ := Scans.closer isName_endblock hscan
  obtain ⟨js, hscan, hjs, hinner⟩ := hbody _ (endsText_tagText _ _) hscan
  obtain ⟨opening, keyword, title, closing, rfl, hscan⟩ := Scans.blockTag hname hscan
  refine ⟨.tag opening (.block keyword title closing js closer) :: is, ?_, sameNodes_cons (sameNode_block _ _ _ hjs) his,
    fun after => ⟨⟨hinner _, hcloser _⟩, hcomplete after⟩⟩
  simpa only [tokensOf, Item.tokens, Tag.tokens, List.cons_append, List.append_assoc] using hscan

theorem conditional (h : ReadsBack cs nodes) (hwords : List.Forall₂ ReadsAs (condition.map StandsFor) words)
    (hbody : ReadsBack bs body) :
    ReadsBack (tagText ("if".toList :: words) ++ (bs ++ tagText ["endif".toList]) ++ cs)
      (.conditional start condition body none :: nodes) := by
  intro p rest us hrest tail
  simp only [Place.after_append, List.append_assoc] at tail ⊢
  obtain ⟨is, hscan, his, hcomplete⟩ := h _ hrest tail
  obtain ⟨closer, hcloser, hscan⟩ := Scans.closer isName_endif hscan
  obtain ⟨js, hscan, hjs, hinner⟩ := hbody _ (endsText_tagText _ _) hscan
  obtain ⟨opening, keyword, c, hc, hscan⟩ := Scans.ifTag hwords hscan
  refine ⟨.tag opening (.conditional keyword c js (.close closer)) :: is, ?_,
    sameNodes_cons (sameNode_conditional _ _ hc ⟨hjs, rfl⟩) his, fun after => ⟨⟨hinner _, hcloser _⟩, hcomplete after⟩⟩
  simpa only [tokensOf, Item.tokens, Tag.tokens, Ending.tokens, List.cons_append, List.append_assoc] using hscan

theorem otherwise (h : ReadsBack cs nodes) (hwords : List.Forall₂ ReadsAs (condition.map StandsFor) words)
    (hbody : ReadsBack bs body) (hother : ReadsBack os other) :
    ReadsBack (tagText ("if".toList :: words) ++
        (bs ++ (tagText ["else".toList] ++ (os ++ tagText ["endif".toList]))) ++ cs)
      (.conditional start condition body (some (.group start' other)) :: nodes) := by
  intro p rest us hrest tail
  simp only [Place.after_append, List.append_assoc] at tail ⊢
  obtain ⟨is, hscan, his, hcomplete⟩ := h _ hrest tail
  obtain ⟨closer, hcloser, hscan⟩ := Scans.closer isName_endif hscan
  obtain ⟨ks, hscan, hks, hlast⟩ := hother _ (endsText_tagText _ _) hscan
  obtain ⟨opening', keyword', closing', hscan⟩ := Scans.elseTag hscan
  obtain ⟨js, hscan, hjs, hinner⟩ := hbody _ (endsText_tagText _ _) hscan
  obtain ⟨opening, keyword, c, hc, hscan⟩ := Scans.ifTag hwords hscan
  refine ⟨.tag opening (.conditional keyword c js (.otherwise opening' keyword' closing' ks closer)) :: is, ?_,
    sameNodes_cons (sameNode_conditional _ _ hc ⟨hjs, congrArg some (sameNode_block _ _ _ hks)⟩) his,
    fun after => ⟨⟨hinner _, hlast _, hcloser _⟩, hcomplete after⟩⟩
  simpa only [tokensOf, Item.tokens, Tag.tokens, Ending.tokens, List.cons_append, List.append_assoc] using hscan

end ReadsBack

/-- The tokens of a source that is read back have a layout that stands for these nodes. -/
theorem ReadsBack.derives {cs : List Char} {nodes : List Node} (h : ReadsBack cs nodes) :
    ∃ us last, ∃ is : List (Item []), scan (String.ofList cs) = us ++ [last] ∧ last.kind = .endOfInput ∧
      (∀ t ∈ us, t.kind ≠ .endOfInput ∧ t.kind ≠ .error) ∧ Derives us is ∧ SameNodes (nodesOf is) nodes := by
  obtain ⟨is, hscan, his, hcomplete⟩ := h .origin (by simp [EndsText]) (.done _)
  rw [List.append_nil, ← String.toList_ofList (l := cs)] at hscan
  have htokens : _ = scan (String.ofList cs) := hscan.eq_scan
  obtain ⟨us, last, hus, hplain, -⟩ := exists_scan (String.ofList cs)
  obtain ⟨rfl, -⟩ := List.append_inj' (htokens.trans hus) rfl
  exact ⟨_, _, is, htokens.symm, rfl, hplain, ⟨rfl, hcomplete []⟩, his⟩

/-! ## Writing nodes -/

mutual

def Node.written : Node → List Char
  | .text _ s => s.toList
  | .block _ name _ body => tagText ["block".toList, name.toList] ++ (writtenAll body ++ tagText ["endblock".toList])
  | .conditional _ condition body none =>
    tagText ("if".toList :: condition.map Node.literal) ++ (writtenAll body ++ tagText ["endif".toList])
  | .conditional _ condition body (some (.block _ _ _ other)) =>
    tagText ("if".toList :: condition.map Node.literal) ++
      (writtenAll body ++ (tagText ["else".toList] ++ (writtenAll other ++ tagText ["endif".toList])))
  | _ => []

def writtenAll : List Node → List Char
  | [] => []
  | n :: ns => n.written ++ writtenAll ns

end

/-- Nodes that reading can come to. -/
inductive Writable : List Node → Prop
  | nil : Writable []
  | text {start : Nat} {s : String} {nodes : List Node} (hs : s ≠ "") (hbrace : '{' ∉ s.toList)
    (hnext : ∀ start' s', nodes.head? ≠ some (.text start' s')) (hrest : Writable nodes) :
    Writable (.text start s :: nodes)
  | block {start : Nat} {name : String} {body nodes : List Node} (hname : IsName name) (hbody : Writable body)
    (hrest : Writable nodes) : Writable (.block start name [] body :: nodes)
  | conditional {start : Nat} {condition body nodes : List Node} (hcondition : ∀ n ∈ condition, IsOperand n)
    (hbody : Writable body) (hrest : Writable nodes) : Writable (.conditional start condition body none :: nodes)
  | otherwise {start start' : Nat} {condition body other nodes : List Node} (hcondition : ∀ n ∈ condition, IsOperand n)
    (hbody : Writable body) (hother : Writable other) (hrest : Writable nodes) :
    Writable (.conditional start condition body (some (.group start' other)) :: nodes)

theorem Writable.endsText {nodes : List Node} (h : Writable nodes)
    (hnext : ∀ start s, nodes.head? ≠ some (.text start s)) (hrest : EndsText rest) :
    EndsText (writtenAll nodes ++ rest) := by
  cases h with
  | nil => exact hrest
  | text => exact absurd rfl (hnext _ _)
  | block | conditional | otherwise =>
    simp only [writtenAll, Node.written, Node.group, List.append_assoc]
    exact endsText_tagText _ _

theorem Writable.readsBack {nodes : List Node} (h : Writable nodes) : ReadsBack (writtenAll nodes) nodes := by
  induction h with
  | nil => exact readsBack_nil
  | text hs hbrace hnext hnodes ih => exact ih.text hs hbrace (hnodes.endsText hnext)
  | block hname _ _ ihbody ih => exact ih.block hname ihbody
  | conditional hcondition _ _ ihbody ih => exact ih.conditional (readsAs_operands hcondition) ihbody
  | otherwise hcondition _ _ _ ihbody ihother ih => exact ih.otherwise (readsAs_operands hcondition) ihbody ihother

def written (nodes : List Node) : String := String.ofList (writtenAll nodes)

/-- **Written out and read again, nodes are what they were**, but for their places. -/
theorem Draft.parse_written {d : Draft} (hd : d.tags = .empty) {nodes : List Node} (h : Writable nodes) :
    (d.parse (written nodes)).2.transcript.fault = none ∧
      unplacedAll (d.parse (written nodes)).1.root = unplacedAll nodes := by
  obtain ⟨us, last, is, hscan, hlast, hplain, hderives, his⟩ := h.readsBack.derives
  obtain ⟨hfault, hroot⟩ := parse_of_layout hd hscan hlast hplain hderives
  exact ⟨hfault, (congrArg unplacedAll hroot).trans his⟩

def answer : List Node :=
  [.text 0 "Hi ", .conditional 0 [.ident 0 "x", .comparison 0 .equal, .int 0 (-7), .string 0 "a\"b"]
    [.block 0 "n" [] [.text 0 "y"]] (some (.group 0 [.text 0 "z"]))]

theorem writable_answer : Writable answer := by
  have hn : IsName "n" := ⟨isWord_of_check (by decide), by decide⟩
  have hx : IsName "x" := ⟨isWord_of_check (by decide), by decide⟩
  refine .text (by decide) (by decide) (by simp) (.otherwise ?_ (.block hn ?_ .nil) ?_ .nil)
  · simp only [List.forall_mem_cons]
    exact ⟨.ident hx, .comparison, .int, .string, by simp⟩
  · exact .text (by decide) (by decide) (by simp) .nil
  · exact .text (by decide) (by decide) (by simp) .nil

theorem Draft.parse_written_answer :
    written answer = "Hi \x7b% if x == -7 \"a\\\"b\" %\x7d\x7b% block n %\x7dy\x7b% endblock %\x7d" ++
        "\x7b% else %\x7dz\x7b% endif %\x7d" ∧
      unplacedAll ((Draft.fresh "t" .empty).parse (written answer)).1.root = unplacedAll answer :=
  ⟨by decide, (parse_written rfl writable_answer).2⟩

end Stencil
