import Stencil.Proofs.Sources
import Stencil.Tag.Script
/-!
# Tags that enclose a body

Tags of one's own that enclose a body nest with the tags of the grammar, and in each other, like blocks.  A body ends at
the closer of its own tag and at no other: a word that closes something is never the name of a tag, and the closers in
between belong to tags that are read as a whole.  So where the names are served the layouts over them are accepted, and
stand for what they would if the tags were part of the grammar.
-/
namespace Stencil

open Layout

theorem Script.encloses (name : String) (lenient lenient' : Bool) :
    (program ⟨[⟨.skipUntil .tagEnd, lenient⟩, ⟨.body ("end" ++ name), lenient'⟩], .block name⟩).Encloses name :=
  .here _ fun p => .there ⟨_, rfl, .there ⟨_, rfl, fun _ => .there ⟨p.offset, rfl⟩⟩⟩

/-- Behind its name a tag that encloses a body is read up to its own closer: what comes after that, and nothing else, is
left. -/
theorem run_of_encloses {tags : Catalog} {names : List String} (h : Serves tags names) {name : String} (hname : name ∈ names)
    (word : {t : Token // t.isWord name = true}) (skipped : Skipped) (closing : TokenOf .tagEnd) (body : List (Item names))
    (closer : Closer ("end" ++ name)) {rest : List Token} {program : Program} {n : Nat} {p : Progress}
    (hfind : tags.find? name = some program)
    (hfits : (Tag.enclosing name hname word skipped closing body closer).Fits rest)
    (hn : (tokensOf body ++ (closer.tokens ++ rest)).length < n)
    (hp : p.feed.Faces (skipped.1 ++ closing.1 :: (tokensOf body ++ (closer.tokens ++ rest)))) :
    ∃ node q, (program.run (Reading.tag tags n) (Reading.body tags n)).run p = .done node q ∧
      node.unplaced = (Tag.enclosing name hname word skipped closing body closer).node.unplaced ∧ q.feed.Faces rest := by
  obtain ⟨_, hfind', hprogram⟩ := h.find name hname
  cases hfind.symm.trans hfind'
  have hbody := reaches_body h n ("end" ++ name) (fun m hm => (h.apart m hm).2.2 name hname) body closer rest hfits.1
    hfits.2 hn
  exact reaches_of_encloses hprogram (gives_arguments skipped closing _) hbody word.1.place.offset p hp

/-- **Tags that enclose a body nest with the tags of the grammar at any depth.**  A source whose tokens have a layout over
the names that a draft serves is accepted, and up to places its root is what the layout stands for.  Each call of a
program for one of the names leaves what comes right after the closer of its own tag. -/
theorem Draft.parse_enclosing (d : Draft) {names : List String} (hnames : Serves d.tags names) {source : String}
    {us : List Token} {e : Token} (hscan : scan source = us ++ [e]) (he : e.kind = .endOfInput) {is : List (Item names)}
    (his : Derives us is) :
    (d.parse source).2.transcript.fault = none ∧ (d.parse source).1.parsed = true ∧
      unplacedAll (d.parse source).1.root = unplacedAll (nodesOf is) ∧
      ∀ {name : String} (hname : name ∈ names) (word : {t : Token // t.isWord name = true}) (skipped : Skipped)
        (closing : TokenOf .tagEnd) (body : List (Item names)) (closer : Closer ("end" ++ name)) (rest : List Token)
        (program : Program) (n : Nat) (p : Progress), d.tags.find? name = some program →
          (Tag.enclosing name hname word skipped closing body closer).Fits rest →
          (tokensOf body ++ (closer.tokens ++ rest)).length < n →
          p.feed.Faces (skipped.1 ++ closing.1 :: (tokensOf body ++ (closer.tokens ++ rest))) →
          ∃ node q, (program.run (Reading.tag d.tags n) (Reading.body d.tags n)).run p = .done node q ∧
            node.unplaced = (Tag.enclosing name hname word skipped closing body closer).node.unplaced ∧
            q.feed.Faces rest := by
  have hplain : ∀ t ∈ us, t.kind ≠ .endOfInput ∧ t.kind ≠ .error := by
    obtain ⟨us', e', hscan', hus', -⟩ := exists_scan source
    obtain ⟨rfl, -⟩ := List.append_inj' (hscan.symm.trans hscan') rfl
    exact hus'
  obtain ⟨hfault, hroot⟩ := transcript_of_serves hnames he hplain his
  rw [← hscan] at hfault hroot
  rw [transcript_scan, parsed_scan, root_scan]
  refine ⟨hfault, ?_, hroot, fun hname word skipped closing body closer rest program n p hfind hfits hn hp => ?_⟩
  · rw [hfault]
    rfl
  · exact run_of_encloses hnames hname word skipped closing body closer hfind hfits hn hp

/-! ## A box in a conditional in a note -/

def annotated : String := "\x7b% note a %\x7d\x7b% if x %\x7d\x7b% box %\x7dy\x7b% endbox %\x7d\x7b% endif %\x7d\x7b% endnote z %\x7d"

def annotating : Catalog :=
  (Catalog.empty.register "note" (.enclosing "note")).register "box"
    (Script.program ⟨[⟨.skipUntil .tagEnd, false⟩, ⟨.body "endbox", true⟩], .block "box"⟩)

theorem serves_annotating : Serves annotating ["note", "box"] where
  find := List.forall_mem_cons.2 ⟨⟨_, rfl, Program.encloses_enclosing "note"⟩,
    List.forall_mem_singleton.2 ⟨_, rfl, Script.encloses "box" false true⟩⟩
  apart := by decide

def annotatedLayout : List (Item ["note", "box"]) :=
  [.tag (.of ⟨.tagStart, "\x7b%", ⟨0, 1, 1⟩⟩)
    (.enclosing "note" (by simp) ⟨⟨.identifier, "note", ⟨3, 1, 4⟩⟩, by decide⟩
      ⟨[⟨.identifier, "a", ⟨8, 1, 9⟩⟩], by decide⟩ (.of ⟨.tagEnd, "%\x7d", ⟨10, 1, 11⟩⟩)
      [.tag (.of ⟨.tagStart, "\x7b%", ⟨12, 1, 13⟩⟩)
        (.conditional (.of ⟨.ifWord, "if", ⟨15, 1, 16⟩⟩)
          ⟨[⟨⟨.identifier, "x", ⟨18, 1, 19⟩⟩, .ident 18 "x", .name _ rfl⟩], .of ⟨.tagEnd, "%\x7d", ⟨20, 1, 21⟩⟩⟩
          [.tag (.of ⟨.tagStart, "\x7b%", ⟨22, 1, 23⟩⟩)
            (.enclosing "box" (by simp) ⟨⟨.identifier, "box", ⟨25, 1, 26⟩⟩, by decide⟩ ⟨[], by decide⟩
              (.of ⟨.tagEnd, "%\x7d", ⟨29, 1, 30⟩⟩) [.text (.of ⟨.text, "y", ⟨31, 1, 32⟩⟩)]
              ⟨.of ⟨.tagStart, "\x7b%", ⟨32, 1, 33⟩⟩, ⟨⟨.identifier, "endbox", ⟨35, 1, 36⟩⟩, by decide⟩,
                ⟨[], by decide⟩, some (.of ⟨.tagEnd, "%\x7d", ⟨42, 1, 43⟩⟩)⟩)]
          (.close ⟨.of ⟨.tagStart, "\x7b%", ⟨44, 1, 45⟩⟩, ⟨⟨.identifier, "endif", ⟨47, 1, 48⟩⟩, by decide⟩,
            ⟨[], by decide⟩, some (.of ⟨.tagEnd, "%\x7d", ⟨53, 1, 54⟩⟩)⟩))]
      ⟨.of ⟨.tagStart, "\x7b%", ⟨55, 1, 56⟩⟩, ⟨⟨.identifier, "endnote", ⟨58, 1, 59⟩⟩, by decide⟩,
        ⟨[⟨.identifier, "z", ⟨66, 1, 67⟩⟩], by decide⟩, some (.of ⟨.tagEnd, "%\x7d", ⟨68, 1, 69⟩⟩)⟩)]

theorem scan_annotated : scan annotated = tokensOf annotatedLayout ++ [⟨.endOfInput, "", ⟨70, 1, 71⟩⟩] := by
  have h : Scans .text .origin annotated.toList (tokensOf annotatedLayout ++ [⟨.endOfInput, "", ⟨70, 1, 71⟩⟩]) :=
    .opening .tag <| .blank rfl <| .lexeme "note".toList rfl <| .blank rfl <| .lexeme ['a'] rfl <| .blank rfl <|
    .closing .tag <|
    .opening .tag <| .blank rfl <| .lexeme "if".toList rfl <| .blank rfl <| .lexeme ['x'] rfl <| .blank rfl <|
    .closing .tag <|
    .opening .tag <| .blank rfl <| .lexeme "box".toList rfl <| .blank rfl <| .closing .tag <| .run ['y'] rfl <|
    .opening .tag <| .blank rfl <| .lexeme "endbox".toList rfl <| .blank rfl <| .closing .tag <|
    .opening .tag <| .blank rfl <| .lexeme "endif".toList rfl <| .blank rfl <| .closing .tag <|
    .opening .tag <| .blank rfl <| .lexeme "endnote".toList rfl <| .blank rfl <| .lexeme ['z'] rfl <| .blank rfl <|
    .closing .tag <| .done _
  exact h.eq_scan.symm

theorem derives_annotated : Derives (tokensOf annotatedLayout) annotatedLayout :=
  ⟨rfl, ⟨⟨⟨⟨⟨⟨trivial, trivial⟩, fun h => by cases h⟩, trivial⟩, fun h => by cases h⟩, trivial⟩, fun h => by cases h⟩, trivial⟩

theorem Draft.parse_annotated :
    ((fresh "t" annotating).parse annotated).2.transcript.fault = none ∧
      unplacedAll ((fresh "t" annotating).parse annotated).1.root =
        [.block 0 "note" [] [.conditional 0 [.ident 0 "x"] [.block 0 "box" [] [.text 0 "y"]] none]] := by
  obtain ⟨hfault, -, hroot, -⟩ := parse_enclosing (fresh "t" annotating) serves_annotating scan_annotated rfl derives_annotated
  exact ⟨hfault, hroot⟩

end Stencil
