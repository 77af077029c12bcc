import Stencil.Proofs.Places
import Stencil.Proofs.Spelling
/-!
# Blanks between the lexemes of a tag

Within a tag, blanks may be put wherever a token starts and wherever one ends: in front of the closing delimiter and
behind the opening one, between two lexemes that stand side by side, and in front of the error that stops the scan.  The
scan delivers the same tokens in other places, down to the message of the error, and so reading comes to the same nodes but
for their places, or to a fault of the same cause.

What has to be seen is that a blank behind a lexeme ends it just as what stood there before did.  In front of a lexeme, a
delimiter or an error a blank changes nothing.
-/
namespace Stencil

/-! ## Where blanks may go -/

/-- An offset within a tag where a token starts, or where one ends that is not the error. -/
def Joint (ts : List Token) (x : Nat) : Prop :=
  ∃ before t after, ts = before ++ t :: after ∧
    (TagOpen before ∧ x = t.place.offset ∨ TagOpen (before ++ [t]) ∧ t.kind ≠ .error ∧ x = t.stop)

/-- Blanks in front of the characters, by offset, and behind the last one. -/
def padFrom (blanks : Nat → List Char) : Nat → List Char → List Char
  | n, [] => blanks n
  | n, c :: cs => blanks n ++ c :: padFrom blanks (n + c.utf8Size) cs

def padded (blanks : Nat → List Char) (source : String) : String := String.ofList (padFrom blanks 0 source.toList)

/-- Spaces and tabs, only where they may go. -/
structure Pads (blanks : Nat → List Char) (ts : List Token) : Prop where
  blank : ∀ x, Blank (blanks x)
  joint : ∀ x, blanks x ≠ [] → Joint ts x

/-! ## The same from any token on -/

def openBehind (inside : Bool) (ts : List Token) : Bool := ts.foldl (fun inside t => t.kind.leavesOpen inside) inside

/-- A joint among tokens, given whether a tag is open in front of them. -/
def JointFrom (inside : Bool) (ts : List Token) (x : Nat) : Prop :=
  ∃ before t after, ts = before ++ t :: after ∧
    (openBehind inside before = true ∧ x = t.place.offset ∨
      openBehind inside (before ++ [t]) = true ∧ t.kind ≠ .error ∧ x = t.stop)

theorem openBehind_of_forall {ts : List Token} (h : ∀ t ∈ ts, t.kind ≠ .tagEnd ∧ t.kind ≠ .varEnd) :
    openBehind true ts = true := by
  induction ts with
  | nil => rfl
  | cons t ts ih =>
    obtain ⟨ht, hts⟩ := List.forall_mem_cons.1 h
    have hkeeps : t.kind.leavesOpen true = true := by
      cases hk : t.kind <;> first | rfl | exact absurd hk ht.1 | exact absurd hk ht.2
    show openBehind (t.kind.leavesOpen true) ts = true
    rw [hkeeps]
    exact ih hts

theorem TagOpen.openBehind {ts : List Token} (h : TagOpen ts) (inside : Bool) : openBehind inside ts = true := by
  obtain ⟨before, opener, inner, rfl, hopener, hinner⟩ := h
  have hopens : ∀ inside, opener.kind.leavesOpen inside = true := by
    intro inside
    rcases hopener with hk | hk <;> rw [hk] <;> rfl
  rw [Stencil.openBehind, List.foldl_append, List.foldl_cons, hopens]
  exact openBehind_of_forall hinner

theorem Joint.jointFrom {ts : List Token} {x : Nat} (h : Joint ts x) : JointFrom false ts x := by
  obtain ⟨before, t, after, hts, ⟨hopen, hx⟩ | ⟨hopen, hx⟩⟩ := h
  · exact ⟨before, t, after, hts, .inl ⟨hopen.openBehind false, hx⟩⟩
  · exact ⟨before, t, after, hts, .inr ⟨hopen.openBehind false, hx⟩⟩

theorem not_jointFrom_nil {inside : Bool} {x : Nat} : ¬JointFrom inside [] x := by
  rintro ⟨before, t, after, h, -⟩
  cases before <;> cases h

theorem JointFrom.uncons {inside : Bool} {t : Token} {ts : List Token} {x : Nat} (h : JointFrom inside (t :: ts) x) :
    (inside = true ∧ x = t.place.offset) ∨ (t.kind.leavesOpen inside = true ∧ t.kind ≠ .error ∧ x = t.stop) ∨
      JointFrom (t.kind.leavesOpen inside) ts x := by
  obtain ⟨before, u, after, hts, hx⟩ := h
  cases before with
  | nil =>
    obtain ⟨rfl, rfl⟩ := List.cons.inj hts
    rcases hx with ⟨hopen, hx⟩ | ⟨hopen, hx⟩
    · exact .inl ⟨hopen, hx⟩
    · exact .inr (.inl ⟨hopen, hx⟩)
  | cons v before =>
    obtain ⟨rfl, rfl⟩ := List.cons.inj hts
    exact .inr (.inr ⟨before, u, after, rfl, hx⟩)

theorem Tiles.le_joint {inside : Bool} {start : Nat} {cs : List Char} {ts : List Token} (h : Tiles inside start cs ts)
    {x : Nat} (hx : JointFrom inside ts x) : start ≤ x ∧ (inside = false → start < x) := by
  induction h with
  | @last inside start gap cs t _ hat ht =>
    have hstop : t.place.offset ≤ t.stop := Nat.le_add_right _ _
    rcases hx.uncons with ⟨hinside, rfl⟩ | ⟨hopen, herror, rfl⟩ | hnil
    · exact ⟨by omega, fun hout => by rw [hinside] at hout; cases hout⟩
    · refine ⟨by omega, fun hout => ?_⟩
      rcases ht with ⟨hk, -, -⟩ | hk
      · rw [hk, hout] at hopen
        cases hopen
      · exact absurd hk herror
    · exact absurd hnil not_jointFrom_nil
  | @token inside start gap cs t ts _ hat ht _ ih =>
    have hstop := ht.lt_stop
    rcases hx.uncons with ⟨hinside, rfl⟩ | ⟨-, -, rfl⟩ | htail
    · exact ⟨by omega, fun hout => by rw [hinside] at hout; cases hout⟩
    · exact ⟨by omega, fun _ => by omega⟩
    · have hle := (ih htail).1
      exact ⟨by omega, fun _ => by omega⟩

/-- Where blanks stand from an offset on: at the offset itself, if a tag is open there, or at a joint of what follows. -/
def MayPad (blanks : Nat → List Char) (inside : Bool) (start : Nat) (ts : List Token) : Prop :=
  ∀ x, start ≤ x → blanks x ≠ [] → inside = true ∧ x = start ∨ JointFrom inside ts x

namespace MayPad

variable {blanks : Nat → List Char} {inside : Bool} {start : Nat} {t : Token} {ts : List Token} {cs : List Char}

theorem start_text (h : MayPad blanks false start ts) (htiles : Tiles false start cs ts) : blanks start = [] := by
  by_contra hne
  rcases h start (Nat.le_refl start) hne with ⟨hinside, -⟩ | hjoint
  · cases hinside
  · exact absurd ((htiles.le_joint hjoint).2 rfl) (Nat.lt_irrefl start)

theorem uncons (h : MayPad blanks inside start (t :: ts)) (hplace : t.place.offset = start) (hlt : start < t.stop)
    (htail : Tiles (t.kind.leavesOpen inside) t.stop cs ts) :
    MayPad blanks (t.kind.leavesOpen inside) t.stop ts ∧ ∀ x, start < x → x < t.stop → blanks x = [] := by
  have hbehind : ∀ x, start < x → blanks x ≠ [] →
      t.kind.leavesOpen inside = true ∧ x = t.stop ∨ JointFrom (t.kind.leavesOpen inside) ts x := by
    intro x hx hne
    rcases h x (Nat.le_of_lt hx) hne with ⟨-, hstart⟩ | hjoint
    · omega
    · rcases hjoint.uncons with ⟨-, hstart⟩ | ⟨hopen, -, hstop⟩ | htail
      · omega
      · exact .inl ⟨hopen, hstop⟩
      · exact .inr htail
  constructor
  · intro x hx hne
    exact hbehind x (by omega) hne
  · intro x hx hstop
    by_contra hne
    rcases hbehind x hx hne with ⟨-, rfl⟩ | hjoint
    · exact absurd hstop (Nat.lt_irrefl _)
    · have hle := (htail.le_joint hjoint).1
      omega

theorem last_error {p : Place} {message : String} (h : MayPad blanks inside p.offset [⟨.error, message, p⟩]) {x : Nat}
    (hx : p.offset < x) : blanks x = [] := by
  by_contra hne
  rcases h x (Nat.le_of_lt hx) hne with ⟨-, hstart⟩ | hjoint
  · omega
  · rcases hjoint.uncons with ⟨-, hstart⟩ | ⟨-, herror, -⟩ | hnil
    · exact absurd hstart (Nat.ne_of_gt hx)
    · exact herror rfl
    · exact not_jointFrom_nil hnil

end MayPad

/-! ## Blanks put in -/

section
variable {blanks : Nat → List Char}

theorem padFrom_eq {n : Nat} {cs : List Char} (h : ∀ x, n < x → blanks x = []) : padFrom blanks n cs = blanks n ++ cs := by
  induction cs generalizing n with
  | nil => rw [padFrom, List.append_nil]
  | cons c cs ih =>
    have hpos := c.utf8Size_pos
    have hnone : blanks (n + c.utf8Size) = [] := h _ (by omega)
    rw [padFrom, ih fun x hx => h x (by omega), hnone, List.nil_append]

theorem padFrom_append {cs : List Char} (hne : cs ≠ []) (rest : List Char) : ∀ {n : Nat},
    (∀ x, n < x → x < n + byteLength cs → blanks x = []) →
      padFrom blanks n (cs ++ rest) = blanks n ++ (cs ++ padFrom blanks (n + byteLength cs) rest) := by
  induction cs with
  | nil => exact absurd rfl hne
  | cons c cs ih =>
    intro n h
    have hpos := c.utf8Size_pos
    rw [byteLength_cons] at h
    rw [List.cons_append, padFrom, byteLength_cons, List.cons_append]
    cases cs with
    | nil => rw [byteLength_nil, Nat.add_zero, List.nil_append, List.nil_append]
    | cons d cs =>
      have hpos' := d.utf8Size_pos
      have hnone : blanks (n + c.utf8Size) = [] := h _ (by omega) (by rw [byteLength_cons]; omega)
      rw [ih (by simp) fun x hx hlt => h x (by omega) (by omega), hnone, List.nil_append, Nat.add_assoc]

theorem head?_padFrom {n : Nat} (h : blanks n = []) : ∀ cs : List Char, (padFrom blanks n cs).head? = cs.head?
  | [] => by rw [padFrom, h]
  | c :: cs => by rw [padFrom, h, List.nil_append, List.head?_cons, List.head?_cons]

end

/-! ## Scans of what has blanks in it -/

theorem Scans.blanks {depth : Nat} {us : List Token} {rest : List Char} : ∀ {bs : List Char} {p : Place}, Blank bs →
    Scans (.inside depth) (p.after bs) rest us → Scans (.inside depth) p (bs ++ rest) us
  | [], _, _, h => h
  | _ :: _, _, hbs, h =>
    have hbs' := List.forall_mem_cons.1 hbs
    .blank (pieceAt_blank hbs'.1 depth _) (Scans.blanks hbs'.2 h)

theorem pieceAt_padFrom {blanks : Nat → List Char} (hblank : ∀ x, Blank (blanks x)) {depth : Nat} {kind : Kind}
    {cs rest : List Char} (h : pieceAt depth (cs ++ rest) = .lexeme kind cs.length) (n : Nat) :
    pieceAt depth (cs ++ padFrom blanks n rest) = .lexeme kind cs.length := by
  cases hb : blanks n with
  | nil =>
    -- what comes next is what came next before
    have htake : (cs ++ rest).take (cs.length + 1) = (cs ++ padFrom blanks n rest).take (cs.length + 1) := by
      rw [List.take_length_add_append, List.take_length_add_append, List.take_one, List.take_one, head?_padFrom hb]
    have hfault : ∀ f, pieceAt depth (cs ++ rest) ≠ .fault f := by simp [h]
    have hsame : pieceAt depth (cs ++ padFrom blanks n rest) = pieceAt depth (cs ++ rest) :=
      pieceAt_eq_of_take hfault (by rw [h]; exact htake)
    rw [hsame, h]
  | cons b bs =>
    have hlexical := lexical_of_pieceAt h
    rw [List.take_left] at hlexical
    have hpad : ∃ more, padFrom blanks n rest = b :: more := by
      cases rest with
      | nil => exact ⟨bs, by rw [padFrom, hb]⟩
      | cons c rest => exact ⟨_, by rw [padFrom, hb]; rfl⟩
    obtain ⟨more, hmore⟩ := hpad
    have hbBlank : b = ' ' ∨ b = '\t' := hblank n b (by rw [hb]; exact List.mem_cons_self)
    rw [hmore]
    exact hlexical.before_blank (pieceAt_eq_lexeme h).2.2.2 hbBlank more

/-- Behind a token of a scan blanks may stand as before, and those in front of it are all that it is given. -/
theorem MayPad.behind (zone zone' : Zone) {blanks : Nat → List Char} {kind : Kind} {p : Place} {cs rest : List Char}
    {ts : List Token} (h : MayPad blanks zone.isInside p.offset (⟨kind, String.ofList cs, p⟩ :: ts)) (hne : cs ≠ [])
    (hzone : kind.leavesOpen zone.isInside = zone'.isInside) (tail : Scans zone' (p.after cs) rest ts) :
    MayPad blanks zone'.isInside (p.after cs).offset ts ∧
      padFrom blanks p.offset (cs ++ rest) = blanks p.offset ++ (cs ++ padFrom blanks (p.after cs).offset rest) := by
  have hstop := Token.stop_ofList kind cs p
  have hlt : p.offset < (p.after cs).offset := by
    rw [Place.offset_after]
    exact Nat.lt_add_of_pos_right (byteLength_pos hne)
  have htiles : Tiles (kind.leavesOpen zone.isInside) (Token.stop ⟨kind, String.ofList cs, p⟩) rest ts := by
    rw [hzone, hstop]
    exact tail.tiles
  obtain ⟨hbehind, hwithin⟩ := h.uncons rfl (by rw [hstop]; exact hlt) htiles
  rw [hstop] at hbehind hwithin
  rw [← hzone]
  refine ⟨hbehind, ?_⟩
  rw [Place.offset_after] at hwithin ⊢
  exact padFrom_append hne rest hwithin

/-- **Blanks put in where they may go change the places of the tokens only.** -/
theorem Scans.padded {blanks : Nat → List Char} (hblank : ∀ x, Blank (blanks x)) {zone : Zone} {p : Place} {cs : List Char}
    {ts : List Token} (h : Scans zone p cs ts) : MayPad blanks zone.isInside p.offset ts →
      ∀ q : Place, ∃ us, us.map Token.content = ts.map Token.content ∧ Scans zone q (padFrom blanks p.offset cs) us := by
  induction h with
  | done p =>
    intro hpad q
    have hnone : blanks p.offset = [] := hpad.start_text (Scans.done p).tiles
    rw [padFrom, hnone]
    exact ⟨[⟨.endOfInput, "", q⟩], rfl, .done q⟩
  | @text p cs rest ts hne hcs hrest tail ih =>
    intro hpad q
    have hnone : blanks p.offset = [] := hpad.start_text (Scans.text cs hne hcs hrest tail).tiles
    obtain ⟨hbehind, hcsPad⟩ := hpad.behind .text .text hne rfl tail
    have hhead := head?_padFrom (hbehind.start_text tail.tiles) rest
    obtain ⟨us, hus, hscan⟩ := ih hbehind (q.after cs)
    refine ⟨⟨.text, String.ofList cs, q⟩ :: us, congrArg (_ :: ·) hus, ?_⟩
    rw [hcsPad, hnone]
    exact .text cs hne hcs (by rwa [hhead]) hscan
  | @opening p d rest ts tail ih =>
    intro hpad q
    have hnone : blanks p.offset = [] := hpad.start_text (Scans.opening d tail).tiles
    obtain ⟨hbehind, hcsPad⟩ := hpad.behind .text (.inside 0) (by cases d <;> decide) (by cases d <;> rfl) tail
    obtain ⟨us, hus, hscan⟩ := ih hbehind (q.after d.openText)
    refine ⟨⟨d.openKind, String.ofList d.openText, q⟩ :: us, congrArg (_ :: ·) hus, ?_⟩
    rw [hcsPad, hnone]
    exact .opening d hscan
  | @stray p rest h =>
    intro hpad q
    have hnone : blanks p.offset = [] := hpad.start_text (Scans.stray h).tiles
    rw [padFrom_eq fun x hx => hpad.last_error hx, hnone, List.nil_append]
    exact ⟨[⟨.error, (ScanFault.strayBrace (('{' :: rest).take 2)).message, q⟩], rfl, .stray h⟩
  | @blank depth p c rest ts h tail ih =>
    intro hpad q
    obtain ⟨_, _, hcons, hc⟩ := pieceAt_eq_blank h
    obtain ⟨rfl, rfl⟩ := List.cons.inj hcons
    have hpos := c.utf8Size_pos
    have hbehind : MayPad blanks true (p.next c).offset ts := by
      intro x hx hne
      rw [Place.offset_next] at hx
      rcases hpad x (by omega) hne with ⟨-, hstart⟩ | hjoint
      · omega
      · exact .inr hjoint
    obtain ⟨us, hus, hscan⟩ := ih hbehind ((q.after (blanks p.offset)).next c)
    refine ⟨us, hus, ?_⟩
    rw [Place.offset_next] at hscan
    exact .blanks (hblank _) (.blank (pieceAt_blank hc depth _) hscan)
  | @lexeme depth p kind cs rest ts h tail ih =>
    intro hpad q
    obtain ⟨hpos, -, hinner, -⟩ := pieceAt_eq_lexeme h
    obtain ⟨hbehind, hcsPad⟩ := hpad.behind (.inside depth) (.inside (kind.depthAfter depth))
      (List.length_pos_iff.1 hpos) (Kind.leavesOpen_of_isInner hinner true) tail
    obtain ⟨us, hus, hscan⟩ := ih hbehind ((q.after (blanks p.offset)).after cs)
    refine ⟨⟨kind, String.ofList cs, q.after (blanks p.offset)⟩ :: us, congrArg (_ :: ·) hus, ?_⟩
    rw [hcsPad]
    exact .blanks (hblank _) (.lexeme cs (pieceAt_padFrom hblank h _) hscan)
  | @closing p d rest ts tail ih =>
    intro hpad q
    obtain ⟨hbehind, hcsPad⟩ := hpad.behind (.inside 0) .text (by cases d <;> decide) (by cases d <;> rfl) tail
    obtain ⟨us, hus, hscan⟩ := ih hbehind ((q.after (blanks p.offset)).after d.closeText)
    refine ⟨⟨d.closeKind, String.ofList d.closeText, q.after (blanks p.offset)⟩ :: us, congrArg (_ :: ·) hus, ?_⟩
    rw [hcsPad]
    exact .blanks (hblank _) (.closing d hscan)
  | @fault depth p cs f h =>
    intro hpad q
    rw [padFrom_eq fun x hx => hpad.last_error hx]
    exact ⟨[⟨.error, f.message, q.after (blanks p.offset)⟩], rfl, .blanks (hblank _) (.fault h)⟩

/-! ## Sources with blanks in them -/

theorem content_scan_padded {source : String} {blanks : Nat → List Char} (h : Pads blanks (scan source)) :
    (scan (padded blanks source)).map Token.content = (scan source).map Token.content := by
  have hpad : MayPad blanks false 0 (scan source) := fun x _ hne => .inr (h.joint x hne).jointFrom
  obtain ⟨us, hus, hscan⟩ := (scans_scan source).padded h.blank hpad .origin
  have hscan' : Scans .text .origin (padded blanks source).toList us := by
    rw [padded, String.toList_ofList]
    exact hscan
  rw [← hscan'.eq_scan, hus]

theorem Draft.render_congr {d d' : Draft} (hname : d'.name = d.name) (hparsed : d'.parsed = d.parsed)
    (hroot : unplacedAll d'.root = unplacedAll d.root) (leave : Bool) : d'.render leave = d.render leave := by
  unfold render nodes
  rw [hname, hparsed]
  by_cases hread : d.parsed = true
  · rw [if_pos hread, if_pos hread]
    exact renderAll_of_unplacedAll_eq leave hroot
  · rw [if_neg hread, if_neg hread]

/-- **Blanks between the tokens of a tag do not matter.**  Wherever spaces and tabs are put in at joints of a source, be it
accepted or not, the scan delivers the same kinds and texts; and a draft without tags of its own reads it to a fault with
the same cause, if to any, and to the same nodes but for their places, and comes out the same. -/
theorem Draft.parse_padded {source : String} {blanks : Nat → List Char} (h : Pads blanks (scan source)) :
    (scan (padded blanks source)).map Token.content = (scan source).map Token.content ∧
      ∀ d : Draft, d.tags = .empty →
        (d.parse (padded blanks source)).2.transcript.fault.map ParseFault.cause =
            (d.parse source).2.transcript.fault.map ParseFault.cause ∧
          unplacedAll (d.parse (padded blanks source)).1.root = unplacedAll (d.parse source).1.root ∧
            ∀ leave, (d.parse (padded blanks source)).1.render leave = (d.parse source).1.render leave := by
  have hcontent := content_scan_padded h
  refine ⟨hcontent, fun d hd => ?_⟩
  obtain ⟨hroot, hfault⟩ := transcript_alike (alike_of_content hcontent) trivial
  have hcause : (Transcript.ofTokens .empty (scan (padded blanks source))).fault.map ParseFault.cause =
      (Transcript.ofTokens .empty (scan source)).fault.map ParseFault.cause := by
    rcases hfault with ⟨hnone, hnone'⟩ | ⟨e, e', he, he', halike⟩
    · rw [hnone, hnone']
    · rw [he, he', Option.map_some, Option.map_some, halike.cause]
  rw [← root_parse hd, ← root_parse hd] at hroot
  refine ⟨?_, hroot, render_congr rfl ?_ hroot⟩
  · rw [transcript_parse hd, transcript_parse hd, hcause]
  · rw [parsed_scan, parsed_scan, hd, ← Option.isNone_map, hcause, Option.isNone_map]

def terse : String := "\x7b%if 1==+1%\x7dy\x7b%endif%\x7d"

def terseTokens : List Token :=
  [⟨.tagStart, "\x7b%", ⟨0, 1, 1⟩⟩, ⟨.ifWord, "if", ⟨2, 1, 3⟩⟩, ⟨.number, "1", ⟨5, 1, 6⟩⟩, ⟨.comparison, "==", ⟨6, 1, 7⟩⟩,
    ⟨.number, "+1", ⟨8, 1, 9⟩⟩, ⟨.tagEnd, "%\x7d", ⟨10, 1, 11⟩⟩, ⟨.text, "y", ⟨12, 1, 13⟩⟩,
    ⟨.tagStart, "\x7b%", ⟨13, 1, 14⟩⟩, ⟨.identifier, "endif", ⟨15, 1, 16⟩⟩, ⟨.tagEnd, "%\x7d", ⟨20, 1, 21⟩⟩,
    ⟨.endOfInput, "", ⟨22, 1, 23⟩⟩]

theorem scan_terse : scan terse = terseTokens := by
  have h : Scans .text .origin terse.toList terseTokens :=
    .opening .tag <| .lexeme "if".toList rfl <| .blank rfl <| .lexeme ['1'] rfl <| .lexeme "==".toList rfl <|
    .lexeme "+1".toList rfl <| .closing .tag <| .run ['y'] rfl <|
    .opening .tag <| .lexeme "endif".toList rfl <| .closing .tag <| .done _
  exact h.eq_scan.symm

def generous (x : Nat) : List Char := if x = 2 ∨ x = 6 ∨ x = 20 then [' '] else if x = 8 then ['\t', ' '] else []

theorem pads_generous : Pads generous (scan terse) := by
  constructor
  case blank =>
    intro x
    unfold generous
    split
    · simp [Blank]
    · split <;> simp [Blank]
  case joint =>
    intro x hx
    have hcases : x = 2 ∨ x = 6 ∨ x = 8 ∨ x = 20 := by
      by_contra hnone
      apply hx
      rw [generous, if_neg (by omega), if_neg (by omega)]
    rw [scan_terse]
    rcases hcases with rfl | rfl | rfl | rfl
    · exact ⟨[], _, terseTokens.drop 1, rfl, .inr ⟨⟨[], _, [], rfl, .inl rfl, by simp⟩, by decide, rfl⟩⟩
    · exact ⟨terseTokens.take 3, _, terseTokens.drop 4, rfl, .inl ⟨⟨[], _, [_, _], rfl, .inl rfl, by decide⟩, rfl⟩⟩
    · exact ⟨terseTokens.take 4, _, terseTokens.drop 5, rfl, .inl ⟨⟨[], _, [_, _, _], rfl, .inl rfl, by decide⟩, rfl⟩⟩
    · exact ⟨terseTokens.take 9, _, terseTokens.drop 10, rfl,
        .inl ⟨⟨terseTokens.take 7, _, [_], rfl, .inl rfl, by decide⟩, rfl⟩⟩

theorem Draft.parse_padded_terse :
    padded generous terse = "\x7b% if 1 ==\t +1%\x7dy\x7b%endif %\x7d" ∧ Pads generous (scan terse) ∧
      (scan (padded generous terse)).map Token.content = (scan terse).map Token.content ∧
        ∀ leave, ((fresh "t" .empty).parse (padded generous terse)).1.render leave =
          ((fresh "t" .empty).parse terse).1.render leave :=
  ⟨by decide, pads_generous, (parse_padded pads_generous).1, ((parse_padded pads_generous).2 _ rfl).2.2⟩

end Stencil
