import Stencil.Proofs.Measures
/-!
# A meter scans as the scanner does

Turn by turn a meter comes to what the scanner comes to, and delivers the same tokens (`Meter.Accords`).  So from the
start of a source its counters always show how far the scan has come, whatever the mode: they never run past each other,
none of them falls into a character, and no slice that is asked for is missing.

What a turn relies on, the turn before has left: a delimiter that was seen, a quote that was read, the parentheses that
are open (`Stage.Poised`).
-/
namespace Stencil

/-! ## Turns -/

/-- A tag or a variable has been opened by `ts`, is not closed yet, and has `depth` parentheses open. -/
def Opened (ts : List Token) (depth : Nat) : Prop :=
  ∃ before opener inner, ts = before ++ opener :: inner ∧ (opener.kind = .tagStart ∨ opener.kind = .varStart) ∧
    (∀ t ∈ inner, t.kind.isInner = true) ∧
      depth + inner.countP (·.kind == .rightParen) = inner.countP (·.kind == .leftParen)

theorem opened_opener (ts : List Token) {t : Token} (h : t.kind = .tagStart ∨ t.kind = .varStart) :
    Opened (ts ++ [t]) 0 := ⟨ts, t, [], rfl, h, by simp, rfl⟩

theorem Opened.concat {ts : List Token} {depth : Nat} (h : Opened ts depth) {t : Token} (hinner : t.kind.isInner = true)
    (hparen : t.kind = .rightParen → 0 < depth) : Opened (ts ++ [t]) (t.kind.depthAfter depth) := by
  obtain ⟨before, opener, inner, rfl, hopener, hforall, hdepth⟩ := h
  refine ⟨before, opener, inner ++ [t], by rw [List.append_assoc]; rfl, hopener, ?_, ?_⟩
  · intro u hu
    rcases List.mem_append.1 hu with hu | hu
    · exact hforall u hu
    · rw [List.mem_singleton.1 hu]
      exact hinner
  · rw [List.countP_append, List.countP_append, List.countP_singleton, List.countP_singleton]
    by_cases hl : t.kind = .leftParen
    · rw [hl]
      simp [Kind.depthAfter]
      omega
    · by_cases hr : t.kind = .rightParen
      · have := hparen hr
        rw [hr]
        simp [Kind.depthAfter]
        omega
      · rw [Kind.depthAfter_of_ne ⟨hl, hr⟩]
        simp [hl, hr]
        omega

/-- A stage at which a scan may take a turn in a mode. -/
def Stage.Poised (v : Stage) : Mode → Prop
  | .text => v.lexeme = [] ∧ v.depth = 0
  | .opening d => v.lexeme = [] ∧ v.depth = 0 ∧ Delimiter.opens? v.rest = some d
  | .closing d => v.lexeme = [] ∧ v.depth = 0 ∧ Delimiter.closes? v.rest = some d
  | .inside | .number | .word => v.lexeme = [] ∧ Opened v.tokens v.depth
  | .string quote => v.lexeme = [quote] ∧ (quote = '"' ∨ quote = '\'') ∧ Opened v.tokens v.depth

namespace Meter

variable {source : String} {v w : Stage}

/-- `x` takes a meter that shows `v` to where the turn comes, and delivers what the turn does. -/
def Accords (source : String) (x : Metered (Option Mode)) (v : Stage) (turn : Turn) : Prop :=
  ∃ next w, Follows source x v next w ∧ turn.next = next.map w.scanner ∧ w.tokens = v.tokens ++ turn.tokens ∧
    ∀ mode, next = some mode → w.Poised mode

theorem Follows.accords_behind {α : Type} {x : Metered α} {f : α → Metered (Option Mode)} {a : α} {ts us : List Token}
    {next : Option Scanner} (hx : Follows source x v a w) (hv : w.tokens = v.tokens ++ ts)
    (hf : Accords source (f a) w ⟨us, next⟩) : Accords source (x >>= f) v ⟨ts ++ us, next⟩ := by
  obtain ⟨mode, u, hu, hnext, htokens, hpoised⟩ := hf
  exact ⟨mode, u, hx.bind hu, hnext, by rw [htokens, hv, List.append_assoc], hpoised⟩

theorem Follows.accords {α : Type} {x : Metered α} {f : α → Metered (Option Mode)} {a : α} {turn : Turn}
    (hx : Follows source x v a w) (hv : w.tokens = v.tokens) (hf : Accords source (f a) w turn) :
    Accords source (x >>= f) v turn := by
  have hnone : w.tokens = v.tokens ++ [] := by rw [hv, List.append_nil]
  exact hx.accords_behind hnone hf

theorem Accords.get {f : Meter → Metered (Option Mode)} {x : Metered (Option Mode)} {turn : Turn}
    (h : ∀ m : Meter, m.Shows source v → f m = x) (hx : Accords source x v turn) : Accords source (get >>= f) v turn := by
  obtain ⟨next, w, hw, hrest⟩ := hx
  refine ⟨next, w, .get fun m hm => ?_, hrest⟩
  rw [h m hm]
  exact hw

theorem accords_complain (fault : ScanFault) {s : Scanner} (hs : s.cursor.start = v.cursor.start) :
    Accords source (complain fault) v (s.complain fault) := by
  refine ⟨none, _, follows_complain fault, rfl, ?_, fun _ h => by cases h⟩
  show v.tokens ++ [v.cursor.complaint fault.message] = v.tokens ++ [s.cursor.complaint fault.message]
  rw [Cursor.complaint, Cursor.complaint, hs]

theorem accords_pure {mode : Mode} {s : Scanner} (hcursor : s.cursor = v.cursor) (hdepth : s.depth = v.depth)
    (h : v.Poised mode) : Accords source (pure (some mode)) v (s.goTo mode) := by
  refine ⟨some mode, v, follows_pure _ v, ?_, (List.append_nil _).symm, fun _ hmode => by cases hmode; exact h⟩
  show some (Scanner.mk mode s.depth s.cursor) = some (Scanner.mk mode v.depth v.cursor)
  rw [hcursor, hdepth]

theorem poised_emit {kind : Kind} (hopen : Opened v.tokens v.depth) (hinner : kind.isInner = true)
    (hparen : kind ≠ .leftParen ∧ kind ≠ .rightParen) : (v.emit kind).Poised .inside := by
  have h := hopen.concat (t := v.cursor.token kind) hinner fun h => absurd h hparen.2
  have hsame : (v.cursor.token kind).kind.depthAfter v.depth = v.depth := Kind.depthAfter_of_ne hparen _
  rw [hsame] at h
  exact ⟨rfl, h⟩

theorem accords_deliver {x : Metered (Option Mode)} {u : Stage} {kind : Kind} {mode : Mode} {s : Scanner}
    (hx : Follows source x v (some mode) (u.emit kind)) (htokens : u.tokens = v.tokens) (hcursor : s.cursor = u.cursor)
    (hdepth : s.depth = u.depth) (h : (u.emit kind).Poised mode) : Accords source x v (s.deliver kind mode) := by
  refine ⟨some mode, _, hx, ?_, ?_, fun _ hmode => by cases hmode; exact h⟩
  · show some (Scanner.mk mode s.depth s.cursor.settle) = some (Scanner.mk mode u.depth (u.emit kind).cursor)
    rw [hcursor, hdepth, Stage.emit, Stage.cursor_settle]
    rfl
  · show u.tokens ++ [u.cursor.token kind] = v.tokens ++ [s.cursor.token kind]
    rw [hcursor, htokens]

/-! ### Delimiters -/

theorem follows_delimiter {cs rest : List Char} (hrest : v.rest = cs ++ rest) (hlength : cs.length = 2)
    (hbytes : byteLength cs = 2) (hline : '\n' ∉ cs) (kind : Kind) (next : Mode) :
    Follows source (delimiter kind next) v (some next) ((v.read 2).emit kind) := by
  have htake : v.rest.take 2 = cs := by rw [hrest, List.take_left' hlength]
  have hread : Follows source (modify fun m => { m with pos := m.pos + 2 }) v () (v.read 2) := by
    intro m hm
    have hon := hm.readOn 2 (by rw [htake]; exact hline)
    rw [htake, hbytes] at hon
    exact ⟨rfl, hon⟩
  exact hread.bind ((follows_emit kind).bind (follows_pure _ _))

theorem accords_opening {d : Delimiter} (h : v.Poised (.opening d)) :
    Accords source (turn (.opening d)) v (v.scanner (.opening d)).turn := by
  obtain ⟨-, hdepth, hopens⟩ := h
  obtain ⟨rest, hrest⟩ := Delimiter.eq_of_opens? hopens
  have hx : Follows source (delimiter d.openKind .inside) v _ _ :=
    follows_delimiter hrest d.length_openText (by cases d <;> rfl) (by cases d <;> decide) d.openKind .inside
  refine accords_deliver hx rfl (v.cursor_read 2).symm rfl ⟨rfl, ?_⟩
  show Opened _ v.depth
  rw [hdepth]
  exact opened_opener _ (by cases d <;> simp [Cursor.token, Delimiter.openKind])

theorem accords_closing {d : Delimiter} (h : v.Poised (.closing d)) :
    Accords source (turn (.closing d)) v (v.scanner (.closing d)).turn := by
  obtain ⟨-, hdepth, hcloses⟩ := h
  obtain ⟨rest, hrest⟩ := Delimiter.eq_of_closes? hcloses
  have hx : Follows source (delimiter d.closeKind .text) v _ _ :=
    follows_delimiter hrest d.length_closeText (by cases d <;> rfl) (by cases d <;> decide) d.closeKind .text
  exact accords_deliver hx rfl (v.cursor_read 2).symm rfl ⟨rfl, hdepth⟩

/-! ### Lexemes -/

theorem accords_number (h : v.Poised .number) : Accords source (turn .number) v (v.scanner .number).turn :=
  accords_deliver follows_number rfl (v.cursor_read _).symm rfl (poised_emit h.2 rfl (by decide))

theorem accords_word (h : v.Poised .word) : Accords source (turn .word) v (v.scanner .word).turn :=
  accords_deliver (s := (v.scanner .word).read _) follows_word rfl (v.cursor_read _).symm rfl
    (poised_emit h.2 (wordKind_isInner _) (wordKind_ne_paren _))

theorem accords_string {quote : Char} (h : v.Poised (.string quote)) :
    Accords source (turn (.string quote)) v (v.scanner (.string quote)).turn := by
  show Accords source (quoted quote) v ((v.scanner (.string quote)).turnString quote)
  have hrest : (v.scanner (.string quote)).cursor.rest = v.rest := rfl
  unfold Scanner.turnString
  rw [hrest]
  obtain ⟨n, ⟨hq, hx⟩ | ⟨hq, hx⟩⟩ := follows_quoted source quote (rfl : v.rest = v.rest)
  · rw [hq]
    exact accords_deliver hx rfl (v.cursor_read n).symm rfl (poised_emit h.2.2 rfl (by decide))
  · rw [hq]
    exact ⟨none, _, hx, rfl, rfl, fun _ h => by cases h⟩

/-! ### Marks -/

theorem accords_one {kind : Kind} (hopen : Opened v.tokens v.depth) (hinner : kind.isInner = true)
    (hparen : kind ≠ .leftParen ∧ kind ≠ .rightParen) :
    Accords source (emitInside kind) (v.read 1) (((v.scanner .inside).read 1).deliver kind .inside) :=
  accords_deliver (follows_emitInside kind) rfl (v.cursor_read 1).symm rfl (poised_emit hopen hinner hparen)

theorem accords_two (hopen : Opened v.tokens v.depth) :
    Accords source (emitInside .comparison) (v.read 2) (((v.scanner .inside).read 2).deliver .comparison .inside) :=
  accords_deliver (follows_emitInside _) rfl (v.cursor_read 2).symm rfl (poised_emit hopen rfl (by decide))

theorem follows_doubled {c : Char} {more : List Char} (hrest : v.rest = c :: more) (h : more.head? = some '=') :
    Follows source (accept (· == '=')) (v.read 1) true (v.read 2) := by
  have haccept : Follows source (accept (· == '=')) (v.read 1) true _ :=
    follows_accept (by rw [rest_read_one hrest, h]; rfl)
  rwa [Stage.read_read] at haccept

theorem follows_single {c : Char} {more : List Char} (hrest : v.rest = c :: more) (h : more.head? ≠ some '=') :
    Follows source (accept (· == '=')) (v.read 1) false (v.read 1) := by
  refine follows_refuse ?_
  rw [rest_read_one hrest]
  cases hhead : more.head? with
  | none => rfl
  | some d => exact beq_eq_false_iff_ne.2 fun hd => h (by rw [hhead, hd])

theorem accords_blank (h : v.Poised .inside) : Accords source (ignore >>= fun _ => pure (some .inside)) (v.read 1)
    ⟨[], some { v.scanner .inside with cursor := (v.cursor.read 1).settle }⟩ := by
  refine ⟨some .inside, (v.read 1).settle, follows_ignore.bind (follows_pure _ _), ?_, (List.append_nil _).symm,
    fun _ hmode => by cases hmode; exact ⟨rfl, h.2⟩⟩
  show some (Scanner.mk .inside v.depth (v.cursor.read 1).settle) =
    some (Scanner.mk .inside v.depth (v.read 1).settle.cursor)
  rw [Stage.cursor_settle, Stage.cursor_read]

theorem accords_quote {c : Char} {more : List Char} (hrest : v.rest = c :: more) (hc : c = '"' ∨ c = '\'')
    (h : v.Poised .inside) :
    Accords source (pure (some (.string c))) (v.read 1) (((v.scanner .inside).read 1).goTo (.string c)) := by
  refine accords_pure (v.cursor_read 1).symm rfl ⟨?_, hc, h.2⟩
  show v.lexeme ++ v.rest.take 1 = [c]
  rw [h.1, hrest]
  rfl

theorem accords_paren {kind : Kind} {x : Metered Unit} (hopen : Opened v.tokens v.depth) (hinner : kind.isInner = true)
    (hparen : kind = .rightParen → 0 < v.depth) (hx : Follows source x ((v.read 1).emit kind) ()
      { (v.read 1).emit kind with depth := kind.depthAfter v.depth }) :
    Accords source (emit kind >>= fun _ => x >>= fun _ => pure (some .inside)) (v.read 1)
      ({ (v.scanner .inside).read 1 with depth := kind.depthAfter v.depth }.deliver kind .inside) := by
  refine ⟨some .inside, _, (follows_emit _).bind (hx.bind (follows_pure _ _)), ?_, ?_, fun _ hmode => ?_⟩
  · show some (Scanner.mk .inside (kind.depthAfter v.depth) (v.cursor.read 1).settle) =
      some (Scanner.mk .inside (kind.depthAfter v.depth) ((v.read 1).emit kind).cursor)
    rw [Stage.emit, Stage.cursor_settle, ← Stage.cursor_read]
    rfl
  · show v.tokens ++ [(v.read 1).cursor.token kind] = v.tokens ++ [(v.cursor.read 1).token kind]
    rw [Stage.cursor_read]
  · cases hmode
    exact ⟨rfl, hopen.concat (t := (v.read 1).cursor.token kind) hinner hparen⟩

theorem follows_deepen :
    Follows source (modify fun m => { m with depth := m.depth + 1 }) v () { v with depth := v.depth + 1 } :=
  fun _ hm => ⟨rfl, { hm with depth := congrArg (· + 1) hm.depth }⟩

theorem follows_surface (h : 0 < v.depth) : Follows source surface v () { v with depth := v.depth - 1 } := by
  have hnote : Follows source (note .surface) v () v := by
    refine follows_note fun m hm => ?_
    show 0 < m.depth
    rw [hm.depth]
    exact h
  exact hnote.bind fun m hm => ⟨rfl, { hm with depth := congrArg (· - 1) hm.depth }⟩

theorem accords_mark {c : Char} {more : List Char} (hrest : v.rest = c :: more) (h : v.Poised .inside) :
    Accords source (mark c) (v.read 1) ((v.scanner .inside).turnMark c more) := by
  obtain ⟨hlexeme, hopen⟩ := id h
  unfold mark Scanner.turnMark markOf
  by_cases hline : c = '\r' ∨ c = '\n'
  · simp only [if_pos hline]
    exact accords_complain .unclosed rfl
  simp only [if_neg hline]
  by_cases hblank : c = ' ' ∨ c = '\t'
  · simp only [if_pos hblank]
    exact accords_blank h
  simp only [if_neg hblank]
  by_cases hbang : c = '!'
  · simp only [if_pos hbang]
    by_cases hdoubled : more.head? = some '='
    · simp only [if_pos hdoubled]
      exact (follows_doubled hrest hdoubled).accords rfl (accords_two hopen)
    · simp only [if_neg hdoubled]
      exact (follows_single hrest hdoubled).accords rfl (accords_complain .loneBang rfl)
  simp only [if_neg hbang]
  by_cases hangle : c = '>' ∨ c = '<'
  · simp only [if_pos hangle]
    by_cases hdoubled : more.head? = some '='
    · simp only [if_pos hdoubled]
      exact (follows_doubled hrest hdoubled).accords rfl (accords_two hopen)
    · simp only [if_neg hdoubled]
      exact (follows_single hrest hdoubled).accords rfl (accords_one hopen rfl (by decide))
  simp only [if_neg hangle]
  by_cases hequal : c = '='
  · simp only [if_pos hequal]
    by_cases hdoubled : more.head? = some '='
    · simp only [if_pos hdoubled]
      exact (follows_doubled hrest hdoubled).accords rfl (accords_two hopen)
    · simp only [if_neg hdoubled]
      exact (follows_single hrest hdoubled).accords rfl (accords_one hopen rfl (by decide))
  simp only [if_neg hequal]
  by_cases hpipe : c = '|'
  · simp only [if_pos hpipe]
    exact accords_one hopen rfl (by decide)
  simp only [if_neg hpipe]
  by_cases hquote : c = '"' ∨ c = '\''
  · simp only [if_pos hquote]
    exact accords_quote hrest hquote h
  simp only [if_neg hquote]
  by_cases hleft : c = '('
  · simp only [if_pos hleft]
    exact accords_paren hopen rfl (fun h => by cases h) follows_deepen
  simp only [if_neg hleft]
  by_cases hright : c = ')'
  · simp only [if_pos hright]
    show Accords source _ _ (if v.depth = 0 then _ else _)
    by_cases hdepth : v.depth = 0
    · rw [if_pos hdepth]
      refine .get (fun m hm => if_pos (hm.depth.trans hdepth)) ?_
      exact accords_complain .strayParen rfl
    · rw [if_neg hdepth]
      refine .get (fun m hm => if_neg (hm.depth ▸ hdepth)) ?_
      have hpos := Nat.pos_of_ne_zero hdepth
      exact accords_paren hopen rfl (fun _ => hpos) (follows_surface hpos)
  simp only [if_neg hright]
  by_cases hchar : 0x20 ≤ c.toNat ∧ c.toNat < 0x7F
  · simp only [if_pos hchar]
    exact accords_one hopen rfl (by decide)
  · simp only [if_neg hchar]
    exact accords_complain (.unknown c) rfl

/-! ### Between the delimiters -/

theorem accords_inside (h : v.Poised .inside) : Accords source (turn .inside) v (v.scanner .inside).turn := by
  show Accords source inside v (v.scanner .inside).turnInside
  have hrest : (v.scanner .inside).cursor.rest = v.rest := rfl
  have hdepth : (v.scanner .inside).depth = v.depth := rfl
  unfold Scanner.turnInside
  rw [hrest, hdepth]
  refine follows_rest.accords rfl ?_
  cases hcloses : Delimiter.closes? v.rest with
  | some d =>
    simp only
    by_cases hzero : v.depth = 0
    · rw [if_pos hzero]
      refine .get (fun m hm => if_neg (by rw [hm.depth, hzero]; exact Nat.lt_irrefl 0)) ?_
      exact accords_pure rfl rfl ⟨h.1, hzero, hcloses⟩
    · rw [if_neg hzero]
      refine .get (fun m hm => if_pos (by rw [hm.depth]; exact Nat.pos_of_ne_zero hzero)) ?_
      exact accords_complain .openParen rfl
  | none =>
    simp only
    refine follows_peek.accords rfl ?_
    cases hnext : v.rest with
    | nil => exact accords_complain .unclosed rfl
    | cons c more =>
      show Accords source (if startsNumber c then _ else if startsWord c more then _ else _) v
        (if startsNumber c then _ else if startsWord c more then _ else _)
      by_cases hnumber : startsNumber c = true
      · rw [if_pos hnumber, if_pos hnumber]
        exact accords_pure rfl rfl h
      rw [if_neg hnumber, if_neg hnumber]
      by_cases hword : startsWord c more = true
      · rw [if_pos hword, if_pos hword]
        exact accords_pure rfl rfl h
      rw [if_neg hword, if_neg hword]
      exact follows_bump.accords rfl (accords_mark hnext h)

/-! ### Text -/

def textTokens (v : Stage) : List Token := if v.lexeme = [] then [] else [v.cursor.token .text]

def behindText (v : Stage) : Stage := { v.settle with tokens := v.tokens ++ textTokens v }

theorem follows_emitText : Follows source emitText v () (behindText v) := by
  have hlt (m : Meter) (hm : m.Shows source v) : m.start < m.pos ↔ v.lexeme ≠ [] := by
    rw [hm.start, hm.pos, Stage.done, byteLength_append]
    refine ⟨fun h hnil => ?_, fun h => ?_⟩
    · rw [hnil, byteLength_nil] at h
      omega
    · have := byteLength_pos h
      omega
  refine .get fun m hm => ?_
  unfold behindText textTokens
  by_cases h : v.lexeme = []
  · rw [if_neg (fun hpos => (hlt m hm).1 hpos h), if_pos h, List.append_nil]
    have hsame : { v.settle with tokens := v.tokens } = v := by
      obtain ⟨before, lexeme, rest, depth, tokens⟩ := v
      cases h
      simp only [Stage.settle, Stage.done, List.append_nil]
    rw [hsame]
    exact follows_pure () v
  · rw [if_pos ((hlt m hm).2 h), if_neg h]
    exact follows_emit .text

/-- What a turn comes to behind the text. -/
def endText (v : Stage) : Turn :=
  match v.rest with
  | [] => ⟨[v.cursor.token .endOfInput], none⟩
  | c :: more =>
    match Delimiter.opens? (c :: more) with
    | some d => ⟨[], some (v.scanner (.opening d))⟩
    | none => ⟨[v.cursor.complaint (ScanFault.strayBrace ((c :: more).take 2)).message], none⟩

theorem turnText_eq {u : Stage} (hu : v.read (runLength (· != '{') v.rest) = u) : (v.scanner .text).turnText =
    ⟨textTokens u ++ (endText u.settle).tokens, (endText u.settle).next⟩ := by
  have hread : (v.scanner .text).read (runLength (· != '{') (v.scanner .text).cursor.rest) = u.scanner .text := by
    rw [← hu, Stage.scanner, Stage.scanner, Stage.cursor_read]
    rfl
  unfold Scanner.turnText endText textTokens
  rw [hread, Stage.scanner, Stage.cursor_settle]
  obtain ⟨before, lexeme, rest, depth, tokens⟩ := u
  cases rest with
  | nil => rfl
  | cons c more =>
    simp only [Stage.settle, Stage.cursor, Cursor.settle]
    cases Delimiter.opens? (c :: more) with
    | none => rfl
    | some d =>
      simp only [List.append_nil, Stage.scanner, Stage.cursor, Stage.done]
      rfl

theorem accords_endOfInput (h : v.rest = []) :
    Accords source (emit .endOfInput >>= fun _ => pure none) v (endText v) := by
  unfold endText
  rw [h]
  exact ⟨none, _, (follows_emit _).bind (follows_pure _ _), rfl, rfl, fun _ h => by cases h⟩

theorem accords_brace {c : Char} {more : List Char} (hrest : v.rest = c :: more) (hlexeme : v.lexeme = [])
    (hdepth : v.depth = 0) : Accords source brace v (endText v) := by
  refine follows_rest.accords rfl ?_
  unfold endText
  rw [hrest]
  simp only
  cases hopens : Delimiter.opens? (c :: more) with
  | some d => exact accords_pure (s := v.scanner .text) rfl rfl ⟨hlexeme, hdepth, by rw [hrest, hopens]⟩
  | none => exact accords_complain (s := v.scanner .text) _ rfl

theorem mem_iff_read : '{' ∈ v.rest ↔ (v.read (runLength (· != '{') v.rest)).rest ≠ [] := by
  rw [Stage.rest_read, Scanner.drop_runLength, Ne, List.dropWhile_eq_nil_iff]
  refine ⟨fun hmem h => absurd (h _ hmem) (by decide), fun h => ?_⟩
  by_contra hmem
  exact h fun c hc => bne_iff_ne.2 (ne_of_mem_of_not_mem hc hmem)

theorem accords_text (h : v.Poised .text) : Accords source (turn .text) v (v.scanner .text).turn := by
  show Accords source text v (v.scanner .text).turnText
  have hskip : Follows source _ v () _ := follows_skipTo (runLength (· != '{') v.rest)
  have htake := List.take_append_drop (runLength (· != '{') v.rest) v.rest
  have hmem := mem_iff_read (v := v)
  refine follows_rest.accords rfl ?_
  rw [turnText_eq rfl, offsetOf?_eq]
  generalize runLength (· != '{') v.rest = n at hskip htake hmem
  generalize hu : v.read n = u at hskip hmem
  have htokens : u.tokens = v.tokens := by rw [← hu]; rfl
  have hdepth : u.depth = 0 := by rw [← hu]; exact h.2
  cases hnext : u.rest with
  | nil =>
    rw [if_neg (fun hbrace => hmem.1 hbrace hnext)]
    have hend : Accords source (emitText >>= fun _ => emit .endOfInput >>= fun _ => pure none) u
        ⟨textTokens u ++ (endText u.settle).tokens, (endText u.settle).next⟩ :=
      follows_emitText.accords_behind rfl (accords_endOfInput (v := behindText u) hnext)
    have htext : Accords source (skipTo (byteLength (v.done ++ v.rest.take n)) >>= fun _ =>
        emitText >>= fun _ => emit .endOfInput >>= fun _ => pure none) v _ := hskip.accords htokens hend
    refine .get (fun m hm => ?_) htext
    have hall : source.utf8ByteSize = byteLength (v.done ++ v.rest.take n) := by
      have hdrop : v.rest.drop n = [] := by rw [← hnext, ← hu]; rfl
      rw [hdrop, List.append_nil] at htake
      rw [← byteLength_toList, hm.split, htake]
    rw [hm.source_eq, hall]
  | cons c more =>
    rw [if_pos (hmem.2 (by rw [hnext]; exact List.cons_ne_nil c more))]
    have hend : Accords source (emitText >>= fun _ => brace) u
        ⟨textTokens u ++ (endText u.settle).tokens, (endText u.settle).next⟩ :=
      follows_emitText.accords_behind rfl (accords_brace (v := behindText u) hnext rfl hdepth)
    have htext : Accords source (skipTo (byteLength (v.done ++ v.rest.take n)) >>= fun _ =>
        emitText >>= fun _ => brace) v _ := hskip.accords htokens hend
    refine .get (fun m hm => ?_) htext
    rw [hm.pos, ← byteLength_append]

/-! ## Whole scans -/

theorem accords_turn (source : String) {mode : Mode} (h : v.Poised mode) :
    Accords source (turn mode) v (v.scanner mode).turn := by
  cases mode with
  | text => exact accords_text h
  | opening d => exact accords_opening h
  | inside => exact accords_inside h
  | number => exact accords_number h
  | word => exact accords_word h
  | string quote => exact accords_string h
  | closing d => exact accords_closing h

/-- Whether a mode takes what stands between the delimiters. -/
def between : Mode → Bool
  | .text | .opening _ | .closing _ => false
  | .inside | .number | .word | .string _ => true

/-- How many bytes of its lexeme have been read before a turn: the quote of a string. -/
def begun : Mode → Nat
  | .string _ => 1
  | _ => 0

/-- What a meter is like that is to take a turn in a mode. -/
structure Sound (source : String) (mode : Mode) (m : Meter) : Prop where
  counters : m.toCounters.Sound source
  closed : between mode = false → m.depth = 0
  opened : between mode = true → Opened m.tokens m.depth
  start : m.start + begun mode = m.pos

theorem Shows.sound_of_poised {mode : Mode} {m : Meter} (hm : m.Shows source v) (h : v.Poised mode) :
    m.Sound source mode where
  counters := hm.sound
  closed hmode := by
    rw [hm.depth]
    cases mode with
    | text => exact h.2
    | opening | closing => exact h.2.1
    | inside | number | word | string => cases hmode
  opened hmode := by
    rw [hm.depth, hm.tokens]
    cases mode with
    | text | opening | closing => cases hmode
    | inside | number | word => exact h.2
    | string => exact h.2.2
  start := by
    rw [hm.pos, hm.start, Stage.done, byteLength_append]
    cases mode with
    | string quote =>
      obtain ⟨hlexeme, hquote, -⟩ := h
      rw [hlexeme]
      rcases hquote with rfl | rfl <;> rfl
    | text | opening | closing | inside | number | word =>
      rw [h.1]
      rfl

theorem shows_atStart (source : String) : (atStart source).Shows source (.atStart source) where
  source_eq := rfl
  split := rfl
  start := rfl
  pos := rfl
  line := rfl
  lineStart := rfl
  startLine := rfl
  startColumn := rfl
  depth := rfl
  tokens := rfl
  notes := by simp [atStart]

/-- A meter that is to take a turn shows a stage that is poised for it, and the scanner there has the rest of the tokens. -/
theorem Reached.exists_stage {mode : Mode} {m : Meter} (h : Reached source mode m) : ∃ v : Stage, m.Shows source v ∧
    v.Poised mode ∧ scan source = v.tokens ++ (v.scanner mode).tokens := by
  induction h with
  | start => exact ⟨.atStart source, shows_atStart source, ⟨rfl, rfl⟩, rfl⟩
  | @step mode next m _ hnext ih =>
    obtain ⟨v, hm, hv, hscan⟩ := ih
    obtain ⟨next', w, hfollows, hturn, htokens, hpoised⟩ := accords_turn source hv
    obtain ⟨hmode, hw⟩ := hfollows m hm
    obtain rfl : next' = some next := hmode.symm.trans hnext
    refine ⟨w, hw, hpoised next rfl, ?_⟩
    rw [hscan, htokens, Scanner.tokens_eq, hturn, List.append_assoc]
    rfl

theorem Reached.ends {mode : Mode} {m : Meter} (h : Reached source mode m) {v : Stage} (hm : m.Shows source v)
    (hv : v.Poised mode) (hscan : scan source = v.tokens ++ (v.scanner mode).tokens) :
    ∃ mode m, Reached source mode m ∧ ((turn mode).run m).1 = none ∧ ((turn mode).run m).2.tokens = scan source := by
  obtain ⟨next, w, hfollows, hturn, htokens, hpoised⟩ := accords_turn source hv
  obtain ⟨hmode, hw⟩ := hfollows m hm
  cases next with
  | none =>
    refine ⟨mode, m, h, hmode, ?_⟩
    rw [hw.tokens, htokens, hscan, Scanner.tokens_eq, hturn]
    exact congrArg (v.tokens ++ ·) (List.append_nil _).symm
  | some next =>
    have : (w.scanner next).weight < (v.scanner mode).weight := Scanner.weight_lt_of_turn hturn
    refine Reached.ends (h.step hmode) hw (hpoised next rfl) ?_
    rw [hscan, htokens, Scanner.tokens_eq, hturn, List.append_assoc]
    rfl
termination_by (v.scanner mode).weight

/-- **Whatever the source, a meter stays in bounds.**  At every turn that it comes to, and at everything it does there,
its offsets are in order, within the source, and between two characters; it reads on to such offsets only, and finds
every slice that it asks for.  Parentheses are open between the delimiters only, as many as were opened and not closed,
and none is closed that is not open.  A lexeme starts where a turn does, but for a string, whose quote has been read.
**And it comes to an end, with the tokens of the scan.** -/
theorem reached_sound (source : String) :
    (∀ mode m, Reached source mode m → m.Sound source mode ∧
      ∀ note ∈ ((turn mode).run m).2.notes, note.Sound source) ∧
      ∃ mode m, Reached source mode m ∧ ((turn mode).run m).1 = none ∧ ((turn mode).run m).2.tokens = scan source := by
  refine ⟨fun mode m h => ?_, ?_⟩
  · obtain ⟨v, hm, hv, -⟩ := h.exists_stage
    obtain ⟨next, w, hfollows, -⟩ := accords_turn source hv
    exact ⟨hm.sound_of_poised hv, (hfollows m hm).2.notes⟩
  · obtain ⟨v, hm, hv, hscan⟩ := (Reached.start : Reached source _ _).exists_stage
    exact Reached.start.ends hm hv hscan

/-! ## A string that has begun -/

def begunString : String := "\x7b\x7b'é"

def begunMeter : Meter :=
  ((turn .inside).run ((turn (.opening .var)).run ((turn .text).run (atStart begunString)).2).2).2

theorem reached_begunMeter : Reached begunString (.string '\'') begunMeter :=
  .step (.step (.step .start rfl) rfl) rfl

theorem reached_sound_begun : Reached begunString (.string '\'') begunMeter ∧
    begunMeter.start + 1 = begunMeter.pos ∧ Opened begunMeter.tokens begunMeter.depth ∧
      ∀ note ∈ ((turn (.string '\'')).run begunMeter).2.notes, note.Sound begunString := by
  obtain ⟨hsound, hnotes⟩ := (reached_sound begunString).1 _ _ reached_begunMeter
  exact ⟨reached_begunMeter, hsound.start, hsound.opened rfl, hnotes⟩

end Meter
end Stencil
