import Stencil.Proofs.Places
import Stencil.Token.Meter
/-!
# What a meter shows

The counters of a meter are but numbers.  They show how far the scan has come: what has been left behind, the lexeme, and
what is left of the source (`Meter.Shows`).  As long as they do, every offset among them falls between two characters,
and every slice that is asked for is there.

Each operation is judged by what it shows (`Follows`), and operations that follow one another by what each of them does.
-/
namespace Stencil

/-! ## Slices -/

theorem behind?_append (as cs : List Char) : behind? (byteLength as) (as ++ cs) = some cs := by
  induction as with
  | nil => cases cs <;> rfl
  | cons a as ih =>
    have := a.utf8Size_pos
    rw [byteLength_cons, List.cons_append, behind?, if_neg (by omega), if_pos (by omega), Nat.add_sub_cancel_left, ih]

theorem upTo?_append (as cs : List Char) : upTo? (byteLength as) (as ++ cs) = some as := by
  induction as with
  | nil => cases cs <;> rfl
  | cons a as ih =>
    have := a.utf8Size_pos
    rw [byteLength_cons, List.cons_append, upTo?, if_neg (by omega), if_pos (by omega), Nat.add_sub_cancel_left, ih]
    rfl

theorem slice?_append (as bs cs : List Char) :
    slice? (byteLength as) (byteLength (as ++ bs)) (as ++ (bs ++ cs)) = some bs := by
  rw [slice?, byteLength_append, if_pos (Nat.le_add_right _ _), behind?_append, Option.bind_some, Nat.add_sub_cancel_left,
    upTo?_append]

theorem offsetOf?_eq (c : Char) : ∀ cs : List Char,
    offsetOf? c cs = if c ∈ cs then some (byteLength (cs.take (runLength (· != c) cs))) else none
  | [] => rfl
  | d :: cs => by
    by_cases hd : d = c
    · subst hd
      simp [offsetOf?, runLength]
    · have hrun : runLength (· != c) (d :: cs) = runLength (· != c) cs + 1 := by
        rw [runLength, List.takeWhile_cons_of_pos (by simpa using hd)]
        rfl
      rw [offsetOf?, if_neg hd, offsetOf?_eq c cs, hrun, List.take_succ_cons, byteLength_cons]
      by_cases hc : c ∈ cs
      · rw [if_pos hc, if_pos (List.mem_cons_of_mem _ hc)]
        rfl
      · rw [if_neg hc, if_neg (by simp [hc, Ne.symm hd])]
        rfl

theorem lastOffsetOf?_of_notMem {c : Char} : ∀ {cs : List Char}, c ∉ cs → lastOffsetOf? c cs = none
  | [], _ => rfl
  | d :: cs, h => by
    rw [lastOffsetOf?, lastOffsetOf?_of_notMem (List.not_mem_of_not_mem_cons h)]
    exact if_neg (Ne.symm (List.ne_of_not_mem_cons h))

theorem lastOffsetOf?_of_mem : ∀ {cs : List Char}, '\n' ∈ cs →
    ∃ last, lastOffsetOf? '\n' cs = some last ∧ last + 1 + byteLength (lastLine cs) = byteLength cs
  | [], h => by cases h
  | d :: cs, h => by
    have hline := lastLine_append [d] cs
    rw [List.singleton_append] at hline
    rw [lastOffsetOf?]
    by_cases hc : '\n' ∈ cs
    · obtain ⟨last, hlast, hsum⟩ := lastOffsetOf?_of_mem hc
      rw [hlast, hline, if_pos hc]
      refine ⟨_, rfl, ?_⟩
      rw [byteLength_cons]
      omega
    · obtain rfl : d = '\n' := ((List.mem_cons.1 h).resolve_right hc).symm
      have hempty : lastLine ['\n'] = [] := rfl
      rw [lastOffsetOf?_of_notMem hc, hline, if_neg hc, hempty, List.nil_append, byteLength_cons]
      exact ⟨0, rfl, rfl⟩

/-! ## Stages -/

/-- How far a scan has come: what it has left behind, the lexeme, what is left of the source, the open parentheses and the
tokens so far. -/
structure Stage where
  before : List Char
  lexeme : List Char
  rest : List Char
  depth : Nat
  tokens : List Token

namespace Stage

def atStart (source : String) : Stage := ⟨[], [], source.toList, 0, []⟩

def done (v : Stage) : List Char := v.before ++ v.lexeme

def read (n : Nat) (v : Stage) : Stage := { v with lexeme := v.lexeme ++ v.rest.take n, rest := v.rest.drop n }

def settle (v : Stage) : Stage := { v with before := v.done, lexeme := [] }

def cursor (v : Stage) : Cursor := ⟨Place.origin.after v.before, Place.origin.after v.done, v.lexeme, v.rest⟩

def scanner (v : Stage) (mode : Mode) : Scanner := ⟨mode, v.depth, v.cursor⟩

def push (t : Token) (v : Stage) : Stage := { v with tokens := v.tokens ++ [t] }

def emit (kind : Kind) (v : Stage) : Stage := (v.push (v.cursor.token kind)).settle

def complain (fault : ScanFault) (v : Stage) : Stage := v.push (v.cursor.complaint fault.message)

theorem rest_read (n : Nat) (v : Stage) : (v.read n).rest = v.rest.drop n := rfl

theorem done_read (n : Nat) (v : Stage) : (v.read n).done = v.done ++ v.rest.take n := by
  simp only [done, read, List.append_assoc]

theorem done_settle (v : Stage) : v.settle.done = v.done := List.append_nil v.done

theorem cursor_read (n : Nat) (v : Stage) : (v.read n).cursor = v.cursor.read n := by
  simp only [cursor, read, done, Cursor.read, ← List.append_assoc, Place.after_append]

theorem cursor_settle (v : Stage) : v.settle.cursor = v.cursor.settle := by
  simp only [cursor, settle, done, Cursor.settle, List.append_nil]

theorem read_zero (v : Stage) : v.read 0 = v := by
  simp only [read, List.take_zero, List.append_nil, List.drop_zero]

theorem read_of_nil {v : Stage} (h : v.rest = []) (n : Nat) : v.read n = v := by
  obtain ⟨before, lexeme, rest, depth, tokens⟩ := v
  cases h
  simp only [read, List.take_nil, List.append_nil, List.drop_nil]

theorem read_read (m n : Nat) (v : Stage) : (v.read m).read n = v.read (m + n) := by
  simp only [read, List.append_assoc, List.drop_drop, List.take_add]

end Stage

/-! ## What is sound -/

def Boundary (source : String) (n : Nat) : Prop :=
  ∃ before behind, source.toList = before ++ behind ∧ n = byteLength before

/-- Counters that say where in the source they are. -/
structure Counters.Sound (source : String) (c : Counters) : Prop where
  start_le : c.start ≤ c.pos
  pos_le : c.pos ≤ source.utf8ByteSize
  start_boundary : Boundary source c.start
  pos_boundary : Boundary source c.pos
  lineStart_le : c.lineStart ≤ c.pos
  startColumn_pos : 1 ≤ c.startColumn

/-- What is asked for can be done: a meter reads on to a boundary, closes an open parenthesis, and finds its slices. -/
def Note.Possible (source : String) (note : Note) : Prop :=
  match note.operation with
  | .skipTo target => note.counters.pos ≤ target ∧ Boundary source target
  | .surface => 0 < note.counters.depth
  | .slice found? => found? ≠ none
  | _ => True

structure Note.Sound (source : String) (note : Note) : Prop where
  counters : note.counters.Sound source
  possible : note.Possible source

/-- The counters of a meter show how far the scan has come. -/
structure Meter.Shows (source : String) (v : Stage) (m : Meter) : Prop where
  source_eq : m.source = source
  split : source.toList = v.done ++ v.rest
  start : m.start = byteLength v.before
  pos : m.pos = byteLength v.done
  line : m.line = 1 + v.done.count '\n'
  lineStart : m.lineStart + byteLength (lastLine v.done) = m.pos
  startLine : m.startLine = 1 + v.before.count '\n'
  startColumn : m.startColumn = 1 + byteLength (lastLine v.before)
  depth : m.depth = v.depth
  tokens : m.tokens = v.tokens
  notes : ∀ note ∈ m.notes, note.Sound source

namespace Meter
namespace Shows

variable {source : String} {v w : Stage} {m : Meter}

theorem start_boundary (h : m.Shows source v) : Boundary source m.start := by
  refine ⟨v.before, v.lexeme ++ v.rest, ?_, h.start⟩
  rw [h.split, Stage.done, List.append_assoc]

theorem pos_boundary (h : m.Shows source v) : Boundary source m.pos := ⟨v.done, v.rest, h.split, h.pos⟩

theorem sound (h : m.Shows source v) : m.toCounters.Sound source where
  start_le := by
    rw [h.start, h.pos, Stage.done, byteLength_append]
    exact Nat.le_add_right _ _
  pos_le := by
    rw [h.pos, ← byteLength_toList, h.split, byteLength_append]
    exact Nat.le_add_right _ _
  start_boundary := h.start_boundary
  pos_boundary := h.pos_boundary
  lineStart_le := Nat.le.intro h.lineStart
  startColumn_pos := by
    rw [h.startColumn]
    exact Nat.le_add_right _ _

theorem noted (h : m.Shows source v) {operation : Operation} (hop : Note.Possible source ⟨operation, m.toCounters⟩) :
    (m.noted operation).Shows source v :=
  { h with notes := List.forall_mem_cons.2 ⟨⟨h.sound, hop⟩, h.notes⟩ }

theorem behind?_eq (h : m.Shows source v) : behind? m.pos m.source.toList = some v.rest := by
  rw [h.source_eq, h.split, h.pos, behind?_append]

theorem lexeme_eq (h : m.Shows source v) : slice? m.start m.pos m.source.toList = some v.lexeme := by
  rw [h.source_eq, h.split, h.start, h.pos, Stage.done, List.append_assoc, slice?_append]

theorem read (h : m.Shows source v) (n : Nat) {pos line lineStart : Nat}
    (hpos : pos = m.pos + byteLength (v.rest.take n)) (hline : line = m.line + (v.rest.take n).count '\n')
    (hstart : lineStart + byteLength (lastLine (v.done ++ v.rest.take n)) = pos) :
    Shows source (v.read n) { m with pos, line, lineStart } where
  source_eq := h.source_eq
  split := by rw [h.split, Stage.done_read, List.append_assoc, Stage.read, List.take_append_drop]
  start := h.start
  pos := by rw [Stage.done_read, byteLength_append, ← h.pos, ← hpos]
  line := by rw [Stage.done_read, List.count_append, ← Nat.add_assoc, ← h.line, ← hline]
  lineStart := by rw [Stage.done_read, hstart]
  startLine := h.startLine
  startColumn := h.startColumn
  depth := h.depth
  tokens := h.tokens
  notes := h.notes

theorem readOn (h : m.Shows source v) (n : Nat) (hline : '\n' ∉ v.rest.take n) :
    Shows source (v.read n) { m with pos := m.pos + byteLength (v.rest.take n) } := by
  refine h.read n rfl ?_ ?_
  · rw [List.count_eq_zero_of_not_mem hline, Nat.add_zero]
  · rw [lastLine_append, if_neg hline, byteLength_append, ← Nat.add_assoc, h.lineStart]

theorem past (h : m.Shows source v) {c : Char} {more : List Char} (hrest : v.rest = c :: more) :
    (m.past c).Shows source (v.read 1) := by
  have htake : v.rest.take 1 = [c] := by rw [hrest]; rfl
  unfold Meter.past
  by_cases hc : c = '\n'
  · rw [if_pos hc]
    subst hc
    refine h.read 1 ?_ ?_ ?_
    · rw [htake]; rfl
    · rw [htake]; rfl
    · rw [htake, lastLine_concat, if_pos rfl]; rfl
  · rw [if_neg hc]
    have hon := h.readOn 1 (by rw [htake]; simpa using Ne.symm hc)
    rw [htake, byteLength_cons, byteLength_nil, Nat.add_zero] at hon
    exact hon

end Shows

/-! ## What operations do -/

/-- An operation that gives `a` takes a meter that shows `v` to one that shows `w`. -/
def Follows {α : Type} (source : String) (x : Metered α) (v : Stage) (a : α) (w : Stage) : Prop :=
  ∀ m : Meter, m.Shows source v → (x.run m).1 = a ∧ (x.run m).2.Shows source w

variable {α β : Type} {source : String} {u v w : Stage}

theorem follows_pure (a : α) (v : Stage) : Follows source (pure a) v a v := fun _ h => ⟨rfl, h⟩

theorem Follows.bind {x : Metered α} {f : α → Metered β} {a : α} {b : β} (hx : Follows source x v a w)
    (hf : Follows source (f a) w b u) : Follows source (x >>= f) v b u := by
  intro m h
  obtain ⟨ha, hw⟩ := hx m h
  have hf := hf _ hw
  rw [← ha] at hf
  exact hf

theorem Follows.get {f : Meter → Metered β} {b : β} (h : ∀ m : Meter, m.Shows source v → Follows source (f m) v b w) :
    Follows source (get >>= f) v b w := fun m hm => h m hm m hm

theorem follows_note {operation : Operation}
    (h : ∀ m : Meter, m.Shows source v → Note.Possible source ⟨operation, m.toCounters⟩) :
    Follows source (note operation) v () v := fun m hm => ⟨rfl, hm.noted (h m hm)⟩

theorem follows_cut (cs : List Char) : Follows source (cut (some cs)) v cs v := by
  have hnote : Follows source (note (.slice (some cs))) v () v := follows_note fun _ _ => Option.some_ne_none cs
  exact hnote.bind (follows_pure cs v)

theorem follows_rest : Follows source rest v v.rest v := by
  have hnote : Follows source (note .rest) v () v := follows_note fun _ _ => trivial
  refine hnote.bind (.get fun m hm => ?_)
  rw [hm.behind?_eq]
  exact follows_cut v.rest

theorem follows_lexeme : Follows source lexeme v v.lexeme v := by
  refine .get fun m hm => ?_
  rw [hm.lexeme_eq]
  exact follows_cut v.lexeme

theorem follows_peek : Follows source peek v v.rest.head? v := follows_rest.bind (follows_pure _ _)

theorem follows_bump : Follows source bump v v.rest.head? (v.read 1) := by
  refine follows_peek.bind ?_
  cases hrest : v.rest with
  | nil =>
    rw [Stage.read_of_nil hrest]
    exact follows_pure none v
  | cons c more => exact fun m hm => ⟨rfl, hm.past hrest⟩

theorem follows_accept {p : Char → Bool} (h : v.rest.head?.any p = true) :
    Follows source (accept p) v true (v.read 1) := by
  refine follows_peek.bind ?_
  rw [if_pos h]
  exact follows_bump.bind (follows_pure true _)

theorem follows_refuse {p : Char → Bool} (h : v.rest.head?.any p = false) : Follows source (accept p) v false v := by
  refine follows_peek.bind ?_
  rw [if_neg (Bool.eq_false_iff.1 h)]
  exact follows_pure false v

theorem Follows.accepting {p : Char → Bool} {f : Bool → Metered β} {b : β}
    (hpass : v.rest.head?.any p = true → Follows source (f true) (v.read 1) b w)
    (hfail : v.rest.head?.any p = false → Follows source (f false) v b w) : Follows source (accept p >>= f) v b w := by
  cases h : v.rest.head?.any p with
  | true => exact (follows_accept h).bind (hpass h)
  | false => exact (follows_refuse h).bind (hfail h)

theorem runLength_cons (p : Char → Bool) (c : Char) (cs : List Char) :
    runLength p (c :: cs) = if p c then runLength p cs + 1 else 0 := by
  unfold runLength
  split
  · rename_i hc
    rw [List.takeWhile_cons_of_pos hc, List.length_cons]
  · rename_i hc
    rw [List.takeWhile_cons_of_neg hc, List.length_nil]

theorem acceptRun_eq (p : Char → Bool) :
    acceptRun p = accept p >>= fun passed => if passed then acceptRun p else pure () := by
  funext m
  show acceptFrom p m = _
  rw [acceptFrom]
  show _ = StateT.run (if (StateT.run (accept p) m).1 then acceptRun p else pure ()) (StateT.run (accept p) m).2
  split <;> rename_i h <;> rw [h] <;> rfl

theorem follows_acceptRun (p : Char → Bool) : Follows source (acceptRun p) v () (v.read (runLength p v.rest)) := by
  generalize hrest : v.rest = rest
  induction rest generalizing v with
  | nil =>
    rw [acceptRun_eq, Stage.read_of_nil hrest]
    exact (follows_refuse (by rw [hrest]; rfl)).bind (follows_pure () v)
  | cons c more ih =>
    rw [acceptRun_eq, runLength_cons]
    refine .accepting (fun hpass => ?_) fun hfail => ?_
    · rw [hrest] at hpass
      have htail := ih (v := v.read 1) (by rw [Stage.read, hrest]; rfl)
      rw [Stage.read_read, Nat.add_comm 1] at htail
      rw [if_pos (show p c = true from hpass)]
      exact htail
    · rw [hrest] at hfail
      rw [if_neg (Bool.eq_false_iff.1 (show p c = false from hfail)), Stage.read_zero]
      exact follows_pure () v

theorem follows_skipTo (n : Nat) :
    Follows source (skipTo (byteLength (v.done ++ v.rest.take n))) v () (v.read n) := by
  generalize hskipped : v.rest.take n = skipped
  have hnote : Follows source (note (.skipTo (byteLength (v.done ++ skipped)))) v () v := by
    refine follows_note fun m hm => ⟨?_, v.done ++ skipped, v.rest.drop n, ?_, rfl⟩
    · rw [hm.pos, byteLength_append]
      exact Nat.le_add_right _ _
    · rw [hm.split, ← hskipped, List.append_assoc, List.take_append_drop]
  refine hnote.bind (.get fun m hm => ?_)
  have hslice : slice? m.pos (byteLength (v.done ++ skipped)) m.source.toList = some skipped := by
    rw [hm.source_eq, hm.split, hm.pos, ← List.take_append_drop n v.rest, hskipped, slice?_append]
  rw [hslice]
  refine (follows_cut skipped).bind fun m hm => ?_
  have htarget : byteLength (v.done ++ skipped) = m.pos + byteLength skipped := by rw [byteLength_append, hm.pos]
  by_cases hmem : '\n' ∈ skipped
  · obtain ⟨last, hlast, hsum⟩ := lastOffsetOf?_of_mem hmem
    rw [hlast]
    refine ⟨rfl, hm.read n ?_ ?_ ?_⟩
    · rw [hskipped, htarget]
    · rw [hskipped]
    · rw [hskipped, lastLine_append, if_pos hmem, htarget]
      show m.pos + last + 1 + byteLength (lastLine skipped) = m.pos + byteLength skipped
      omega
  · rw [lastOffsetOf?_of_notMem hmem, htarget]
    subst hskipped
    exact ⟨rfl, hm.readOn n hmem⟩

theorem follows_ignore : Follows source ignore v () v.settle := by
  have hnote : Follows source (note .ignore) v () v := follows_note fun _ _ => trivial
  refine hnote.bind fun m hm => ⟨rfl, ?_⟩
  exact {
    source_eq := hm.source_eq
    split := by rw [hm.split, Stage.done_settle]; rfl
    start := hm.pos
    pos := by rw [Stage.done_settle, ← hm.pos]; rfl
    line := by rw [Stage.done_settle, ← hm.line]; rfl
    lineStart := by rw [Stage.done_settle]; exact hm.lineStart
    startLine := hm.line
    startColumn := by
      have hcolumn := hm.lineStart
      show m.pos - m.lineStart + 1 = 1 + byteLength (lastLine v.done)
      omega
    depth := hm.depth
    tokens := hm.tokens
    notes := hm.notes }

theorem follows_deliver (kind : Kind) (text : String) :
    Follows source (deliver kind text) v () (v.push ⟨kind, text, Place.origin.after v.before⟩) := by
  refine fun m hm => ⟨rfl, { hm with tokens := ?_ }⟩
  show m.tokens ++ [_] = v.tokens ++ [_]
  rw [hm.tokens, hm.start, hm.startLine, hm.startColumn, Place.origin_after]

theorem follows_emit (kind : Kind) : Follows source (emit kind) v () (v.emit kind) := by
  have hnote : Follows source (note .emit) v () v := follows_note fun _ _ => trivial
  exact hnote.bind (follows_lexeme.bind ((follows_deliver kind _).bind follows_ignore))

theorem follows_complain (fault : ScanFault) : Follows source (complain fault) v none (v.complain fault) := by
  have hnote : Follows source (note .complain) v () v := follows_note fun _ _ => trivial
  exact hnote.bind ((follows_deliver .error _).bind (follows_pure none _))

theorem follows_emitInside (kind : Kind) : Follows source (emitInside kind) v (some .inside) (v.emit kind) :=
  (follows_emit kind).bind (follows_pure _ _)

end Meter
end Stencil
