import Stencil.Token.Scanner
/-!
# The scanner, by its counters

A meter is the lexer as it runs on bytes.  It scans a source with nothing but counters: how many bytes have been read,
where the lexeme starts, the line, where the line starts, how many parentheses are open.  It sees the source only in
slices from one offset to another.  There is no such slice if an offset falls into a character, or beyond the end; then
the meter sees nothing, and goes on.

What a meter does it notes, with the counters as they were.
-/
namespace Stencil

/-! ## Slices -/

/-- What is behind the first `n` bytes, if a character or the end is. -/
def behind? (n : Nat) : List Char → Option (List Char)
  | [] => if n = 0 then some [] else none
  | c :: cs =>
    if n = 0 then some (c :: cs)
    else if c.utf8Size ≤ n then behind? (n - c.utf8Size) cs
    else none

def upTo? (n : Nat) : List Char → Option (List Char)
  | [] => if n = 0 then some [] else none
  | c :: cs =>
    if n = 0 then some []
    else if c.utf8Size ≤ n then (upTo? (n - c.utf8Size) cs).map (c :: ·)
    else none

def slice? (start stop : Nat) (cs : List Char) : Option (List Char) :=
  if start ≤ stop then (behind? start cs).bind (upTo? (stop - start)) else none

/-- The offset of the first `c`. -/
def offsetOf? (c : Char) : List Char → Option Nat
  | [] => none
  | d :: cs => if d = c then some 0 else (offsetOf? c cs).map (d.utf8Size + ·)

def lastOffsetOf? (c : Char) : List Char → Option Nat
  | [] => none
  | d :: cs =>
    match lastOffsetOf? c cs with
    | some n => some (d.utf8Size + n)
    | none => if d = c then some 0 else none

/-! ## Meters -/

structure Counters where
  start : Nat
  pos : Nat
  line : Nat
  lineStart : Nat
  startLine : Nat
  startColumn : Nat
  depth : Nat
deriving DecidableEq, Repr

inductive Operation
  | rest
  | skipTo (target : Nat)
  | emit
  | ignore
  | complain
  | surface
  | slice (found? : Option (List Char))
deriving DecidableEq, Repr

/-- An operation, and the counters before it. -/
structure Note where
  operation : Operation
  counters : Counters
deriving DecidableEq, Repr

structure Meter extends Counters where
  source : String
  tokens : List Token
  /-- What was done, last first. -/
  notes : List Note
deriving DecidableEq, Repr

abbrev Metered := StateM Meter

namespace Meter

def atStart (source : String) : Meter :=
  { start := 0, pos := 0, line := 1, lineStart := 0, startLine := 1, startColumn := 1, depth := 0
    source, tokens := [], notes := [] }

/-- What is left of the source; nothing, if there is no such slice. -/
def ahead (m : Meter) : List Char := (behind? m.pos m.source.toList).getD []

def noted (operation : Operation) (m : Meter) : Meter := { m with notes := ⟨operation, m.toCounters⟩ :: m.notes }

def past (c : Char) (m : Meter) : Meter :=
  let pos := m.pos + c.utf8Size
  if c = '\n' then { m with pos, line := m.line + 1, lineStart := pos } else { m with pos }

/-! ## Operations -/

def note (operation : Operation) : Metered Unit := modify (noted operation)

def cut (found? : Option (List Char)) : Metered (List Char) := do
  note (.slice found?)
  return found?.getD []

def rest : Metered (List Char) := do
  note .rest
  let m ← get
  cut (behind? m.pos m.source.toList)

def lexeme : Metered (List Char) := do
  let m ← get
  cut (slice? m.start m.pos m.source.toList)

def peek : Metered (Option Char) := do return (← rest).head?

def bump : Metered (Option Char) := do
  match ← peek with
  | none => return none
  | some c =>
    modify (past c)
    return some c

def skipTo (target : Nat) : Metered Unit := do
  note (.skipTo target)
  let m ← get
  let skipped ← cut (slice? m.pos target m.source.toList)
  match lastOffsetOf? '\n' skipped with
  | some last => modify fun m => { m with line := m.line + skipped.count '\n', lineStart := m.pos + last + 1 }
  | none => pure ()
  modify fun m => { m with pos := target }

def accept (p : Char → Bool) : Metered Bool := do
  if (← peek).any p then
    let _ ← bump
    return true
  else return false

def ignore : Metered Unit := do
  note .ignore
  modify fun m => { m with start := m.pos, startLine := m.line, startColumn := m.pos - m.lineStart + 1 }

def deliver (kind : Kind) (text : String) : Metered Unit :=
  modify fun m => { m with tokens := m.tokens ++ [⟨kind, text, m.start, m.startLine, m.startColumn⟩] }

def emit (kind : Kind) : Metered Unit := do
  note .emit
  deliver kind (String.ofList (← lexeme))
  ignore

def complain (fault : ScanFault) : Metered (Option Mode) := do
  note .complain
  deliver .error fault.message
  return none

def surface : Metered Unit := do
  note .surface
  modify fun m => { m with depth := m.depth - 1 }

def emitInside (kind : Kind) : Metered (Option Mode) := do
  emit kind
  return some .inside

/-! ## Loops

A loop ends since it reads on. -/

theorem behind?_add {c : Char} {more : List Char} : ∀ {n : Nat} {cs : List Char}, behind? n cs = some (c :: more) →
    behind? (n + c.utf8Size) cs = some more
  | n, [], h => by
    rw [behind?] at h
    split at h <;> cases h
  | n, d :: cs, h => by
    rw [behind?] at h
    have hpos := d.utf8Size_pos
    split at h
    · rename_i hn
      cases h
      rw [hn, Nat.zero_add, behind?, if_neg (by omega), if_pos (Nat.le_refl _), Nat.sub_self]
      cases more <;> rfl
    · split at h
      · rename_i hd
        rw [behind?, if_neg (by omega), if_pos (by omega), Nat.sub_add_comm hd]
        exact behind?_add h
      · cases h

theorem ahead_past {c : Char} {more : List Char} {m : Meter} (h : m.ahead = c :: more) : (m.past c).ahead = more := by
  have hbehind : behind? m.pos m.source.toList = some (c :: more) := by
    cases hb : behind? m.pos m.source.toList with
    | none =>
      rw [ahead, hb] at h
      cases h
    | some cs =>
      rw [ahead, hb] at h
      exact congrArg some h
  have hpast : (m.past c).pos = m.pos + c.utf8Size ∧ (m.past c).source = m.source := by
    unfold past
    split <;> exact ⟨rfl, rfl⟩
  rw [ahead, hpast.1, hpast.2, behind?_add hbehind]
  rfl

/-- What a meter has become that has looked what is next. -/
def peeked (m : Meter) : Meter := (m.noted .rest).noted (.slice (behind? m.pos m.source.toList))

theorem run_peek (m : Meter) : peek.run m = (m.ahead.head?, m.peeked) := rfl

theorem run_bump (m : Meter) : bump.run m =
    match m.ahead.head? with
    | none => (none, m.peeked)
    | some c => (some c, m.peeked.past c) := by
  show StateT.run (peek >>= _) m = _
  rw [StateT.run_bind, run_peek]
  cases m.ahead.head? <;> rfl

theorem ahead_bump {m m' : Meter} {c : Char} (h : bump.run m = (some c, m')) : m.ahead = c :: m'.ahead := by
  rw [run_bump] at h
  cases hm : m.ahead with
  | nil =>
    rw [hm] at h
    cases h
  | cons d more =>
    rw [hm] at h
    cases h
    rw [ahead_past (m := m.peeked) hm]

theorem run_accept (p : Char → Bool) (m : Meter) : (accept p).run m =
    if m.ahead.head?.any p then (true, (bump.run m.peeked).2) else (false, m.peeked) := by
  show StateT.run (if m.ahead.head?.any p then (bump >>= fun _ => pure true) else pure false) m.peeked = _
  split <;> rfl

theorem ahead_accept {p : Char → Bool} {m m' : Meter} (h : (accept p).run m = (true, m')) :
    m'.ahead.length < m.ahead.length := by
  rw [run_accept] at h
  split at h
  · rename_i hany
    have ha : m.peeked.ahead = m.ahead := rfl
    cases hm : m.ahead with
    | nil =>
      rw [hm] at hany
      cases hany
    | cons c more =>
      have hbump : bump.run m.peeked = (some c, m.peeked.peeked.past c) := by rw [run_bump, ha, hm]; rfl
      rw [hbump] at h
      cases h
      rw [ahead_past (m := m.peeked.peeked) hm]
      exact Nat.lt_succ_self _
  · cases h

def acceptFrom (p : Char → Bool) (m : Meter) : Unit × Meter :=
  match _h : (accept p).run m with
  | (true, m') => acceptFrom p m'
  | (false, m') => ((), m')
termination_by m.ahead.length
decreasing_by exact ahead_accept _h

def acceptRun (p : Char → Bool) : Metered Unit := acceptFrom p

/-- Reads on to the quote that ends a string; the one that starts it has been read. -/
def quotedFrom (quote : Char) (m : Meter) : Option Mode × Meter :=
  match _h : bump.run m with
  | (none, m) => (complain .unterminated).run m
  | (some c, m') =>
    if c = '\\' then
      match _h' : bump.run m' with
      | (none, m) => (complain .unterminated).run m
      | (some d, m'') => if d = '\n' then (complain .unterminated).run m'' else quotedFrom quote m''
    else if c = '\n' then (complain .unterminated).run m'
    else if c = quote then (emitInside .string).run m'
    else quotedFrom quote m'
termination_by m.ahead.length
decreasing_by
  all_goals simp only [ahead_bump _h, List.length_cons]
  · rw [ahead_bump _h']
    simp only [List.length_cons]
    omega
  · omega

def quoted (quote : Char) : Metered (Option Mode) := quotedFrom quote

/-! ## Modes -/

def emitText : Metered Unit := do
  let m ← get
  if m.start < m.pos then emit .text

def brace : Metered (Option Mode) := do
  let rest ← rest
  match Delimiter.opens? rest with
  | some d => return some (.opening d)
  | none => complain (.strayBrace (rest.take 2))

def text : Metered (Option Mode) := do
  match offsetOf? '{' (← rest) with
  | none =>
    let m ← get
    skipTo m.source.utf8ByteSize
    emitText
    emit .endOfInput
    return none
  | some offset =>
    let m ← get
    skipTo (m.pos + offset)
    emitText
    brace

def delimiter (kind : Kind) (next : Mode) : Metered (Option Mode) := do
  modify fun m => { m with pos := m.pos + 2 }
  emit kind
  return some next

def mark (c : Char) : Metered (Option Mode) := do
  if c = '\r' ∨ c = '\n' then complain .unclosed
  else if c = ' ' ∨ c = '\t' then
    ignore
    return some .inside
  else if c = '!' then
    if ← accept (· == '=') then emitInside .comparison else complain .loneBang
  else if c = '>' ∨ c = '<' then
    let _ ← accept (· == '=')
    emitInside .comparison
  else if c = '=' then
    if ← accept (· == '=') then emitInside .comparison else emitInside .assign
  else if c = '|' then emitInside .pipe
  else if c = '"' ∨ c = '\'' then return some (.string c)
  else if c = '(' then
    emit .leftParen
    modify fun m => { m with depth := m.depth + 1 }
    return some .inside
  else if c = ')' then
    if (← get).depth = 0 then complain .strayParen
    else
      emit .rightParen
      surface
      return some .inside
  else if 0x20 ≤ c.toNat ∧ c.toNat < 0x7F then emitInside .char
  else complain (.unknown c)

def inside : Metered (Option Mode) := do
  let rest ← rest
  match Delimiter.closes? rest with
  | some d => if 0 < (← get).depth then complain .openParen else return some (.closing d)
  | none =>
    match ← peek with
    | none => complain .unclosed
    | some c =>
      if startsNumber c then return some .number
      else if startsWord c rest.tail then return some .word
      else
        let _ ← bump
        mark c

def letter : Metered Radix := do
  if ← accept (fun c => c == 'x' || c == 'X') then return .hexadecimal
  else if ← accept (fun c => c == 'o' || c == 'O') then return .octal
  else if ← accept (fun c => c == 'b' || c == 'B') then return .binary
  else return .decimal

def base : Metered Radix := do
  if ← accept (· == '0') then letter else return .decimal

def fraction (r : Radix) : Metered Unit := do
  if ← accept (· == '.') then acceptRun r.isDigit

def exponent (r : Radix) : Metered Unit := do
  if r = .decimal ∨ r = .hexadecimal then
    if ← accept r.isExponent then
      let _ ← accept isSign
      acceptRun Radix.decimal.isDigit

def unsigned : Metered Unit := do
  let r ← base
  acceptRun r.isDigit
  fraction r
  exponent r

def number : Metered (Option Mode) := do
  let _ ← accept isSign
  unsigned
  emitInside .number

def word : Metered (Option Mode) := do
  let _ ← bump
  acceptRun isWordChar
  emitInside (wordKind (String.ofList (← lexeme)))

def turn : Mode → Metered (Option Mode)
  | .text => text
  | .opening d => delimiter d.openKind .inside
  | .inside => inside
  | .number => number
  | .word => word
  | .string quote => quoted quote
  | .closing d => delimiter d.closeKind .text

/-- `Reached source mode m`: a scan of the source comes to take a turn in `mode` with `m`. -/
inductive Reached (source : String) : Mode → Meter → Prop
  | start : Reached source .text (atStart source)
  | step {mode next : Mode} {m : Meter} (h : Reached source mode m) (hnext : ((turn mode).run m).1 = some next) :
    Reached source next ((turn mode).run m).2

end Meter
end Stencil
