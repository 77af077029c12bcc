import Stencil.Token.Scan
import Stencil.Transcript
/-!
# Records

The records that lexing and parsing leave in a log.  A scan that meets a fault says so in the turn that finds it, which
is when the first token of that turn is asked for.  A reading says which tags it hands to programs and which
conditionals it nests.  The two interleave: each event of a reading comes after whatever its source said in the askings
before it.
-/
namespace Stencil

inductive Level
  | debug | trace | warn
deriving DecidableEq, Repr

structure Record where
  level : Level
  message : String
deriving DecidableEq, Repr

def Level.label : Level → String
  | debug => "DEBUG"
  | trace => "TRACE"
  | warn => "WARN"

def Record.line (r : Record) : String := r.level.label ++ " " ++ r.message

/-! ## What sources say -/

/-- A source of tokens, each with what is said when it is asked for, and what is said when the end is. -/
structure Supply where
  items : List (List Record × Token)
  closing : List Record

namespace Supply

def tokens (s : Supply) : List Token := s.items.map Prod.snd

def sayings (s : Supply) : List (List Record) := s.items.map Prod.fst ++ [s.closing]

def silent (tokens : List Token) : Supply := ⟨tokens.map (fun t => ([], t)), []⟩

def scanRecord? (name : String) (t : Token) : Option Record :=
  if t.kind = .error then
    some ⟨.trace, name ++ ": lex error at " ++ toString t.place.line ++ ":" ++ toString t.place.column ++ ": " ++ t.text⟩
  else none

/-- The tokens of one turn.  All that is said in the turn is said when its first token is asked for. -/
def ofTurn (name : String) : List Token → List (List Record × Token)
  | [] => []
  | t :: ts => ((t :: ts).filterMap (scanRecord? name), t) :: ts.map (fun t => ([], t))

def ofScan (name source : String) : Supply :=
  ⟨(Scanner.atStart source.toList).deliveries.flatMap (ofTurn name), []⟩

/-- Leaves out the tokens of some kinds; what is said about them is said before the next token. -/
def dropItems (kinds : List Kind) (before : List Record) : List (List Record × Token) → List Record → Supply
  | [], closing => ⟨[], before ++ closing⟩
  | (said, t) :: items, closing =>
    if kinds.contains t.kind then dropItems kinds (before ++ said) items closing
    else
      let rest := dropItems kinds [] items closing
      { rest with items := (before ++ said, t) :: rest.items }

def without (s : Supply) (kinds : List Kind) : Supply := dropItems kinds [] s.items s.closing

theorem tokens_ofTurn (name : String) : ∀ ts : List Token, (ofTurn name ts).map Prod.snd = ts
  | [] => rfl
  | t :: ts => by simp [ofTurn, Function.comp_def]

theorem tokens_silent (ts : List Token) : (silent ts).tokens = ts := by simp [silent, tokens, Function.comp_def]

theorem tokens_ofScan (name source : String) : (ofScan name source).tokens = scan source := by
  simp only [tokens, ofScan, scan, Scanner.tokens]
  induction (Scanner.atStart source.toList).deliveries with
  | nil => rfl
  | cons ts tss ih => rw [List.flatMap_cons, List.map_append, tokens_ofTurn, List.flatten_cons, ih]

end Supply

/-! ## What readings say -/

def Event.record? : Event → Option Record
  | .dispatched name => some ⟨.trace, "dispatching tag '" ++ name.text ++ "' to its plugin"⟩
  | .nested keyword => some ⟨.trace, "desugaring elif at " ++ twoDigits keyword.place.offset ++ " into a nested if"⟩
  | .observed _ => none

/-- Interleaves a journal with what a source says in the askings after the first `done`, up to `asked` of them. -/
def interleave (sayings : List (List Record)) (done asked : Nat) : List Entry → List Record
  | [] => (sayings.take (asked - done)).flatten
  | e :: entries =>
    (sayings.take (e.asked - done)).flatten ++ e.event.record?.toList ++
      interleave (sayings.drop (e.asked - done)) e.asked asked entries

/-- What is said while a source is read. -/
def Transcript.records (t : Transcript) (s : Supply) : List Record := interleave s.sayings 0 t.asked t.journal

end Stencil
