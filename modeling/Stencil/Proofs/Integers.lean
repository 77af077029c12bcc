import Stencil.Proofs.Concatenation
import Stencil.Proofs.Written
/-!
# Integers, from the source to the branch

An integer that fits into a word is exact all the way: whatever its sign, its length and the zeros in front of it, the
scan takes it as one number, reading gives it its value, and a comparison decides by that value alone.  A string on the
right side that spells an integer is worth the same.

An integer that does not fit is a fault and never another number.  Read as a number it is the fault of the source, at the
place of the literal; spelled by a string it is the fault of the comparison.
-/
namespace Stencil

open Layout

/-! ## Sources that choose between two texts -/

/-- A source that comes out as `a` if two literals are equal, and as `b` otherwise. -/
def choice (lhs rhs a b : String) : String :=
  "\x7b% if " ++ lhs ++ " == " ++ rhs ++ " %\x7d" ++ a ++ "\x7b% else %\x7d" ++ b ++ "\x7b% endif %\x7d"

def inQuotes (s : String) : String := "\"" ++ s ++ "\""

theorem toList_choice (lhs rhs a b : String) : (choice lhs rhs a b).toList =
    tagText ["if".toList, lhs.toList, "==".toList, rhs.toList] ++
      (a.toList ++ (tagText ["else".toList] ++ (b.toList ++ tagText ["endif".toList]))) := by
  simp [choice, tagText, spaced, Delimiter.openText, Delimiter.closeText]

def branchNodes (s : String) : List Node := if s = "" then [] else [.text 0 s]

def choiceNodes (lhs rhs : Node) (a b : String) : List Node :=
  [.conditional 0 [lhs, .comparison 0 .equal, rhs] (branchNodes a) (some (.group 0 (branchNodes b)))]

theorem readsBack_branch {s : String} (hs : '{' ∉ s.toList) : ReadsBack s.toList (branchNodes s) := by
  by_cases hne : s = ""
  · subst hne
    exact readsBack_nil
  · rw [branchNodes, if_neg hne, ← List.append_nil s.toList]
    exact readsBack_nil.text hne hs id

theorem readsBack_choice {lhs rhs a b : String} {l r : Node} (hl : ReadsAs (StandsFor l) lhs.toList)
    (hr : ReadsAs (StandsFor r) rhs.toList) (ha : '{' ∉ a.toList) (hb : '{' ∉ b.toList) :
    ReadsBack (choice lhs rhs a b).toList (choiceNodes l r a b) := by
  have hequal : ReadsAs (StandsFor (.comparison 0 .equal)) "==".toList := IsOperand.comparison.readsAs
  have hwords : List.Forall₂ ReadsAs ([l, .comparison 0 .equal, r].map StandsFor)
      [lhs.toList, "==".toList, rhs.toList] := .cons hl (.cons hequal (.cons hr .nil))
  have hnodes : ReadsBack _ (choiceNodes l r a b) :=
    readsBack_nil.otherwise hwords (readsBack_branch ha) (readsBack_branch hb)
  rw [List.append_nil] at hnodes
  rw [toList_choice]
  exact hnodes

theorem renderAllOnto_branch (s : String) : renderAllOnto true "" (branchNodes s) = .ok s := by
  by_cases hne : s = ""
  · rw [branchNodes, if_pos hne, hne]
    rfl
  · rw [branchNodes, if_neg hne]
    exact congrArg Except.ok String.empty_append

def chosen (a b : String) : Except EvalFault Bool → Except Fault String
  | .ok equal => .ok (if equal then a else b)
  | .error e => .error (.eval e)

theorem renderAll_choice (l r : Node) (a b : String) :
    renderAll true (choiceNodes l r a b) = chosen a b (compareNodes l (.comparison 0 .equal) r) := by
  have ha := renderAllOnto_branch a
  have hb := renderAllOnto_branch b
  simp only [renderAll, choiceNodes, Node.group, renderAllOnto, Node.renderOnto, if_true, evaluate]
  cases compareNodes l (.comparison 0 .equal) r with
  | error e => rfl
  | ok equal =>
    cases equal with
    | true => simp only [ha, chosen, if_true]
    | false => simp only [hb, chosen, Bool.false_eq_true, if_false]

theorem Template.read_choice (name : String) {lhs rhs a b : String} {l r : Node} (hl : ReadsAs (StandsFor l) lhs.toList)
    (hr : ReadsAs (StandsFor r) rhs.toList) (ha : '{' ∉ a.toList) (hb : '{' ∉ b.toList) :
    ∃ t, (read name (choice lhs rhs a b) .empty).1 = .ok t ∧
      t.render true = chosen a b (compareNodes l (.comparison 0 .equal) r) := by
  obtain ⟨us, last, is, hscan, hlast, hplain, hderives, his⟩ := (readsBack_choice hl hr ha hb).derives
  rw [String.ofList_toList] at hscan
  obtain ⟨hfault, hroot⟩ := Layout.transcript_of_layout (serves_nil .empty) hlast hplain hderives
  rw [← hscan] at hfault hroot
  obtain ⟨t, ht⟩ := (exists_read_iff name _).2 hfault
  refine ⟨t, ht, ?_⟩
  rw [render_of_read ht, hroot, renderAll_of_unplacedAll_eq true his, renderAll_choice]

/-! ## Literals -/

theorem readsAs_int {s : String} {z : Int} (h : WritesInt s.toList z) {n : Int64} (hn : n.toInt = z) :
    ReadsAs (StandsFor (.int 0 n)) s.toList := by
  refine ⟨.number, (Lexical.number (isNumber_of_writesInt h)).rereads (by decide), fun p => ⟨.int p.offset n, ?_, rfl⟩⟩
  refine .number _ rfl n ?_
  rw [String.ofList_toList, WritesWord, hn]
  exact h

theorem toList_inQuotes {s : String} (h : ∀ c ∈ s.toList, c ≠ '\\' ∧ c ≠ '"' ∧ c ≠ '\n') :
    (inQuotes s).toList = quotedLiteral s := by
  have hescape : s.toList.flatMap escape = s.toList := by
    generalize s.toList = cs at h
    induction cs with
    | nil => rfl
    | cons c cs ih =>
      obtain ⟨⟨hslash, hquote, hline⟩, hcs⟩ := List.forall_mem_cons.1 h
      rw [List.flatMap_cons, ih hcs, escape, if_neg hslash, if_neg hquote, if_neg hline]
      rfl
  rw [quotedLiteral, hescape]
  simp [inQuotes]

theorem WritesInt.plain_chars {cs : List Char} {z : Int} (h : WritesInt cs z) :
    ∀ c ∈ cs, c ≠ '\\' ∧ c ≠ '"' ∧ c ≠ '\n' := by
  have hdigits : ∀ ds : List Char, (∀ c ∈ ds, c.isDigit = true) → ∀ c ∈ ds, c ≠ '\\' ∧ c ≠ '"' ∧ c ≠ '\n' := by
    intro ds hds c hc
    exact ⟨ne_of_check (hds c hc) (by decide), ne_of_check (hds c hc) (by decide), ne_of_check (hds c hc) (by decide)⟩
  cases h with
  | plain _ _ hds => exact hdigits _ hds
  | plus ds _ hds | minus ds _ hds => exact List.forall_mem_cons.2 ⟨by decide, hdigits ds hds⟩

theorem readsAs_inQuotes {s : String} (h : ∀ c ∈ s.toList, c ≠ '\\' ∧ c ≠ '"' ∧ c ≠ '\n') :
    ReadsAs (StandsFor (.string 0 s)) (inQuotes s).toList := by
  rw [toList_inQuotes h]
  exact IsOperand.string.readsAs

/-! ## Comparisons -/

theorem compareNodes_int (m n : Int64) :
    compareNodes (.int 0 m) (.comparison 0 .equal) (.int 0 n) = .ok (m == n) := rfl

theorem compareNodes_string {m n : Int64} {s : String} (h : WritesWord s n) :
    compareNodes (.int 0 m) (.comparison 0 .equal) (.string 0 s) = .ok (n == m) := by
  show compareOperands .equal (.int m) (.string s) = _
  simp [compareOperands, Operand.isName, readWord?_eq_some_iff.2 h]

theorem compareNodes_string_error {m : Int64} {s : String} (h : readWord? s = none) :
    compareNodes (.int 0 m) (.comparison 0 .equal) (.string 0 s) = .error (.notInt s) := by
  show compareOperands .equal (.int m) (.string s) = _
  simp [compareOperands, Operand.isName, h]

theorem chosen_word {m n : Int64} {x y : Int} (hm : m.toInt = x) (hn : n.toInt = y) (a b : String) :
    chosen a b (.ok (m == n)) = .ok (if x = y then a else b) := by
  have hiff : m = n ↔ x = y := by
    rw [← hm, ← hn]
    exact Int64.toInt_inj.symm
  by_cases h : m = n
  · simp [chosen, h, hiff.1 h]
  · have hxy : ¬x = y := fun hxy => h (hiff.2 hxy)
    simp [chosen, h, hxy]

/-! ## Literals that do not fit -/

theorem operand_of_readWord? {t : Token} (ht : t.kind = .number) (h : readWord? t.text = none) :
    t.operand = .error ⟨t.place, .invalidNumber t.text⟩ := by
  simp only [Token.operand, ht, h]
  rfl

def leftPlace : Place := Place.origin.after "\x7b% if ".toList

def rightPlace (lhs : String) : Place := Place.origin.after ("\x7b% if " ++ lhs ++ " == ").toList

theorem rightPlace_eq (lhs : String) :
    rightPlace lhs = (((leftPlace.after lhs.toList).next ' ').after "==".toList).next ' ' := by
  rw [rightPlace, String.toList_append, String.toList_append, Place.after_append, Place.after_append]
  rfl

/-- A choice between numbers is scanned as the tag of a conditional with these numbers in their places. -/
theorem exists_scan_choice {d e : String} (hd : Lexical .number d.toList) (he : Lexical .number e.toList) (a b : String) :
    ∃ opener keyword equal rest, opener.kind = .tagStart ∧ keyword.kind = .ifWord ∧
      (equal.kind = .comparison ∧ equal.text = Comparison.equal.symbol) ∧
        scan (choice d e a b) =
          opener :: keyword :: ⟨.number, d, leftPlace⟩ :: equal :: ⟨.number, e, rightPlace d⟩ :: rest := by
  have hsource : (choice d e a b).toList = Delimiter.tag.openText ++ ' ' :: ("if".toList ++ ' ' :: (d.toList ++
      ' ' :: ("==".toList ++ ' ' :: (e.toList ++ ' ' :: (Delimiter.tag.closeText ++
        (a.toList ++ ("\x7b% else %\x7d".toList ++ (b.toList ++ "\x7b% endif %\x7d".toList)))))))) := by
    simp [choice, Delimiter.openText, Delimiter.closeText]
  have hif : Rereads .ifWord "if".toList := (lexical_of_check rfl).rereads (by decide)
  have hequal : Rereads .comparison "==".toList := (lexical_of_check rfl).rereads (by decide)
  have hleft : Rereads .number d.toList := hd.rereads (by decide)
  have hright : Rereads .number e.toList := he.rereads (by decide)
  have hscan := scans_scan (choice d e a b)
  rw [hsource] at hscan
  -- up to the literal on the right side, and whatever comes then
  have hall := hscan.unique (.opening .tag (.between_spaces hif.piece (.between_spaces hleft.piece
    (.between_spaces hequal.piece (.between_spaces hright.piece (scans_tokens _ _ _))))))
  simp only [String.ofList_toList] at hall
  rw [rightPlace_eq]
  exact ⟨_, _, _, _, rfl, rfl, ⟨rfl, rfl⟩, hall⟩

theorem Template.read_error {name source : String} {f : ParseFault}
    (h : (Transcript.ofTokens .empty (scan source)).fault = some f) : (read name source .empty).1 = .error (.parse f) := by
  have hfault : ((Draft.fresh name .empty).parse source).2.transcript.fault = some f := by
    rw [Draft.transcript_parse rfl, h]
  simp only [read, hfault]

/-- **Integers are exact.**  In a source that chooses between two texts, two integers that fit into words choose by their
values, whether the right one is a number or spelled by a string.  The first number that does not fit is the fault of the
source, in its place; and if only the integer on the right does not fit, a string that spells it is the fault of the
rendering. -/
theorem Template.choice_exact (name : String) {d e a b : String} {x y : Int} (hd : WritesInt d.toList x)
    (he : WritesInt e.toList y) (ha : '{' ∉ a.toList) (hb : '{' ∉ b.toList) :
    (InWord x → InWord y → ∀ rhs ∈ [e, inQuotes e], ∃ t, (read name (choice d rhs a b) .empty).1 = .ok t ∧
      t.render true = .ok (if x = y then a else b)) ∧
    (¬InWord x → (read name (choice d e a b) .empty).1 = .error (.parse ⟨leftPlace, .invalidNumber d⟩)) ∧
    (InWord x → ¬InWord y →
      (read name (choice d e a b) .empty).1 = .error (.parse ⟨rightPlace d, .invalidNumber e⟩) ∧
        ∃ t, (read name (choice d (inQuotes e) a b) .empty).1 = .ok t ∧ t.render true = .error (.eval (.notInt e))) := by
  have hquoted := readsAs_inQuotes he.plain_chars
  obtain ⟨opener, keyword, equal, rest, hopener, hkeyword, ⟨hequal, hsymbol⟩, hscan⟩ :=
    exists_scan_choice (.number (isNumber_of_writesInt hd)) (.number (isNumber_of_writesInt he)) a b
  refine ⟨fun hx hy => ?_, fun hx => ?_, fun hx hy => ⟨?_, ?_⟩⟩
  · obtain ⟨m, hm, hdm⟩ := exists_word hd hx
    obtain ⟨n, hn, hen⟩ := exists_word he hy
    intro rhs hrhs
    rcases List.mem_pair.1 hrhs with rfl | rfl
    · obtain ⟨t, ht, hout⟩ := read_choice name (readsAs_int hd hm) (readsAs_int he hn) ha hb
      exact ⟨t, ht, by rw [hout, compareNodes_int, chosen_word hm hn]⟩
    · obtain ⟨t, ht, hout⟩ := read_choice name (readsAs_int hd hm) hquoted ha hb
      refine ⟨t, ht, ?_⟩
      rw [hout, compareNodes_string hen, chosen_word hn hm]
      simp only [eq_comm]
  · have hoperand := operand_of_readWord? (t := ⟨.number, d, leftPlace⟩) rfl (readWord?_eq_none hd hx)
    refine read_error ?_
    rw [hscan]
    exact fault_of_condition .empty hopener hkeyword [] (by simp) hoperand _
  · obtain ⟨m, hm, hdm⟩ := exists_word hd hx
    have hoperand := operand_of_readWord? (t := ⟨.number, e, rightPlace d⟩) rfl (readWord?_eq_none he hy)
    have hleft : Stands ⟨.number, d, leftPlace⟩ (.int leftPlace.offset m) := .number _ rfl m hdm
    have hmiddle : Stands equal (.comparison equal.place.offset .equal) := .comparison _ hequal .equal hsymbol
    refine read_error ?_
    rw [hscan]
    exact fault_of_condition .empty hopener hkeyword [⟨_, _, hleft⟩, ⟨_, _, hmiddle⟩] (by simp) hoperand _
  · obtain ⟨m, hm, hdm⟩ := exists_word hd hx
    obtain ⟨t, ht, hout⟩ := read_choice name (readsAs_int hd hm) hquoted ha hb
    exact ⟨t, ht, by rw [hout, compareNodes_string_error (readWord?_eq_none he hy)]; rfl⟩

theorem Template.choice_exact_seven :
    (∃ t, (read "t" (choice "+7" "007" "x" "") .empty).1 = .ok t ∧ t.render true = .ok "x") ∧
      (read "t" (choice "+7" "9223372036854775808" "x" "") .empty).1 =
        .error (.parse ⟨⟨12, 1, 13⟩, .invalidNumber "9223372036854775808"⟩) := by
  have hseven : WritesInt "+7".toList 7 := .plus ['7'] (by decide) (by simp)
  have hzeros : WritesInt "007".toList 7 := .plain ['0', '0', '7'] (by decide) (by simp)
  have hbeyond : WritesInt "9223372036854775808".toList 9223372036854775808 :=
    .plain "9223372036854775808".toList (by decide) (by simp)
  have hword : InWord 7 := by simp [InWord]
  constructor
  · exact (choice_exact "t" hseven hzeros (by decide) (by decide)).1 hword hword "007" (by simp)
  · exact ((choice_exact "t" hseven hbeyond (by decide) (by decide)).2.2 hword (by simp [InWord])).1

end Stencil
