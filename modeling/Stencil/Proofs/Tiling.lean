import Stencil.Proofs.Scans
import Stencil.Token.Tap
/-!
# Scans lose nothing

The tokens of a scan stand side by side in the source, each where its place says, with nothing between two of them but
blanks within a tag.  The last token is the only one that is not made of characters of the source: it is the end of input,
behind all of them, or the error that stopped the scan.

`Tiles` says this from any point of a scan on, token by token with the gap in front of it, and every fact about whole
scans is read off it by an induction of its own.
-/
namespace Stencil

/-! ## Bytes and slices -/

def byteLength (cs : List Char) : Nat := (String.ofList cs).utf8ByteSize

@[simp] theorem byteLength_nil : byteLength [] = 0 := rfl

@[simp] theorem byteLength_append (as bs : List Char) : byteLength (as ++ bs) = byteLength as + byteLength bs := by
  rw [byteLength, String.ofList_append, String.utf8ByteSize_append]
  rfl

@[simp] theorem byteLength_cons (c : Char) (cs : List Char) : byteLength (c :: cs) = c.utf8Size + byteLength cs := by
  rw [byteLength, String.ofList_cons, String.utf8ByteSize_append, String.utf8ByteSize_singleton]
  rfl

theorem byteLength_pos {cs : List Char} (h : cs ≠ []) : 0 < byteLength cs := by
  obtain ⟨c, cs, rfl⟩ := List.exists_cons_of_ne_nil h
  rw [byteLength_cons]
  exact Nat.add_pos_left c.utf8Size_pos _

theorem length_le_byteLength : ∀ cs : List Char, cs.length ≤ byteLength cs
  | [] => Nat.le_refl 0
  | c :: cs => by
    have := c.utf8Size_pos
    have := length_le_byteLength cs
    rw [List.length_cons, byteLength_cons]
    omega

theorem byteLength_toList (s : String) : byteLength s.toList = s.utf8ByteSize := by rw [byteLength, String.ofList_toList]

theorem Place.offset_next (p : Place) (c : Char) : (p.next c).offset = p.offset + c.utf8Size := by
  unfold next
  split
  · rename_i h
    rw [h]
    rfl
  · rfl

theorem Place.offset_after (p : Place) : ∀ cs : List Char, (p.after cs).offset = p.offset + byteLength cs
  | [] => rfl
  | c :: cs => by rw [after_cons, offset_after, offset_next, byteLength_cons, Nat.add_assoc]

def Slice (source : String) (start stop : Nat) (cs : List Char) : Prop :=
  ∃ before behind, source.toList = before ++ cs ++ behind ∧ byteLength before = start ∧ byteLength (before ++ cs) = stop

/-- The offset behind a token. -/
def Token.stop (t : Token) : Nat := t.place.offset + byteLength t.text.toList

theorem Token.stop_ofList (kind : Kind) (cs : List Char) (p : Place) :
    Token.stop ⟨kind, String.ofList cs, p⟩ = (p.after cs).offset := by
  rw [Token.stop, String.toList_ofList, Place.offset_after]

/-! ## Tags that are open -/

/-- A tag or a variable has been opened by `ts` and is not closed yet. -/
def TagOpen (ts : List Token) : Prop :=
  ∃ before opener inner, ts = before ++ opener :: inner ∧ (opener.kind = .tagStart ∨ opener.kind = .varStart) ∧
    ∀ t ∈ inner, t.kind ≠ .tagEnd ∧ t.kind ≠ .varEnd

/-- Whether a tag is open behind a token, given whether one is open in front of it. -/
def Kind.leavesOpen (inside : Bool) : Kind → Bool
  | .tagStart | .varStart => true
  | .tagEnd | .varEnd => false
  | _ => inside

theorem Kind.leavesOpen_of_isInner {kind : Kind} (h : kind.isInner = true) (inside : Bool) :
    kind.leavesOpen inside = inside := by
  cases kind <;> first | rfl | cases h

theorem TagOpen.concat {inside : Bool} {seen : List Token} (hseen : inside = true → TagOpen seen) (t : Token)
    (h : t.kind.leavesOpen inside = true) : TagOpen (seen ++ [t]) := by
  by_cases ho : t.kind = .tagStart ∨ t.kind = .varStart
  · exact ⟨seen, t, [], rfl, ho, by simp⟩
  · have hkeep : t.kind ≠ .tagEnd ∧ t.kind ≠ .varEnd ∧ inside = true := by
      revert ho h
      cases t.kind <;> simp [Kind.leavesOpen]
    obtain ⟨before, opener, inner, rfl, hopener, hinner⟩ := hseen hkeep.2.2
    refine ⟨before, opener, inner ++ [t], by rw [List.append_assoc]; rfl, hopener, ?_⟩
    intro u hu
    rcases List.mem_append.1 hu with hu | hu
    · exact hinner u hu
    · rw [List.mem_singleton.1 hu]
      exact ⟨hkeep.1, hkeep.2.1⟩

/-! ## Tilings -/

def Blank (cs : List Char) : Prop := ∀ c ∈ cs, c = ' ' ∨ c = '\t'

/-- What may stand in front of a token: blanks, if a tag is open. -/
structure Gap (inside : Bool) (cs : List Char) : Prop where
  blank : Blank cs
  within : cs ≠ [] → inside = true

theorem Gap.nil (inside : Bool) : Gap inside [] := ⟨by simp [Blank], fun h => absurd rfl h⟩

structure Token.Proper (t : Token) : Prop where
  plain : t.kind ≠ .endOfInput ∧ t.kind ≠ .error
  nonempty : t.text ≠ ""

theorem Token.Proper.lt_stop {t : Token} (h : t.Proper) : t.place.offset < t.stop :=
  Nat.lt_add_of_pos_right (byteLength_pos fun hnil => h.nonempty (String.toList_eq_nil_iff.1 hnil))

/-- The token that ends a scan, with `cs` behind it. -/
def Token.Terminal (t : Token) (cs : List Char) : Prop :=
  (t.kind = .endOfInput ∧ t.text = "" ∧ cs = []) ∨ t.kind = .error

/-- `Tiles inside start cs ts`: the tokens `ts` tile `cs`, which starts at the offset `start`. -/
inductive Tiles : Bool → Nat → List Char → List Token → Prop
  | last {inside : Bool} {start : Nat} {gap cs : List Char} {t : Token} (hgap : Gap inside gap)
    (hat : t.place.offset = start + byteLength gap) (ht : t.Terminal cs) : Tiles inside start (gap ++ cs) [t]
  | token {inside : Bool} {start : Nat} {gap cs : List Char} {t : Token} {ts : List Token} (hgap : Gap inside gap)
    (hat : t.place.offset = start + byteLength gap) (ht : t.Proper)
    (tail : Tiles (t.kind.leavesOpen inside) t.stop cs ts) : Tiles inside start (gap ++ (t.text.toList ++ cs)) (t :: ts)

namespace Tiles

theorem blank {start : Nat} {c : Char} {cs : List Char} {ts : List Token} (hc : c = ' ' ∨ c = '\t')
    (h : Tiles true (start + c.utf8Size) cs ts) : Tiles true start (c :: cs) ts := by
  have hgap : ∀ {gap : List Char}, Gap true gap → Gap true (c :: gap) := by
    intro gap hgap
    exact ⟨List.forall_mem_cons.2 ⟨hc, hgap.blank⟩, fun _ => rfl⟩
  have hat : ∀ {t : Token} {gap : List Char}, t.place.offset = start + c.utf8Size + byteLength gap →
      t.place.offset = start + byteLength (c :: gap) := by
    intro t gap hat
    rw [hat, byteLength_cons, Nat.add_assoc]
  cases h with
  | last h1 h2 h3 => exact .last (hgap h1) (hat h2) h3
  | token h1 h2 h3 tail => exact .token (hgap h1) (hat h2) h3 tail

theorem cons {inside : Bool} {kind : Kind} {p : Place} {cs rest : List Char} {ts : List Token}
    (hkind : kind ≠ .endOfInput ∧ kind ≠ .error) (hne : cs ≠ [])
    (tail : Tiles (kind.leavesOpen inside) (p.after cs).offset rest ts) :
    Tiles inside p.offset (cs ++ rest) (⟨kind, String.ofList cs, p⟩ :: ts) := by
  have hcs : (String.ofList cs).toList = cs := String.toList_ofList
  have hproper : Token.Proper ⟨kind, String.ofList cs, p⟩ := by
    refine ⟨hkind, fun h => hne ?_⟩
    rw [← hcs, show String.ofList cs = "" from h]
    rfl
  rw [← Token.stop_ofList kind] at tail
  have h := Tiles.token (Gap.nil inside) rfl hproper tail
  rwa [List.nil_append, hcs] at h

end Tiles

def Zone.isInside : Zone → Bool
  | .text => false
  | .inside _ => true

theorem Scans.tiles {zone : Zone} {p : Place} {cs : List Char} {ts : List Token} (h : Scans zone p cs ts) :
    Tiles zone.isInside p.offset cs ts := by
  induction h with
  | done p => exact .last (.nil _) rfl (.inl ⟨rfl, rfl, rfl⟩)
  | text _ hne _ _ _ ih => exact .cons (by decide) hne ih
  | opening d _ ih => cases d <;> exact .cons (by decide) (by decide) ih
  | stray _ => exact .last (.nil _) rfl (.inr rfl)
  | @blank _ p c _ _ h _ ih =>
    obtain ⟨_, _, hc, hblank⟩ := pieceAt_eq_blank h
    obtain ⟨rfl, rfl⟩ := List.cons.inj hc
    rw [Place.offset_next] at ih
    exact .blank hblank ih
  | @lexeme _ _ kind cs _ _ h _ ih =>
    obtain ⟨hpos, -, hinner, -⟩ := pieceAt_eq_lexeme h
    refine .cons (Kind.plain_of_isInner hinner) (List.length_pos_iff.1 hpos) ?_
    rw [Kind.leavesOpen_of_isInner hinner]
    exact ih
  | closing d _ ih => cases d <;> exact .cons (by decide) (by decide) ih
  | fault _ => exact .last (.nil _) rfl (.inr rfl)

/-! ## What a tiling comes to -/

/-- Texts and gaps by turns. -/
def weave : List Token → List (List Char) → List Char
  | t :: ts, gap :: gaps => t.text.toList ++ (gap ++ weave ts gaps)
  | _, _ => []

namespace Tiles

variable {inside : Bool} {start : Nat} {cs : List Char} {ts : List Token}

theorem woven (h : Tiles inside start cs ts) : ∃ us last lead gaps behind,
    ts = us ++ [last] ∧ (∀ t ∈ us, t.Proper) ∧ last.Terminal behind ∧
      cs = lead ++ (weave us gaps ++ behind) ∧ Gap inside lead ∧ gaps.length = us.length ∧ (∀ gap ∈ gaps, Blank gap) ∧
        last.place.offset = start + byteLength (lead ++ weave us gaps) := by
  induction h with
  | @last _ _ gap cs t hgap hat ht =>
    exact ⟨[], t, gap, [], cs, rfl, by simp, ht, rfl, hgap, rfl, by simp, by simpa [weave] using hat⟩
  | @token _ start gap _ t _ hgap hat ht _ ih =>
    obtain ⟨us, last, lead, gaps, behind, rfl, hus, hlast, rfl, hlead, hlen, hgaps, hoff⟩ := ih
    refine ⟨t :: us, last, gap, lead :: gaps, behind, rfl, List.forall_mem_cons.2 ⟨ht, hus⟩, hlast, ?_, hgap,
      congrArg (· + 1) hlen, List.forall_mem_cons.2 ⟨hlead.blank, hgaps⟩, ?_⟩
    · simp only [weave, List.append_assoc]
    · rw [hoff, Token.stop, hat]
      simp only [weave, byteLength_append]
      omega

theorem start_le (h : Tiles inside start cs ts) : ∀ t ∈ ts, start ≤ t.place.offset := by
  induction h with
  | last _ hat _ =>
    intro t ht
    rw [List.mem_singleton.1 ht]
    omega
  | token _ hat _ _ ih =>
    intro t ht
    rcases List.mem_cons.1 ht with rfl | ht
    · omega
    · have := ih t ht
      unfold Token.stop at this
      omega

theorem ordered (h : Tiles inside start cs ts) : ts.Pairwise (fun t u => t.stop ≤ u.place.offset) := by
  induction h with
  | last => exact List.pairwise_singleton _ _
  | token _ _ _ tail ih => exact List.pairwise_cons.2 ⟨tail.start_le, ih⟩

theorem increasing (h : Tiles inside start cs ts) : ts.Pairwise (fun t u => t.place.offset < u.place.offset) := by
  induction h with
  | last => exact List.pairwise_singleton _ _
  | token _ _ ht tail ih =>
    exact List.pairwise_cons.2 ⟨fun u hu => Nat.lt_of_lt_of_le ht.lt_stop (tail.start_le u hu), ih⟩

theorem length_le (h : Tiles inside start cs ts) : ts.length ≤ byteLength cs + 1 := by
  induction h with
  | last => exact Nat.le_add_left 1 _
  | token _ _ ht _ ih =>
    have hlt := ht.lt_stop
    rw [Token.stop] at hlt
    simp only [List.length_cons, byteLength_append]
    omega

theorem slice (h : Tiles inside start cs ts) : ∀ t ∈ ts, t.kind ≠ .endOfInput → t.kind ≠ .error →
    ∃ before behind, cs = before ++ t.text.toList ++ behind ∧ start + byteLength before = t.place.offset := by
  induction h with
  | last _ _ hend =>
    intro t ht hplain herror
    rw [List.mem_singleton.1 ht] at hplain herror
    rcases hend with ⟨hk, -⟩ | hk
    · exact absurd hk hplain
    · exact absurd hk herror
  | @token _ _ gap cs t _ _ hat _ _ ih =>
    intro u hu hplain herror
    rcases List.mem_cons.1 hu with rfl | hu
    · exact ⟨gap, cs, by rw [List.append_assoc], hat.symm⟩
    · obtain ⟨before, behind, rfl, hoff⟩ := ih u hu hplain herror
      refine ⟨gap ++ (t.text.toList ++ before), behind, ?_, ?_⟩
      · simp only [List.append_assoc]
      · rw [← hoff, Token.stop, hat]
        simp only [byteLength_append]
        omega

theorem gap_head {t : Token} (h : Tiles inside start cs (t :: ts)) :
    ∃ gap rest, cs = gap ++ rest ∧ Gap inside gap ∧ t.place.offset = start + byteLength gap := by
  cases h with
  | last hgap hat _ => exact ⟨_, _, rfl, hgap, hat⟩
  | token hgap hat _ _ => exact ⟨_, _, rfl, hgap, hat⟩

theorem uncons {t : Token} (h : Tiles inside start cs (t :: ts)) (hne : ts ≠ []) :
    ∃ gap rest, cs = gap ++ (t.text.toList ++ rest) ∧ t.place.offset = start + byteLength gap ∧
      Tiles (t.kind.leavesOpen inside) t.stop rest ts := by
  cases h with
  | last => exact absurd rfl hne
  | token _ hat _ tail => exact ⟨_, _, rfl, hat, tail⟩

theorem gap_between {behind : List Token} {t u : Token} : ∀ {before seen : List Token} {inside : Bool} {start : Nat}
    {cs : List Char}, (inside = true → TagOpen seen) → Tiles inside start cs (before ++ t :: u :: behind) →
      ∃ x gap y, cs = x ++ gap ++ y ∧ start + byteLength x = t.stop ∧ t.stop + byteLength gap = u.place.offset ∧
        Blank gap ∧ (gap ≠ [] → TagOpen (seen ++ before ++ [t]))
  | [], seen, _, _, _, hseen, h => by
    obtain ⟨lead, cs, rfl, hat, tail⟩ := h.uncons (by simp)
    obtain ⟨gap, rest, rfl, hgap, hoff⟩ := tail.gap_head
    refine ⟨lead ++ t.text.toList, gap, rest, ?_, ?_, hoff.symm, hgap.blank, ?_⟩
    · simp only [List.append_assoc]
    · rw [Token.stop, hat, byteLength_append, Nat.add_assoc]
    · intro hne
      rw [List.append_nil]
      exact TagOpen.concat hseen t (hgap.within hne)
  | v :: before, seen, _, _, _, hseen, h => by
    obtain ⟨lead, cs, rfl, hat, tail⟩ := h.uncons (by simp)
    obtain ⟨x, gap, y, rfl, hx, hu, hblank, hopen⟩ := gap_between (TagOpen.concat hseen v) tail
    refine ⟨lead ++ (v.text.toList ++ x), gap, y, ?_, ?_, hu, hblank, ?_⟩
    · simp only [List.append_assoc]
    · rw [← hx, Token.stop, hat]
      simp only [byteLength_append]
      omega
    · intro hne
      have := hopen hne
      rwa [List.append_assoc seen [v] before] at this

end Tiles

/-! ## Whole scans -/

theorem slice_of_tiles {source : String} {start stop : Nat} {x cs y : List Char} (h : source.toList = x ++ cs ++ y)
    (hx : 0 + byteLength x = start) (hstop : start + byteLength cs = stop) : Slice source start stop cs := by
  rw [Nat.zero_add] at hx
  exact ⟨x, y, h, hx, by rw [byteLength_append, hx, hstop]⟩

/-- **A scan loses nothing.**  It ends with its only end of input, behind all of the source, or with its only error, and
then no token is ever drawn again.  Every other token is a piece of the source at its place, one stops before the next
starts, what stands between two are blanks within a tag, and texts and blanks together are the source up to the last
token. -/
theorem scan_lossless (source : String) : ∃ (ts : List Token) (last : Token), scan source = ts ++ [last] ∧
    (last.kind = .error ∨
      last.kind = .endOfInput ∧ last.text = "" ∧ last.place.offset = source.utf8ByteSize) ∧
    (∀ n, (Tap.ofSource source).drawAfter n = (ts ++ [last])[n]?) ∧
    (∀ t ∈ ts, t.kind ≠ .endOfInput ∧ t.kind ≠ .error ∧ t.text ≠ "" ∧
      Slice source t.place.offset t.stop t.text.toList) ∧
    (ts ++ [last]).Pairwise (fun t u => t.stop ≤ u.place.offset) ∧
    (∀ before t u behind, ts ++ [last] = before ++ t :: u :: behind →
      ∃ gap, Slice source t.stop u.place.offset gap ∧ Blank gap ∧ (gap ≠ [] → TagOpen (before ++ [t]))) ∧
    ∃ gaps : List (List Char), gaps.length = ts.length ∧ (∀ gap ∈ gaps, Blank gap) ∧
      Slice source 0 last.place.offset (weave ts gaps) ∧
      (last.kind = .endOfInput → weave ts gaps = source.toList) := by
  have htiles : Tiles false 0 source.toList (scan source) := (scans_scan source).tiles
  obtain ⟨ts, last, lead, gaps, behind, hts, hproper, hlast, hcs, hlead, hlen, hgaps, hoff⟩ := htiles.woven
  obtain rfl : lead = [] := by
    cases lead with
    | nil => rfl
    | cons c lead => cases hlead.within (List.cons_ne_nil c lead)
  rw [List.nil_append] at hcs hoff
  rw [hts] at htiles
  refine ⟨ts, last, hts, ?_, ?_, ?_, htiles.ordered, ?_, gaps, hlen, hgaps, ?_, ?_⟩
  · rcases hlast with ⟨hk, htext, rfl⟩ | hk
    · rw [List.append_nil] at hcs
      rw [← hcs, byteLength_toList, Nat.zero_add] at hoff
      exact .inr ⟨hk, htext, hoff⟩
    · exact .inl hk
  · intro n
    rw [Tap.drawAfter_eq, Tap.tokens_ofSource, hts]
  · intro t ht
    obtain ⟨⟨hend, herror⟩, hne⟩ := hproper t ht
    obtain ⟨x, y, hsource, hx⟩ := htiles.slice t (List.mem_append_left _ ht) hend herror
    exact ⟨hend, herror, hne, slice_of_tiles hsource hx rfl⟩
  · intro before t u behind hsplit
    have hnone : false = true → TagOpen [] := by simp
    rw [hsplit] at htiles
    obtain ⟨x, gap, y, hsource, hx, hu, hblank, hopen⟩ := htiles.gap_between hnone
    exact ⟨gap, slice_of_tiles hsource hx hu, hblank, hopen⟩
  · exact slice_of_tiles (x := []) hcs rfl hoff.symm
  · intro hk
    rcases hlast with ⟨-, -, rfl⟩ | herror
    · rw [hcs, List.append_nil]
    · rw [hk] at herror
      cases herror

end Stencil
