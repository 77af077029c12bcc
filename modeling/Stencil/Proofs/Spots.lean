import Stencil.Proofs.LayoutAppend
import Stencil.Proofs.Relocation
/-!
# Spots in a layout

A spot is a position in a template at which an item can stand: between two items, at the top or in the body of a tag,
however deep.  It is told by what is around it, from the outside inwards, and can be filled with any items (`Spot.fill`).

What fills a spot decides neither whether the rest is a layout (`Spot.fits_fill`) nor what the rest stands for
(`Spot.sameNodes_fill`).
-/
namespace Stencil
namespace Layout

variable {names : List String} {rest : List Token}

/-! ## Spots -/

inductive EndingFrame
  | otherwise (opening : TokenOf .tagStart) (keyword : TokenOf .elseWord) (closing : TokenOf .tagEnd)
    (closer : Closer "endif")
  | another (opening : TokenOf .tagStart) (keyword : TokenOf .elifWord) (condition : Condition) (ending : Ending [])
  | later (opening : TokenOf .tagStart) (keyword : TokenOf .elifWord) (condition : Condition) (body : List (Item []))
    (frame : EndingFrame)

inductive TagFrame
  | block (keyword : TokenOf .blockWord) (title : TokenOf .identifier) (closing : TokenOf .tagEnd)
    (closer : Closer "endblock")
  | conditional (keyword : TokenOf .ifWord) (condition : Condition) (ending : Ending [])
  | branch (keyword : TokenOf .ifWord) (condition : Condition) (body : List (Item [])) (frame : EndingFrame)

/-- Between two items: here, or in the body of a tag that stands here. -/
inductive Spot
  | here (before behind : List (Item []))
  | within (before : List (Item [])) (opening : TokenOf .tagStart) (frame : TagFrame) (inner : Spot)
    (behind : List (Item []))

/-! ### What fills a frame or a spot -/

def EndingFrame.fill : EndingFrame → List (Item []) → Ending []
  | otherwise opening keyword closing closer, x => .otherwise opening keyword closing x closer
  | another opening keyword condition ending, x => .another opening keyword condition x ending
  | later opening keyword condition body frame, x => .another opening keyword condition body (frame.fill x)

def TagFrame.fill : TagFrame → List (Item []) → Tag []
  | block keyword title closing closer, x => .block keyword title closing x closer
  | conditional keyword condition ending, x => .conditional keyword condition x ending
  | branch keyword condition body frame, x => .conditional keyword condition body (frame.fill x)

def Spot.fill : Spot → List (Item []) → List (Item [])
  | here before behind, x => before ++ (x ++ behind)
  | within before opening frame inner behind, x => before ++ .tag opening (frame.fill (inner.fill x)) :: behind

/-! ### The tokens around it -/

def EndingFrame.front : EndingFrame → List Token
  | otherwise opening keyword closing _ => [opening.1, keyword.1, closing.1]
  | another opening keyword condition _ => opening.1 :: keyword.1 :: condition.tokens
  | later opening keyword condition body frame =>
    opening.1 :: keyword.1 :: (condition.tokens ++ (tokensOf body ++ frame.front))

def EndingFrame.back : EndingFrame → List Token
  | otherwise _ _ _ closer => closer.tokens
  | another _ _ _ ending => ending.tokens
  | later _ _ _ _ frame => frame.back

def TagFrame.front : TagFrame → List Token
  | block keyword title closing _ => [keyword.1, title.1, closing.1]
  | conditional keyword condition _ => keyword.1 :: condition.tokens
  | branch keyword condition body frame => keyword.1 :: (condition.tokens ++ (tokensOf body ++ frame.front))

def TagFrame.back : TagFrame → List Token
  | block _ _ _ closer => closer.tokens
  | conditional _ _ ending => ending.tokens
  | branch _ _ _ frame => frame.back

def Spot.front : Spot → List Token
  | here before _ => tokensOf before
  | within before opening frame inner _ => tokensOf before ++ opening.1 :: (frame.front ++ inner.front)

def Spot.back : Spot → List Token
  | here _ behind => tokensOf behind
  | within _ _ frame inner behind => inner.back ++ (frame.back ++ tokensOf behind)

variable {x y : List (Item [])}

theorem EndingFrame.tokens_fill : ∀ f : EndingFrame, (f.fill x).tokens = f.front ++ (tokensOf x ++ f.back)
  | otherwise .. => rfl
  | another .. => by simp [fill, front, back, Ending.tokens]
  | later _ _ _ _ frame => by simp [fill, front, back, Ending.tokens, frame.tokens_fill]

theorem TagFrame.tokens_fill (f : TagFrame) : (f.fill x).tokens = f.front ++ (tokensOf x ++ f.back) := by
  cases f with
  | block => rfl
  | conditional => simp [fill, front, back, Tag.tokens]
  | branch _ _ _ frame => simp [fill, front, back, Tag.tokens, frame.tokens_fill]

theorem Spot.tokens_fill : ∀ s : Spot, tokensOf (s.fill x) = s.front ++ (tokensOf x ++ s.back)
  | here before behind => by rw [fill, tokensOf_append, tokensOf_append]; rfl
  | within before opening frame inner behind => by
    rw [fill, tokensOf_append, tokensOf, Item.tokens, frame.tokens_fill, inner.tokens_fill, front, back]
    simp

/-! ### What may stand at a spot -/

theorem EndingFrame.fits_inner : ∀ (f : EndingFrame) {rest : List Token}, (f.fill x).Fits rest → FitsAll x (f.back ++ rest)
  | otherwise .., _, h => h.1
  | another .., _, h => h.1
  | later _ _ _ _ frame, _, h => frame.fits_inner h.2

theorem EndingFrame.fits_fill : ∀ (f : EndingFrame) {rest : List Token}, (f.fill y).Fits rest →
    FitsAll x (f.back ++ rest) → (f.fill x).Fits rest
  | otherwise .., _, h, hx => ⟨hx, h.2⟩
  | another .., _, h, hx => ⟨hx, h.2⟩
  | later _ _ _ body frame, _, h, hx =>
    ⟨complete_of_ne body h.1 (Ending.tokens_append_ne _ _) _, frame.fits_fill h.2 hx⟩

theorem TagFrame.fits_inner (f : TagFrame) (h : (f.fill x).Fits rest) : FitsAll x (f.back ++ rest) := by
  cases f with
  | block | conditional => exact h.1
  | branch _ _ _ frame => exact frame.fits_inner h.2

theorem TagFrame.fits_fill (f : TagFrame) (h : (f.fill y).Fits rest) (hx : FitsAll x (f.back ++ rest)) :
    (f.fill x).Fits rest := by
  cases f with
  | block | conditional => exact ⟨hx, h.2⟩
  | branch _ _ body frame =>
    exact ⟨complete_of_ne body h.1 (Ending.tokens_append_ne _ _) _, frame.fits_fill h.2 hx⟩

/-- Where some items fit that are not without tokens, others fit if they may stand before what is behind the spot. -/
theorem Spot.fits_fill (hy : tokensOf y ≠ []) : ∀ (s : Spot) {rest : List Token}, FitsAll (s.fill y) rest →
    FitsAll x (s.back ++ rest) → FitsAll (s.fill x) rest
  | here before behind, _, h, hx => by
    obtain ⟨hbefore, hmore⟩ := (fitsAll_append before _).1 h
    have hne : ∀ rest, tokensOf (y ++ behind) ++ rest ≠ [] := by simp [tokensOf_append, hy]
    exact (fitsAll_append before _).2 ⟨complete_of_ne before hbefore (hne _) _,
      (fitsAll_append x behind).2 ⟨hx, ((fitsAll_append y behind).1 hmore).2⟩⟩
  | within before opening frame inner behind, rest, h, hx => by
    obtain ⟨hbefore, htag, hbehind⟩ := (fitsAll_append before _).1 h
    have hinner : FitsAll (inner.fill x) (frame.back ++ (tokensOf behind ++ rest)) := by
      refine inner.fits_fill hy (frame.fits_inner htag) ?_
      rw [back, List.append_assoc, List.append_assoc] at hx
      exact hx
    exact (fitsAll_append before _).2 ⟨complete_of_ne before hbefore (List.cons_ne_nil _ _) _,
      frame.fits_fill htag hinner, hbehind⟩

/-- A spot of a template: it is one if a text stands there. -/
def Spot.Open (s : Spot) : Prop := ∃ t : TokenOf .text, Derives (s.front ++ t.1 :: s.back) (s.fill [.text t])

theorem Spot.Open.derives {s : Spot} (hs : s.Open) (hx : FitsAll x s.back) :
    Derives (s.front ++ (tokensOf x ++ s.back)) (s.fill x) := by
  obtain ⟨t, ht⟩ := hs
  refine ⟨s.tokens_fill, s.fits_fill (by simp [tokensOf, Item.tokens]) ht.fits ?_⟩
  rwa [List.append_nil]

/-! ### What a template stands for -/

open Reading (SameNodes SameNode sameNodes_cons sameNode_block sameNode_conditional)

theorem EndingFrame.sameNode_fill (h : SameNodes (nodesOf x) (nodesOf y)) : ∀ f : EndingFrame,
    (f.fill x).node.map Node.unplaced = (f.fill y).node.map Node.unplaced
  | otherwise .. => congrArg some (sameNode_block _ _ _ h)
  | another .. => congrArg some (sameNode_block _ _ _ (sameNodes_cons (sameNode_conditional _ _ rfl ⟨h, rfl⟩) rfl))
  | later _ _ _ _ frame =>
    congrArg some (sameNode_block _ _ _ (sameNodes_cons (sameNode_conditional _ _ rfl ⟨rfl, frame.sameNode_fill h⟩) rfl))

theorem TagFrame.sameNode_fill (h : SameNodes (nodesOf x) (nodesOf y)) (f : TagFrame) :
    SameNode (f.fill x).node (f.fill y).node := by
  cases f with
  | block => exact sameNode_block _ _ _ h
  | conditional => exact sameNode_conditional _ _ rfl ⟨h, rfl⟩
  | branch _ _ _ frame => exact sameNode_conditional _ _ rfl ⟨rfl, frame.sameNode_fill h⟩

theorem sameNodes_append {as bs cs ds : List Node} (h : SameNodes as bs) (h' : SameNodes cs ds) :
    SameNodes (as ++ cs) (bs ++ ds) := by
  simp only [SameNodes, unplacedAll_eq_map, List.map_append] at h h' ⊢
  rw [h, h']

/-- Items that stand for the same nodes do so at every spot. -/
theorem Spot.sameNodes_fill (h : SameNodes (nodesOf x) (nodesOf y)) : ∀ s : Spot,
    SameNodes (nodesOf (s.fill x)) (nodesOf (s.fill y))
  | here before behind => by
    simp only [fill, nodesOf_append]
    exact sameNodes_append rfl (sameNodes_append h rfl)
  | within before opening frame inner behind => by
    simp only [fill, nodesOf_append]
    exact sameNodes_append rfl (sameNodes_cons (frame.sameNode_fill (inner.sameNodes_fill h)) rfl)

end Layout
end Stencil
