import Stencil.Proofs.Texts
import Stencil.Visit
/-!
# What a visitor looks at

What a visitor decides at a node may depend on all that it has looked at before, so its walk cannot be told from the nodes
alone.  But it can be told from the walk itself: the nodes it looks at are all nodes in pre-order, save those below a node
at which it decided to go no further.

Nodes that are alike may stand in several places, so a node is told by its path: the numbers of the children by which it
is reached.
-/
namespace Stencil

/-! ## Paths -/

namespace Node

theorem sizeOf_children_le (n : Node) : sizeOf n.children ≤ sizeOf n := by
  have happend : ∀ as bs : List Node, sizeOf (as ++ bs) + 1 = sizeOf as + sizeOf bs := by
    intro as bs
    induction as with
    | nil => simp only [List.nil_append, List.nil.sizeOf_spec, Nat.add_comm]
    | cons a as ih =>
      simp only [List.cons_append, List.cons.sizeOf_spec]
      omega
  cases n with
  | text | string | int | ident | comparison =>
    simp only [children, List.nil.sizeOf_spec, text.sizeOf_spec, string.sizeOf_spec, int.sizeOf_spec, ident.sizeOf_spec,
      comparison.sizeOf_spec]
    omega
  | block start name arguments body =>
    simp only [children, block.sizeOf_spec]
    omega
  | conditional start condition body otherwise =>
    have hbody := happend condition body
    have hall := happend (condition ++ body) otherwise.toList
    simp only [children, conditional.sizeOf_spec]
    cases otherwise <;> simp only [Option.toList, List.cons.sizeOf_spec, List.nil.sizeOf_spec, Option.some.sizeOf_spec,
      Option.none.sizeOf_spec] at hall ⊢ <;> omega

end Node

def stepIn (k : Nat) (p : List Nat × Node) : List Nat × Node := (k :: p.1, p.2)

/-- The nodes of a forest with their paths, in pre-order.  Its first tree has the number `k`. -/
def placements (k : Nat) : List Node → List (List Nat × Node)
  | [] => []
  | n :: ns => ([k], n) :: ((placements 0 n.children).map (stepIn k) ++ placements (k + 1) ns)
termination_by ns => sizeOf ns
decreasing_by
  · have := n.sizeOf_children_le
    rw [List.cons.sizeOf_spec]
    omega
  · rw [List.cons.sizeOf_spec]
    omega

theorem map_snd_placements (k : Nat) (ns : List Node) : (placements k ns).map Prod.snd = ns.flatMap Node.preorder := by
  induction k, ns using placements.induct with
  | case1 => rw [placements]; rfl
  | case2 k n ns ihchildren ihns =>
    have hunder : (Prod.snd ∘ stepIn k) = Prod.snd := rfl
    rw [placements, List.flatMap_cons, Node.preorder_eq, ← ihchildren, ← ihns]
    simp only [List.map_cons, List.map_append, List.map_map, hunder, List.cons_append]

theorem head_placements {k : Nat} {ns : List Node} : ∀ p ∈ placements k ns, ∃ j q, k ≤ j ∧ p.1 = j :: q := by
  induction k, ns using placements.induct with
  | case1 => simp [placements]
  | case2 k n ns _ ihns =>
    rw [placements]
    intro p hp
    rcases List.mem_cons.1 hp with rfl | hp
    · exact ⟨k, [], Nat.le_refl k, rfl⟩
    rcases List.mem_append.1 hp with hp | hp
    · obtain ⟨q, -, rfl⟩ := List.mem_map.1 hp
      exact ⟨k, q.1, Nat.le_refl k, rfl⟩
    · obtain ⟨j, q, hj, hpath⟩ := ihns p hp
      exact ⟨j, q, Nat.le_of_succ_le hj, hpath⟩

theorem nodup_placements (k : Nat) (ns : List Node) : ((placements k ns).map Prod.fst).Nodup := by
  induction k, ns using placements.induct with
  | case1 => simp [placements]
  | case2 k n ns ihchildren ihns =>
    have hunder : ((placements 0 n.children).map (stepIn k)).map Prod.fst =
        ((placements 0 n.children).map Prod.fst).map (k :: ·) := by simp only [List.map_map]; rfl
    rw [placements, List.map_cons, List.map_append, hunder, List.nodup_cons, List.nodup_append]
    -- The paths of later trees start with a greater number.
    have hlater : ∀ q, k :: q ∉ (placements (k + 1) ns).map Prod.fst := by
      intro q hq
      obtain ⟨p, hp, hpath⟩ := List.mem_map.1 hq
      obtain ⟨j, r, hj, hr⟩ := head_placements p hp
      rw [hr] at hpath
      have := (List.cons.inj hpath).1
      omega
    refine ⟨fun hk => ?_, ?_, ihns, fun p hp q hq heq => ?_⟩
    · rcases List.mem_append.1 hk with hk | hk
      · obtain ⟨q, hq, hpath⟩ := List.mem_map.1 hk
        obtain ⟨p, hp, rfl⟩ := List.mem_map.1 hq
        obtain ⟨j, r, -, hr⟩ := head_placements p hp
        rw [hr] at hpath
        cases hpath
      · exact hlater [] hk
    · exact List.Pairwise.map _ (fun _ _ hne h => hne (List.cons.inj h).2) ihchildren
    · obtain ⟨r, -, rfl⟩ := List.mem_map.1 hp
      exact hlater r (heq ▸ hq)

/-! ## Calls -/

variable {Memory Role : Type}

/-- One look of a visitor: at which node and in what role, with what memory, and what came of it. -/
structure Call (Memory Role : Type) where
  path : List Nat
  node : Node
  role : Role
  before : Memory
  after : Memory
  below : Option Role

namespace Call

def position (c : Call Memory Role) : List Nat × Node := (c.path, c.node)

def asked (c : Call Memory Role) : Role × Memory × Node := (c.role, c.before, c.node)

def under (k : Nat) (c : Call Memory Role) : Call Memory Role := { c with path := k :: c.path }

/-- At this look it was decided to go no further, and the path goes on from there. -/
def Hides (c : Call Memory Role) (path : List Nat) : Prop := c.below = none ∧ c.path <+: path ∧ c.path ≠ path

instance (c : Call Memory Role) (path : List Nat) : Decidable (c.Hides path) := inferInstanceAs (Decidable (_ ∧ _))

theorem not_hides_singleton {c : Call Memory Role} {j k : Nat} {p : List Nat} (hc : c.path = j :: p) : ¬ c.Hides [k] := by
  rintro ⟨-, hpre, hne⟩
  rw [hc] at hpre hne
  obtain ⟨rfl, hp⟩ := List.cons_prefix_cons.1 hpre
  exact hne (by rw [List.prefix_nil.1 hp])

theorem not_hides_of_ne {c : Call Memory Role} {j k : Nat} {p q : List Nat} (hc : c.path = j :: p) (hne : j ≠ k) :
    ¬ c.Hides (k :: q) := by
  rintro ⟨-, hpre, -⟩
  rw [hc] at hpre
  exact hne (List.cons_prefix_cons.1 hpre).1

theorem hides_under {c : Call Memory Role} {k : Nat} {p : List Nat} : (c.under k).Hides (k :: p) ↔ c.Hides p := by
  simp [Hides, under]

end Call

/-- None of these looks hides the path. -/
def Shown (cs : List (Call Memory Role)) (path : List Nat) : Prop := ∀ c ∈ cs, ¬ c.Hides path

instance (cs : List (Call Memory Role)) (path : List Nat) : Decidable (Shown cs path) :=
  inferInstanceAs (Decidable (∀ c ∈ cs, ¬ c.Hides path))

theorem shown_cons {c : Call Memory Role} {cs : List (Call Memory Role)} {path : List Nat} :
    Shown (c :: cs) path ↔ ¬ c.Hides path ∧ Shown cs path := List.forall_mem_cons

theorem shown_append {as bs : List (Call Memory Role)} {path : List Nat} :
    Shown (as ++ bs) path ↔ Shown as path ∧ Shown bs path := List.forall_mem_append

theorem shown_under {cs : List (Call Memory Role)} {k : Nat} {path : List Nat} :
    Shown (cs.map (Call.under k)) (k :: path) ↔ Shown cs path := by
  simp only [Shown, List.forall_mem_map, Call.hides_under]

namespace Visitor

variable (v : Visitor Memory Role)

def calls (role : Role) (memory : Memory) (k : Nat) : List Node → List (Call Memory Role)
  | [] => []
  | n :: ns =>
    match v.look role memory n with
    | (after, none) => ⟨[k], n, role, memory, after, none⟩ :: calls role after (k + 1) ns
    | (after, some sub) => ⟨[k], n, role, memory, after, some sub⟩ ::
        ((calls sub after 0 n.children).map (Call.under k) ++
          calls role (v.visitAll sub after n.children) (k + 1) ns)
termination_by ns => sizeOf ns
decreasing_by
  · rw [List.cons.sizeOf_spec]
    omega
  · have := n.sizeOf_children_le
    rw [List.cons.sizeOf_spec]
    omega
  · rw [List.cons.sizeOf_spec]
    omega

/-- To prove something of every walk, prove it where there is nothing to visit, where the walk does not go below the next
node, and where it does. -/
theorem walk_induction {motive : Role → Memory → Nat → List Node → Prop} (nil : ∀ role memory k, motive role memory k [])
    (pruned : ∀ role memory k n ns after, v.look role memory n = (after, none) → motive role after (k + 1) ns →
      motive role memory k (n :: ns))
    (entered : ∀ role memory k n ns after sub, v.look role memory n = (after, some sub) →
      motive sub after 0 n.children → motive role (v.visitAll sub after n.children) (k + 1) ns →
        motive role memory k (n :: ns)) :
    ∀ role memory k ns, motive role memory k ns := by
  intro role memory k ns
  induction role, memory, k, ns using calls.induct v with
  | case1 role memory k => exact nil role memory k
  | case2 role memory k n ns after h ih => exact pruned role memory k n ns after h ih
  | case3 role memory k n ns after sub h ihchildren ih => exact entered role memory k n ns after sub h ihchildren ih

variable {v} {role sub : Role} {memory after : Memory} {k : Nat} {n : Node} {ns : List Node}

theorem calls_pruned (h : v.look role memory n = (after, none)) :
    v.calls role memory k (n :: ns) = ⟨[k], n, role, memory, after, none⟩ :: v.calls role after (k + 1) ns := by
  rw [calls, h]

theorem calls_entered (h : v.look role memory n = (after, some sub)) :
    v.calls role memory k (n :: ns) = ⟨[k], n, role, memory, after, some sub⟩ ::
      ((v.calls sub after 0 n.children).map (Call.under k) ++
        v.calls role (v.visitAll sub after n.children) (k + 1) ns) := by
  rw [calls, h]

theorem visitAll_pruned (h : v.look role memory n = (after, none)) :
    v.visitAll role memory (n :: ns) = v.visitAll role after ns := by
  rw [visitAll, List.foldl_cons, visit_eq, h]
  rfl

theorem visitAll_entered (h : v.look role memory n = (after, some sub)) :
    v.visitAll role memory (n :: ns) = v.visitAll role (v.visitAll sub after n.children) ns := by
  rw [visitAll, List.foldl_cons, visit_eq, h]
  rfl

/-! ## The calls are those of the walk -/

def logged (v : Visitor Memory Role) : Visitor (Memory × List (Role × Memory × Node)) Role where
  look role memory node :=
    (((v.look role memory.1 node).1, memory.2 ++ [(role, memory.1, node)]), (v.look role memory.1 node).2)

theorem visitAll_logged (v : Visitor Memory Role) (role : Role) (memory : Memory) (k : Nat) (ns : List Node) :
    ∀ log, v.logged.visitAll role (memory, log) ns =
      (v.visitAll role memory ns, log ++ (v.calls role memory k ns).map Call.asked) := by
  induction role, memory, k, ns using v.walk_induction with
  | nil role memory k =>
    intro log
    rw [calls, List.map_nil, List.append_nil]
    rfl
  | pruned role memory k n ns after h ih =>
    intro log
    have hlogged : v.logged.look role (memory, log) n = ((after, log ++ [(role, memory, n)]), none) := by
      simp only [logged, h]
    rw [visitAll_pruned hlogged, visitAll_pruned h, calls_pruned h, ih, List.map_cons, List.append_assoc]
    rfl
  | entered role memory k n ns after sub h ihchildren ih =>
    intro log
    have hlogged : v.logged.look role (memory, log) n = ((after, log ++ [(role, memory, n)]), some sub) := by
      simp only [logged, h]
    have hunder : Call.asked ∘ Call.under k = (Call.asked : Call Memory Role → _) := rfl
    rw [visitAll_entered hlogged, visitAll_entered h, calls_entered h, ihchildren, ih, List.map_cons, List.map_append,
      List.map_map, hunder]
    simp only [List.append_assoc]
    rfl

/-- Each look starts with the memory that the one before it has left, and does what the visitor does. -/
def Threaded (v : Visitor Memory Role) : Memory → List (Call Memory Role) → Memory → Prop
  | memory, [], last => memory = last
  | memory, c :: cs, last =>
    c.before = memory ∧ v.look c.role c.before c.node = (c.after, c.below) ∧ Threaded v c.after cs last

theorem Threaded.append {cs ds : List (Call Memory Role)} {a b c : Memory} :
    v.Threaded a cs b → v.Threaded b ds c → v.Threaded a (cs ++ ds) c := by
  induction cs generalizing a with
  | nil =>
    rintro rfl h
    exact h
  | cons x cs ih =>
    rintro ⟨hbefore, hlook, hcs⟩ h
    exact ⟨hbefore, hlook, ih hcs h⟩

theorem Threaded.under {cs : List (Call Memory Role)} {a b : Memory} (k : Nat) :
    v.Threaded a cs b → v.Threaded a (cs.map (Call.under k)) b := by
  induction cs generalizing a with
  | nil => exact id
  | cons x cs ih =>
    rintro ⟨hbefore, hlook, hcs⟩
    exact ⟨hbefore, hlook, ih hcs⟩

theorem threaded_calls (v : Visitor Memory Role) (role : Role) (memory : Memory) (k : Nat) (ns : List Node) :
    v.Threaded memory (v.calls role memory k ns) (v.visitAll role memory ns) := by
  induction role, memory, k, ns using v.walk_induction with
  | nil role memory k =>
    rw [calls]
    rfl
  | pruned role memory k n ns after h ih =>
    rw [calls_pruned h, visitAll_pruned h]
    exact ⟨rfl, h, ih⟩
  | entered role memory k n ns after sub h ihchildren ih =>
    rw [calls_entered h, visitAll_entered h]
    exact ⟨rfl, h, (ihchildren.under k).append ih⟩

/-! ## Where the calls are -/

theorem head_calls (v : Visitor Memory Role) (role : Role) (memory : Memory) (k : Nat) (ns : List Node) :
    ∀ c ∈ v.calls role memory k ns, ∃ j p, k ≤ j ∧ c.path = j :: p := by
  induction role, memory, k, ns using v.walk_induction with
  | nil role memory k => simp [calls]
  | pruned role memory k n ns after h ih =>
    rw [calls_pruned h]
    intro c hc
    rcases List.mem_cons.1 hc with rfl | hc
    · exact ⟨k, [], Nat.le_refl k, rfl⟩
    · obtain ⟨j, p, hj, hpath⟩ := ih c hc
      exact ⟨j, p, Nat.le_of_succ_le hj, hpath⟩
  | entered role memory k n ns after sub h _ ih =>
    rw [calls_entered h]
    intro c hc
    rcases List.mem_cons.1 hc with rfl | hc
    · exact ⟨k, [], Nat.le_refl k, rfl⟩
    rcases List.mem_append.1 hc with hc | hc
    · obtain ⟨c, -, rfl⟩ := List.mem_map.1 hc
      exact ⟨k, c.path, Nat.le_refl k, rfl⟩
    · obtain ⟨j, p, hj, hpath⟩ := ih c hc
      exact ⟨j, p, Nat.le_of_succ_le hj, hpath⟩

/-- What is shown of a forest by the look at its first node, those below it and those in later trees. -/
theorem filter_shown (n : Node) (ns : List Node) {c : Call Memory Role} (inner : List (Call Memory Role))
    {later : List (Call Memory Role)} (hc : c.path = [k]) (hlater : ∀ d ∈ later, ∃ j p, k + 1 ≤ j ∧ d.path = j :: p) :
    ((placements k (n :: ns)).filter fun p => Shown (c :: (inner.map (Call.under k) ++ later)) p.1) =
      ([k], n) :: ((if c.below = none then [] else (placements 0 n.children).filter fun p => Shown inner p.1).map (stepIn k) ++
        (placements (k + 1) ns).filter fun p => Shown later p.1) := by
  have happart : ∀ q, Shown later (k :: q) := by
    intro q d hd
    obtain ⟨j, p, hj, hpath⟩ := hlater d hd
    exact Call.not_hides_of_ne hpath (by omega)
  have hself : Shown (c :: (inner.map (Call.under k) ++ later)) [k] := by
    rw [shown_cons, shown_append]
    exact ⟨Call.not_hides_singleton hc, List.forall_mem_map.2 fun d _ => Call.not_hides_singleton rfl, happart []⟩
  have hbelow : ∀ p ∈ placements 0 n.children,
      (Shown (c :: (inner.map (Call.under k) ++ later)) (stepIn k p).1 ↔ c.below ≠ none ∧ Shown inner p.1) := by
    intro p hp
    obtain ⟨j, q, -, hpath⟩ := head_placements p hp
    have hhides : c.Hides (k :: p.1) ↔ c.below = none := by simp [Call.Hides, hc, hpath]
    rw [stepIn, shown_cons, shown_append, shown_under, hhides]
    exact ⟨fun h => ⟨h.1, h.2.1⟩, fun h => ⟨h.1, h.2, happart _⟩⟩
  have hbehind : ∀ p ∈ placements (k + 1) ns,
      (Shown (c :: (inner.map (Call.under k) ++ later)) p.1 ↔ Shown later p.1) := by
    intro p hp
    obtain ⟨j, q, hj, hpath⟩ := head_placements p hp
    rw [hpath, shown_cons, shown_append]
    exact ⟨fun h => h.2.2, fun h => ⟨Call.not_hides_of_ne hc (by omega),
      List.forall_mem_map.2 fun d _ => Call.not_hides_of_ne rfl (by omega), h⟩⟩
  rw [placements, List.filter_cons_of_pos (by simpa using hself), List.filter_append, List.filter_map]
  congr 2
  · refine congrArg (List.map (stepIn k)) ?_
    split
    · rename_i hnone
      exact List.filter_eq_nil_iff.2 fun p hp => by simp [hbelow p hp, hnone]
    · rename_i hsome
      exact List.filter_congr fun p hp => by simp [hbelow p hp, hsome]
  · exact List.filter_congr fun p hp => by simp [hbehind p hp]

/-- The walk looks at those nodes that no look of it hides, in their order. -/
theorem position_calls (v : Visitor Memory Role) (role : Role) (memory : Memory) (k : Nat) (ns : List Node) :
    (v.calls role memory k ns).map Call.position =
      (placements k ns).filter fun p => Shown (v.calls role memory k ns) p.1 := by
  induction role, memory, k, ns using v.walk_induction with
  | nil role memory k => simp [calls, placements]
  | pruned role memory k n ns after h ih =>
    have hfilter := filter_shown (c := ⟨[k], n, role, memory, after, none⟩) n ns [] rfl
      (head_calls v role after (k + 1) ns)
    rw [calls_pruned h, List.map_cons, ih]
    exact hfilter.symm
  | entered role memory k n ns after sub h ihchildren ih =>
    have hfilter := filter_shown (c := ⟨[k], n, role, memory, after, some sub⟩) n ns (v.calls sub after 0 n.children) rfl
      (head_calls v role (v.visitAll sub after n.children) (k + 1) ns)
    have hunder : Call.position ∘ Call.under k = stepIn k ∘ (Call.position : Call Memory Role → _) := rfl
    rw [calls_entered h, hfilter, List.map_cons, List.map_append, ih, List.map_map, hunder, ← List.map_map, ihchildren]
    rfl

/-- What a look is owed to: it is at a tree of the forest, in the role of the walk, or at a child of a node at which the
visitor decided to go on, in the role that it chose there. -/
def Owed (role : Role) (k : Nat) (ns : List Node) (cs : List (Call Memory Role)) (c : Call Memory Role) : Prop :=
  (∃ i, c.path = [k + i] ∧ ns[i]? = some c.node ∧ c.role = role) ∨
    ∃ p ∈ cs, ∃ i, c.path = p.path ++ [i] ∧ p.node.children[i]? = some c.node ∧ p.below = some c.role

theorem Owed.later {c : Call Memory Role} {cs ds : List (Call Memory Role)} (h : Owed role (k + 1) ns cs c)
    (hsub : ∀ p ∈ cs, p ∈ ds) : Owed role k (n :: ns) ds c := by
  rcases h with ⟨i, hpath, hnode, hrole⟩ | ⟨p, hp, i, h⟩
  · exact .inl ⟨i + 1, by rw [hpath, Nat.add_assoc, Nat.add_comm 1 i], hnode, hrole⟩
  · exact .inr ⟨p, hsub p hp, i, h⟩

theorem owed_calls (v : Visitor Memory Role) (role : Role) (memory : Memory) (k : Nat) (ns : List Node) :
    ∀ c ∈ v.calls role memory k ns, Owed role k ns (v.calls role memory k ns) c := by
  induction role, memory, k, ns using v.walk_induction with
  | nil role memory k => simp [calls]
  | pruned role memory k n ns after h ih =>
    rw [calls_pruned h]
    intro c hc
    rcases List.mem_cons.1 hc with rfl | hc
    · exact .inl ⟨0, rfl, rfl, rfl⟩
    · exact (ih c hc).later fun p hp => List.mem_cons_of_mem _ hp
  | entered role memory k n ns after sub h ihchildren ih =>
    rw [calls_entered h]
    intro c hc
    rcases List.mem_cons.1 hc with rfl | hc
    · exact .inl ⟨0, rfl, rfl, rfl⟩
    rcases List.mem_append.1 hc with hc | hc
    · obtain ⟨d, hd, rfl⟩ := List.mem_map.1 hc
      rcases ihchildren d hd with ⟨i, hpath, hnode, hrole⟩ | ⟨p, hp, i, hpath, hnode, hbelow⟩
      · refine .inr ⟨_, List.mem_cons_self, i, ?_, hnode, congrArg some hrole.symm⟩
        rw [Call.under, hpath, Nat.zero_add]
        rfl
      · refine .inr ⟨p.under k, ?_, i, congrArg (k :: ·) hpath, hnode, hbelow⟩
        exact List.mem_cons_of_mem _ (List.mem_append_left _ (List.mem_map_of_mem hp))
    · exact (ih c hc).later fun p hp => List.mem_cons_of_mem _ (List.mem_append_right _ hp)

/-- **A walk is the pruned pre-order.**  Of every walk there are the looks that make it up.  They are all that the visitor
is asked, and its memory goes from each of them to the next.  The nodes that are looked at are the nodes of the forest in
pre-order, save those below a node at which it was decided to go no further; none is looked at twice, and each is looked at
in the role of the walk or, below another node, in the role that was chosen there. -/
theorem walk_pruned_preorder (v : Visitor Memory Role) (role : Role) (memory : Memory) (nodes : List Node) :
    (placements 0 nodes).map Prod.snd = nodes.flatMap Node.preorder ∧
      ∃ calls : List (Call Memory Role),
        v.logged.visitAll role (memory, []) nodes = (v.visitAll role memory nodes, calls.map Call.asked) ∧
        v.Threaded memory calls (v.visitAll role memory nodes) ∧
        calls.map Call.position = ((placements 0 nodes).filter fun p => Shown calls p.1) ∧
        (calls.map Call.path).Nodup ∧
        ∀ c ∈ calls, Owed role 0 nodes calls c := by
  have hposition := position_calls v role memory 0 nodes
  refine ⟨map_snd_placements 0 nodes, v.calls role memory 0 nodes, visitAll_logged v role memory 0 nodes [],
    threaded_calls v role memory 0 nodes, hposition, ?_, owed_calls v role memory 0 nodes⟩
  have hpath : (v.calls role memory 0 nodes).map Call.path =
      ((v.calls role memory 0 nodes).map Call.position).map Prod.fst := by
    rw [List.map_map]
    rfl
  rw [hpath, hposition]
  exact (nodup_placements 0 nodes).sublist (List.filter_sublist.map Prod.fst)

end Visitor
end Stencil
