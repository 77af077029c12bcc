import Mathlib.Data.List.Dedup
import Mathlib.Data.List.Induction
import Stencil.Proofs.FirstFault
import Stencil.Proofs.Texts
/-!
# Histories of drafts

A draft is put to use again and again: tags are registered, sources are read, it comes out as something or is shown to a
visitor, and it is copied.  What it is then is told by its history (`Life.Explains`), and of what was read by the last
reading alone, with the tags that had been registered by then.

A copy has the history of its original up to where it was made, and one of its own from there on.
-/
namespace Stencil

/-! ## Registrations -/

namespace Catalog

theorem find?_ofRegistrations (registrations : List (String × Program)) (name : String) :
    (ofRegistrations registrations).find? name = registrations.reverse.lookup name := by
  induction registrations using List.reverseRecOn with
  | nil => rfl
  | append_singleton registrations r ih =>
    rw [ofRegistrations_concat, find?_register, ih, List.reverse_concat, List.lookup_cons]
    by_cases h : name = r.1
    · rw [if_pos h, beq_iff_eq.2 h]
    · rw [if_neg h, beq_eq_false_iff_ne.2 h]

theorem entries_register (c : Catalog) (name : String) (program : Program) :
    (c.register name program).entries.map Prod.fst = name :: (c.entries.map Prod.fst).filter (· != name) := by
  rw [register, List.map_cons, List.filter_map]
  rfl

theorem nodup_ofRegistrations (registrations : List (String × Program)) :
    ((ofRegistrations registrations).entries.map Prod.fst).Nodup := by
  induction registrations using List.reverseRecOn with
  | nil => exact List.nodup_nil
  | append_singleton registrations r ih =>
    rw [ofRegistrations_concat, entries_register]
    exact List.nodup_cons.2 ⟨by simp, ih.filter _⟩

theorem mem_ofRegistrations {registrations : List (String × Program)} {name : String} :
    name ∈ (ofRegistrations registrations).entries.map Prod.fst ↔ name ∈ registrations.map Prod.fst := by
  induction registrations using List.reverseRecOn with
  | nil => rfl
  | append_singleton registrations r ih =>
    rw [ofRegistrations_concat, entries_register, List.mem_cons, List.mem_filter, ih, List.map_append, List.mem_append,
      List.map_singleton, List.mem_singleton, bne_iff_ne]
    by_cases h : name = r.1 <;> simp [h]

theorem size_ofRegistrations (registrations : List (String × Program)) :
    (ofRegistrations registrations).size = (registrations.map Prod.fst).dedup.length := by
  have hperm : ((ofRegistrations registrations).entries.map Prod.fst).Perm (registrations.map Prod.fst).dedup :=
    (List.perm_ext_iff_of_nodup (nodup_ofRegistrations registrations) (List.nodup_dedup _)).2 fun name => by
      rw [mem_ofRegistrations, List.mem_dedup]
  rw [← hperm.length_eq, List.length_map, size]

end Catalog

/-! ## Drafts that were not read -/

mutual

theorem Node.renderWhile_ne_unparsed (leave : Nat → Bool) (name : String) : ∀ (node : Node) (asked : Nat) (out : String),
    node.renderWhile leave asked out ≠ .error (.unparsed name)
  | .text _ _, _, _ | .string _ _, _, _ | .int _ _, _, _ | .comparison _ _, _, _ | .ident _ _, _, _ => by
    rw [Node.renderWhile]
    split <;> exact fun h => by cases h
  | .block _ _ _ body, asked, out => by
    rw [Node.renderWhile]
    split
    · exact renderAllWhile_ne_unparsed leave name body (asked + 1) out
    · exact fun h => by cases h
  | .conditional _ condition body none, asked, out => by
    rw [Node.renderWhile]
    split
    · split
      · exact fun h => by cases h
      · exact renderAllWhile_ne_unparsed leave name body (asked + 1) out
      · exact fun h => by cases h
    · exact fun h => by cases h
  | .conditional _ condition body (some node), asked, out => by
    rw [Node.renderWhile]
    split
    · split
      · exact fun h => by cases h
      · exact renderAllWhile_ne_unparsed leave name body (asked + 1) out
      · exact Node.renderWhile_ne_unparsed leave name node (asked + 1) out
    · exact fun h => by cases h

theorem renderAllWhile_ne_unparsed (leave : Nat → Bool) (name : String) : ∀ (nodes : List Node) (asked : Nat) (out : String),
    renderAllWhile leave asked out nodes ≠ .error (.unparsed name)
  | [], _, _ => fun h => by cases h
  | node :: nodes, asked, out => by
    have hnode := Node.renderWhile_ne_unparsed leave name node asked out
    rw [renderAllWhile]
    cases hr : node.renderWhile leave asked out with
    | error e => exact fun h => hnode (hr.trans (congrArg Except.error (Except.error.inj h)))
    | ok r => exact renderAllWhile_ne_unparsed leave name nodes r.2 r.1

end

namespace Draft

theorem nodes_eq_unparsed_iff {d : Draft} {name : String} :
    d.nodes = .error (.unparsed name) ↔ d.parsed = false ∧ name = d.name := by
  unfold nodes
  cases d.parsed <;> simp [eq_comm]

theorem renderWhile_eq_unparsed_iff {d : Draft} {leave : Nat → Bool} {name : String} :
    d.renderWhile leave = .error (.unparsed name) ↔ d.parsed = false ∧ name = d.name := by
  rw [← nodes_eq_unparsed_iff, renderWhile]
  rcases d.nodes with e | nodes
  · exact ⟨fun h => (by cases h; rfl), fun h => (by cases h; rfl)⟩
  · have hnodes := renderAllWhile_ne_unparsed leave name nodes 0 ""
    refine ⟨fun h => ?_, fun h => by cases h⟩
    change (renderAllWhile leave 0 "" nodes >>= fun r => pure r.1) = _ at h
    cases hr : renderAllWhile leave 0 "" nodes with
    | error e =>
      rw [hr] at h
      cases h
      exact absurd hr hnodes
    | ok r =>
      rw [hr] at h
      cases h

theorem walk_eq_unparsed_iff {d : Draft} {Memory Role : Type} {v : Visitor Memory Role} {role : Role} {memory : Memory}
    {name : String} : d.walk v role memory = .error (.unparsed name) ↔ d.parsed = false ∧ name = d.name := by
  rw [← nodes_eq_unparsed_iff, walk]
  rcases d.nodes with e | nodes
  · exact ⟨fun h => (by cases h; rfl), fun h => (by cases h; rfl)⟩
  · exact ⟨fun h => (by cases h), fun h => (by cases h)⟩

end Draft

/-! ## Uses -/

/-- What a draft is put to. -/
inductive Use : Type 1
  | register (tag : String) (program : Program)
  | parse (source : String)
  | parseTokens (s : Supply)
  | render (leave : Nat → Bool)
  | walk {Memory Role : Type} (v : Visitor Memory Role) (role : Role) (memory : Memory)

inductive Answer : Type 1
  | registered
  | parsed (fault : Option ParseFault)
  | rendered (r : Except Fault String)
  | walked {Memory : Type} (r : Except Fault Memory)

namespace Use

def reads : Use → Bool
  | parse _ | parseTokens _ => true
  | register .. | render _ | walk .. => false

def registration? : Use → Option (String × Program)
  | register tag program => some (tag, program)
  | parse _ | parseTokens _ | render _ | walk .. => none

end Use

def Draft.use (d : Draft) : Use → Draft × Answer
  | .register tag program => ((d.register tag program).1, .registered)
  | .parse source => ((d.parse source).1, .parsed (d.parse source).2.transcript.fault)
  | .parseTokens s => ((d.parseSupply s).1, .parsed (d.parseSupply s).2.transcript.fault)
  | .render leave => (d, .rendered (d.renderWhile leave))
  | .walk v role memory => (d, .walked (d.walk v role memory))

namespace Draft

variable {d : Draft} {u : Use}

theorem name_use (d : Draft) (u : Use) : (d.use u).1.name = d.name := by cases u <;> rfl

theorem tags_use (d : Draft) (u : Use) :
    (d.use u).1.tags = (u.registration?.toList.foldl (fun c r => c.register r.1 r.2) d.tags) := by cases u <;> rfl

/-- Only a reading changes what is in a draft. -/
theorem use_of_not_reads (h : u.reads = false) : (d.use u).1.root = d.root ∧ (d.use u).1.parsed = d.parsed := by
  cases u with
  | parse | parseTokens => cases h
  | register | render | walk => exact ⟨rfl, rfl⟩

theorem transcript_fault_iff (t : Transcript) : t.fault.isNone = true ↔ Answer.parsed t.fault = .parsed none := by
  rw [Option.isNone_iff_eq_none]
  exact ⟨congrArg Answer.parsed, Answer.parsed.inj⟩

theorem parsed_use_iff (h : u.reads = true) : (d.use u).1.parsed = true ↔ (d.use u).2 = .parsed none := by
  cases u with
  | parse source => exact transcript_fault_iff _
  | parseTokens s => exact transcript_fault_iff _
  | register | render | walk => cases h

theorem root_use_congr (h : u.reads = true) {d' : Draft} (htags : d.tags = d'.tags) :
    (d.use u).1.root = (d'.use u).1.root := by
  cases u with
  | parse source => exact (d.root_scan source).trans (htags ▸ (d'.root_scan source).symm)
  | parseTokens s => exact congrArg (fun tags => (Transcript.ofTokens tags s.tokens).root) htags
  | register | render | walk => cases h

end Draft

/-! ## Histories -/

/-- What happened to a draft: its name, what was registered before it was there, and what it was put to and answered. -/
structure Life : Type 1 where
  name : String
  registered : List (String × Program)
  past : List (Use × Answer)

namespace Life

def registrations (past : List (Use × Answer)) : List (String × Program) := past.filterMap (·.1.registration?)

def tagsAfter (l : Life) (past : List (Use × Answer)) : Catalog := .ofRegistrations (l.registered ++ registrations past)

/-- What the history of a draft says of the draft. -/
structure Explains (l : Life) (d : Draft) : Prop where
  name : d.name = l.name
  tags : d.tags = l.tagsAfter l.past
  /-- Where nothing was read there is nothing. -/
  unread : (∀ e ∈ l.past, e.1.reads = false) → d.parsed = false ∧ d.root = []
  /-- The last reading tells whether the draft counts as read, and what is in it: what that reading makes of a fresh draft
  with the tags that were registered before. -/
  read : ∀ before u answer after, l.past = before ++ (u, answer) :: after → u.reads = true →
    (∀ e ∈ after, e.1.reads = false) →
      (d.parsed = true ↔ answer = .parsed none) ∧
        d.root = ((Draft.fresh l.name (l.tagsAfter before)).use u).1.root

def next (l : Life) (u : Use) (answer : Answer) : Life := { l with past := l.past ++ [(u, answer)] }

theorem explains_fresh (name : String) (registered : List (String × Program)) :
    (⟨name, registered, []⟩ : Life).Explains (.fresh name (.ofRegistrations registered)) where
  name := rfl
  tags := by
    rw [tagsAfter, registrations, List.filterMap_nil, List.append_nil]
    rfl
  unread _ := ⟨rfl, rfl⟩
  read before _ _ _ h := absurd h (by simp)

theorem registrations_concat (past : List (Use × Answer)) (u : Use) (answer : Answer) :
    registrations (past ++ [(u, answer)]) = registrations past ++ u.registration?.toList := by
  rw [registrations, List.filterMap_append, ← registrations]
  cases u <;> rfl

theorem tagsAfter_concat (l : Life) (past : List (Use × Answer)) (u : Use) (answer : Answer) :
    l.tagsAfter (past ++ [(u, answer)]) = u.registration?.toList.foldl (fun c r => c.register r.1 r.2) (l.tagsAfter past) := by
  rw [tagsAfter, tagsAfter, registrations_concat, ← List.append_assoc, Catalog.ofRegistrations_append]

/-- A history that explains a draft still does when the draft was put to a use and that was written down. -/
theorem Explains.use {l : Life} {d : Draft} (h : l.Explains d) (u : Use) : (l.next u (d.use u).2).Explains (d.use u).1 where
  name := (d.name_use u).trans h.name
  tags := by
    rw [d.tags_use, h.tags]
    exact (l.tagsAfter_concat l.past u _).symm
  unread hnone := by
    have hu : u.reads = false := hnone (u, _) (List.mem_append_right _ List.mem_cons_self)
    obtain ⟨hroot, hparsed⟩ := d.use_of_not_reads hu
    rw [hroot, hparsed]
    exact h.unread fun e he => hnone e (List.mem_append_left _ he)
  read before v answer after hpast hreads hafter := by
    rcases List.eq_nil_or_concat after with rfl | ⟨after, e, rfl⟩
    · -- the new use is the last reading
      obtain ⟨rfl, hlast⟩ := List.append_inj' hpast rfl
      cases List.singleton_inj.1 hlast
      exact ⟨Draft.parsed_use_iff hreads, Draft.root_use_congr hreads h.tags⟩
    · rw [List.concat_eq_append, ← List.cons_append, ← List.append_assoc] at hpast
      obtain ⟨hbefore, hlast⟩ := List.append_inj' hpast rfl
      cases List.singleton_inj.1 hlast
      have hu : u.reads = false := hafter (u, (d.use u).2) (by simp)
      obtain ⟨hroot, hparsed⟩ := Draft.use_of_not_reads (d := d) hu
      rw [hroot, hparsed]
      exact h.read before v answer after hbefore hreads fun e he => hafter e (by simp [he])

end Life

/-! ## Many drafts -/

abbrev Studio := List (Draft × Life)

inductive Deed : Type 1
  | start (name : String) (registered : List (String × Program))
  | copy (i : Nat)
  | use (i : Nat) (u : Use)

namespace Studio

def perform (s : Studio) : Deed → Studio
  | .start name registered => s ++ [(.fresh name (.ofRegistrations registered), ⟨name, registered, []⟩)]
  | .copy i => s ++ s[i]?.toList
  | .use i u => s.modify i fun e => ((e.1.use u).1, e.2.next u (e.1.use u).2)

def after (deeds : List Deed) : Studio := deeds.foldl perform []

theorem after_concat (deeds : List Deed) (deed : Deed) : after (deeds ++ [deed]) = (after deeds).perform deed := by
  rw [after, List.foldl_append]
  rfl

/-- A deed keeps histories and drafts together. -/
theorem explains_perform {s : Studio} (h : ∀ e ∈ s, e.2.Explains e.1) (deed : Deed) : ∀ e ∈ s.perform deed, e.2.Explains e.1 := by
  intro e he
  cases deed with
  | start name registered =>
    rcases List.mem_append.1 he with he | he
    · exact h e he
    · rw [List.mem_singleton.1 he]
      exact Life.explains_fresh name registered
  | copy i =>
    rcases List.mem_append.1 he with he | he
    · exact h e he
    · exact h e (List.mem_of_getElem? (Option.mem_toList.1 he))
  | use i u =>
    obtain ⟨j, hj, rfl⟩ := List.mem_iff_getElem.1 he
    have hj' : j < s.length := by rwa [perform, List.length_modify] at hj
    have hmem : s[j] ∈ s := List.getElem_mem hj'
    simp only [perform, List.getElem_modify]
    split
    · exact (h _ hmem).use u
    · exact h _ hmem

theorem explains_after (deeds : List Deed) : ∀ e ∈ after deeds, e.2.Explains e.1 := by
  induction deeds using List.reverseRecOn with
  | nil => exact fun _ h => by cases h
  | append_singleton deeds deed ih =>
    rw [after_concat]
    exact explains_perform ih deed

theorem map_after_use {α : Type*} (f : Draft → α) (u : Use) (h : ∀ d : Draft, f (d.use u).1 = f d) (deeds : List Deed)
    (i : Nat) : (after (deeds ++ [.use i u])).map (f ·.1) = (after deeds).map (f ·.1) := by
  rw [after_concat, perform]
  refine List.ext_getElem (by simp) fun j hj hj' => ?_
  simp only [List.getElem_map, List.getElem_modify]
  split
  · exact h _
  · rfl

/-- **Whatever is done, each draft is what its history says**: the tags are the ones registered last under each name, the
last reading alone tells what is in the draft and whether it counts as read, and a draft that does not comes out as
nothing and is shown to nobody, which is said of it by its name.  Only a reading changes what is in a draft, and only a
registration its tags. -/
theorem explained (deeds : List Deed) :
    (∀ d l, (d, l) ∈ after deeds → l.Explains d ∧
      (∀ tag, d.tags.find? tag = (l.registered ++ Life.registrations l.past).reverse.lookup tag) ∧
      d.tags.size = ((l.registered ++ Life.registrations l.past).map Prod.fst).dedup.length ∧
      (∀ leave name, d.renderWhile leave = .error (.unparsed name) ↔ d.parsed = false ∧ name = l.name) ∧
      ∀ {Memory Role : Type} (v : Visitor Memory Role) (role : Role) (memory : Memory) (name : String),
        d.walk v role memory = .error (.unparsed name) ↔ d.parsed = false ∧ name = l.name) ∧
    (∀ i tag program, (after (deeds ++ [.use i (.register tag program)])).map (fun e => (e.1.root, e.1.parsed)) =
      (after deeds).map fun e => (e.1.root, e.1.parsed)) ∧
    (∀ i leave, (after (deeds ++ [.use i (.render leave)])).map Prod.fst = (after deeds).map Prod.fst) ∧
    ∀ {Memory Role : Type} (i : Nat) (v : Visitor Memory Role) (role : Role) (memory : Memory),
      (after (deeds ++ [.use i (.walk v role memory)])).map Prod.fst = (after deeds).map Prod.fst := by
  refine ⟨fun d l hmem => ?_, fun i tag program => ?_, fun i leave => ?_, fun i v role memory => ?_⟩
  · have hlife : l.Explains d := explains_after deeds (d, l) hmem
    refine ⟨hlife, fun tag => ?_, ?_, fun leave name => ?_, fun v role memory name => ?_⟩
    · rw [hlife.tags]
      exact Catalog.find?_ofRegistrations _ tag
    · rw [hlife.tags]
      exact Catalog.size_ofRegistrations _
    · rw [← hlife.name]
      exact Draft.renderWhile_eq_unparsed_iff
    · rw [← hlife.name]
      exact Draft.walk_eq_unparsed_iff
  · exact map_after_use (fun d => (d.root, d.parsed)) (.register tag program) (fun _ => rfl) deeds i
  · exact map_after_use id (.render leave) (fun _ => rfl) deeds i
  · exact map_after_use id (.walk v role memory) (fun _ => rfl) deeds i

def readTwice : List Deed :=
  [.start "t" [], .use 0 (.parse titled), .copy 0, .use 0 (.parseTokens (.silent untitled))]

theorem explained_readTwice : ∃ d l d' l', after readTwice = [(d, l), (d', l')] ∧
    d.parsed = false ∧ (∀ leave, d.renderWhile leave = .error (.unparsed "t")) ∧
      d'.parsed = true ∧ d'.root = [.block 3 "a" [] [.text 13 "x"], .text 30 "y"] := by
  obtain ⟨haccepts, hroot⟩ := accepts_titled
  have hfault : (Transcript.ofTokens .empty (Supply.silent untitled).tokens).fault ≠ none := by
    rw [Supply.tokens_silent, transcript_untitled.1]
    exact fun h => by cases h
  obtain ⟨hlives, -⟩ := explained readTwice
  obtain ⟨hd, -, -, hrender, -⟩ := hlives _ _ List.mem_cons_self
  obtain ⟨hd', -⟩ := hlives _ _ (List.mem_cons_of_mem _ List.mem_cons_self)
  obtain ⟨hagain, -⟩ := hd.read [(.parse titled, _)] (.parseTokens (.silent untitled)) _ [] rfl rfl fun _ h => by cases h
  obtain ⟨hfirst, hleft⟩ := hd'.read [] (.parse titled) _ [] rfl rfl fun _ h => by cases h
  have hparsed := Bool.eq_false_iff.2 fun h => hfault (Answer.parsed.inj (hagain.1 h))
  exact ⟨_, _, _, _, rfl, hparsed, fun leave => (hrender leave "t").2 ⟨hparsed, rfl⟩,
    hfirst.2 (congrArg Answer.parsed haccepts), hleft.trans hroot⟩

end Studio

end Stencil
