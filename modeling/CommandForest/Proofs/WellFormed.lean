import CommandForest.Completion
import CommandForest.Dispatch
import CommandForest.Labels
import CommandForest.Proofs.Planting

/-!
# CommandForest.Proofs.WellFormed

The order in which commands are added shows in their links:

* roots are the commands without a parent, in order;
* the children of a command are the commands that name it as their parent, in
  order;
* a parent is older than its children.

`Forest.WellFormed` holds of the empty forest and survives whatever a program
does to its forest (`Forest.Reachable.wellFormed`): newcomers are linked as
they are inserted, and all other operations leave every link as it is
(`Forest.SameLinks`).
-/

namespace CommandForest

/-- Where a command stands. -/
def Command.links (c : Command) : Option CommandId × List CommandId := (c.parent, c.children)

namespace Forest

/-- Parents, children and roots agree with each other. -/
structure WellFormed (f : Forest) : Prop where
  roots_sorted : f.roots.Pairwise fun i j : Nat => i < j
  mem_roots : ∀ id : Nat, id ∈ f.roots ↔ ∃ c, f.find? id = some c ∧ c.parent = none
  children_sorted : ∀ (id : Nat) (c : Command), f.find? id = some c →
    c.children.Pairwise fun i j : Nat => i < j
  mem_children : ∀ (id : Nat) (c : Command), f.find? id = some c → ∀ k : Nat,
    k ∈ c.children ↔ ∃ d, f.find? k = some d ∧ d.parent = some id
  parent_lt : ∀ (id p : Nat) (c : Command), f.find? id = some c → c.parent = some p → p < id

/-! ## Looking up -/

theorem lt_size_of_find? {f : Forest} {id : Nat} {c : Command} (h : f.find? id = some c) :
    id < f.size := by
  rcases Nat.lt_or_ge id f.size with hlt | hge
  · exact hlt
  · rw [find?_eq_none_iff.mpr hge] at h
    contradiction

theorem exists_find?_of_lt {f : Forest} {id : Nat} (h : id < f.size) :
    ∃ c, f.find? id = some c := by
  cases hc : f.find? id with
  | some c => exact ⟨c, rfl⟩
  | none => exact absurd h (Nat.not_lt.mpr (find?_eq_none_iff.mp hc))

/-- A child is younger than its parent. -/
theorem WellFormed.lt_of_mem_children {f : Forest} (hf : f.WellFormed) {id k : Nat} {c : Command}
    (hc : f.find? id = some c) (hk : k ∈ c.children) : id < k := by
  obtain ⟨d, hd, hparent⟩ := (hf.mem_children id c hc k).mp hk
  exact hf.parent_lt k id d hd hparent

/-! ## Operations that leave the links as they are -/

/-- The same commands stand in the same places. -/
def SameLinks (f g : Forest) : Prop :=
  g.roots = f.roots ∧ ∀ id, (g.find? id).map Command.links = (f.find? id).map Command.links

theorem SameLinks.refl (f : Forest) : SameLinks f f := ⟨rfl, fun _ => rfl⟩

theorem SameLinks.trans {f g h : Forest} (hfg : SameLinks f g) (hgh : SameLinks g h) :
    SameLinks f h :=
  ⟨hgh.1.trans hfg.1, fun id => (hgh.2 id).trans (hfg.2 id)⟩

theorem sameLinks_modify (f : Forest) (id : CommandId) {change : Command → Command}
    (h : ∀ c, (change c).links = c.links) : SameLinks f (f.modify id change) := by
  refine ⟨rfl, fun other => ?_⟩
  by_cases hid : other = id
  · subst hid
    rw [find?_modify_self, Option.map_map]
    congr 1
    exact funext h
  · rw [find?_modify_of_ne f change hid]

/-- Changes one after the other. -/
theorem sameLinks_foldl {α : Type} {act : Forest → α → Forest}
    (h : ∀ f a, SameLinks f (act f a)) (f : Forest) (as : List α) :
    SameLinks f (as.foldl act f) := by
  induction as generalizing f with
  | nil => exact .refl f
  | cons a as ih => exact (h f a).trans (ih (act f a))

theorem SameLinks.find? {f g : Forest} (h : SameLinks f g) {id : Nat} {d : Command}
    (hd : g.find? id = some d) :
    ∃ c, f.find? id = some c ∧ c.parent = d.parent ∧ c.children = d.children := by
  have hlinks := h.2 id
  rw [hd, Option.map_some, eq_comm, Option.map_eq_some_iff] at hlinks
  obtain ⟨c, hc, hcd⟩ := hlinks
  exact ⟨c, hc, congrArg Prod.fst hcd, congrArg Prod.snd hcd⟩

theorem SameLinks.symm {f g : Forest} (h : SameLinks f g) : SameLinks g f :=
  ⟨h.1.symm, fun id => (h.2 id).symm⟩

theorem WellFormed.of_sameLinks {f g : Forest} (hf : f.WellFormed) (h : SameLinks f g) :
    g.WellFormed where
  roots_sorted := h.1 ▸ hf.roots_sorted
  mem_roots id := by
    rw [h.1, hf.mem_roots]
    constructor
    · rintro ⟨c, hc, hparent⟩
      obtain ⟨d, hd, hp, -⟩ := h.symm.find? hc
      exact ⟨d, hd, hp.trans hparent⟩
    · rintro ⟨d, hd, hparent⟩
      obtain ⟨c, hc, hp, -⟩ := h.find? hd
      exact ⟨c, hc, hp.trans hparent⟩
  children_sorted id d hd := by
    obtain ⟨c, hc, -, hchildren⟩ := h.find? hd
    exact hchildren ▸ hf.children_sorted id c hc
  mem_children id d hd k := by
    obtain ⟨c, hc, -, hchildren⟩ := h.find? hd
    rw [← hchildren, hf.mem_children id c hc k]
    constructor
    · rintro ⟨e, he, hparent⟩
      obtain ⟨e', he', hp, -⟩ := h.symm.find? he
      exact ⟨e', he', hp.trans hparent⟩
    · rintro ⟨e, he, hparent⟩
      obtain ⟨e', he', hp, -⟩ := h.find? he
      exact ⟨e', he', hp.trans hparent⟩
  parent_lt id p d hd hparent := by
    obtain ⟨c, hc, hp, -⟩ := h.find? hd
    exact hf.parent_lt id p c hc (hp.trans hparent)

theorem sameLinks_settle (f : Forest) (log : List Event) : SameLinks f (f.settle log) := by
  refine sameLinks_foldl (fun f e => ?_) f log
  cases e with
  | settled id positions => exact sameLinks_modify f id fun _ => rfl
  | _ => exact .refl f

theorem sameLinks_execute (f : Forest) (id : CommandId) (sender : Sender) (tokens : List String) :
    SameLinks f (f.execute id sender tokens).forest := by
  rw [execute]
  split
  · exact .refl f
  · exact sameLinks_settle f _

theorem sameLinks_complete (f : Forest) (id : CommandId) (sender : Sender)
    (tokens : List String) : SameLinks f (f.complete id sender tokens).2 := by
  rw [complete]
  split
  · exact .refl f
  · exact sameLinks_settle f _

theorem sameLinks_help (f : Forest) (id : CommandId) (sender : Sender) :
    SameLinks f (f.help id sender).2 := by
  rw [help]
  split
  · exact .refl f
  · exact sameLinks_settle f _

theorem sameLinks_helpLines (f : Forest) (id : CommandId) (sender : Sender) :
    SameLinks f (f.helpLines id sender).2 := by
  rw [helpLines]
  split
  · exact .refl f
  · exact sameLinks_settle f _

theorem sameLinks_of_provide {f g : Forest} {id : CommandId} {p : Provider}
    (h : f.provide id p = .ok g) : SameLinks f g := by
  rw [provide] at h
  split at h
  · cases h
    refine sameLinks_foldl (fun f id => ?_) f _
    exact sameLinks_modify f id fun _ => rfl
  · contradiction

theorem sameLinks_of_bind {f g : Forest} {id : CommandId} {handlers : Handlers}
    {reports : List Diagnostic} (h : f.bind id handlers = .ok (g, reports)) : SameLinks f g := by
  rw [bind] at h
  split at h
  · cases h
    refine sameLinks_foldl (fun f id => sameLinks_modify f id fun c => ?_) f _
    simp only [Command.bind]
    split <;> rfl
  · contradiction

theorem sameLinks_of_register {f : Forest} {labels : Labels} {root : CommandId}
    {qualifier : String} {handlers : Handlers} {r : Registration}
    (h : f.register labels root qualifier handlers = .ok r) : SameLinks f r.forest := by
  rw [register] at h
  cases hbind : f.bind root handlers with
  | error e => rw [hbind] at h; contradiction
  | ok answer =>
      obtain ⟨bound, reports⟩ := answer
      rw [hbind] at h
      dsimp only at h
      split at h
      · contradiction
      · cases h
        exact sameLinks_of_bind hbind

theorem sameLinks_of_registerEach {f : Forest} {labels : Labels} {qualifier : String}
    {handlers : Handlers} {ids : List CommandId} {r : Registration}
    (h : f.registerEach labels qualifier handlers ids = .ok r) : SameLinks f r.forest := by
  induction ids generalizing f labels r with
  | nil => cases h; exact .refl f
  | cons root rest ih =>
      rw [registerEach] at h
      cases hfirst : f.register labels root qualifier handlers with
      | error e => rw [hfirst] at h; contradiction
      | ok first =>
          rw [hfirst] at h
          dsimp only at h
          cases hrest : first.forest.registerEach first.labels qualifier handlers rest with
          | error e => rw [hrest] at h; contradiction
          | ok later =>
              rw [hrest] at h
              cases h
              exact (sameLinks_of_register hfirst).trans (ih (r := later) hrest)

/-! ## Inserting and planting -/

/-- The forest after an insertion: the newcomer has the size before as its
number, and its parent lists it last. -/
theorem find?_insert (f : Forest) (c : Command) {parent : Option CommandId}
    (h : ∀ p : Nat, parent = some p → p < f.size) (id : Nat) :
    (f.insert c parent).find? id =
      if id = f.size then some { c with parent := parent, children := [] }
      else (f.find? id).map fun d =>
        if parent = some id then { d with children := d.children ++ [f.size] } else d := by
  by_cases hid : id = f.size
  · subst hid
    rw [if_pos rfl]
    refine find?_insert_size f c parent fun heq => ?_
    exact absurd (h _ heq) (Nat.lt_irrefl _)
  · rw [if_neg hid]
    have hpush : ∀ newcomer : Command,
        ({ f with commands := f.commands.push newcomer } : Forest).find? id = f.find? id := by
      intro newcomer
      simp only [find?, Array.getElem?_push]
      exact if_neg hid
    cases parent with
    | none =>
        rw [insert, link]
        exact (hpush _).trans (by simp)
    | some p =>
        rw [insert, link]
        by_cases hp : id = p
        · subst hp
          rw [find?_modify_self, hpush]
          simp
        · rw [find?_modify_of_ne _ _ hp, hpush]
          simp [Ne.symm hp]

/-- Roots after an insertion. -/
theorem roots_insert (f : Forest) (c : Command) (parent : Option CommandId) :
    (f.insert c parent).roots = if parent = none then f.roots ++ [f.size] else f.roots := by
  cases parent <;> simp [insert, link, modify]

section

variable {f : Forest} (c : Command) {parent : Option CommandId}
  (h : ∀ p : Nat, parent = some p → p < f.size)

include h

theorem find?_insert_newcomer :
    (f.insert c parent).find? f.size = some { c with parent := parent, children := [] } := by
  rw [find?_insert f c h, if_pos rfl]

/-- An old command keeps its parent, and its children but for the newcomer. -/
theorem exists_of_find?_insert {id : Nat} {d : Command}
    (hd : (f.insert c parent).find? id = some d) (hid : id ≠ f.size) :
    ∃ e, f.find? id = some e ∧ d.parent = e.parent ∧
      d.children = if parent = some id then e.children ++ [f.size] else e.children := by
  rw [find?_insert f c h, if_neg hid] at hd
  obtain ⟨e, he, rfl⟩ := Option.map_eq_some_iff.mp hd
  refine ⟨e, he, ?_, ?_⟩ <;> split <;> rfl

theorem exists_find?_insert {id : Nat} {e : Command} (he : f.find? id = some e) :
    ∃ d, (f.insert c parent).find? id = some d ∧ d.parent = e.parent := by
  have hid : id ≠ f.size := Nat.ne_of_lt (lt_size_of_find? he)
  rw [find?_insert f c h, if_neg hid, he]
  refine ⟨_, rfl, ?_⟩
  dsimp only
  split <;> rfl

/-- The commands with a parent, or without one, are the old ones and perhaps
the newcomer. -/
theorem exists_parent_insert_iff (p : Option CommandId) (k : Nat) :
    (∃ d, (f.insert c parent).find? k = some d ∧ d.parent = p) ↔
      (∃ d, f.find? k = some d ∧ d.parent = p) ∨ (k = f.size ∧ parent = p) := by
  constructor
  · rintro ⟨d, hd, hparent⟩
    by_cases hk : k = f.size
    · subst hk
      rw [find?_insert_newcomer c h] at hd
      cases hd
      exact .inr ⟨rfl, hparent⟩
    · obtain ⟨e, he, hp, -⟩ := exists_of_find?_insert c h hd hk
      exact .inl ⟨e, he, hp ▸ hparent⟩
  · rintro (⟨e, he, hparent⟩ | ⟨rfl, hparent⟩)
    · obtain ⟨d, hd, hp⟩ := exists_find?_insert c h he
      exact ⟨d, hd, hp.trans hparent⟩
    · exact ⟨_, find?_insert_newcomer c h, hparent⟩

end

/-- Numbers of old commands with the size put behind them are in order. -/
theorem pairwise_append_size {f : Forest} {ids : List CommandId}
    (hids : ids.Pairwise fun i j : Nat => i < j) (hold : ∀ i ∈ ids, ∃ e, f.find? i = some e) :
    (ids ++ [f.size]).Pairwise fun i j : Nat => i < j := by
  refine List.pairwise_append.mpr ⟨hids, List.pairwise_singleton _ _, ?_⟩
  intro i hi j hj
  obtain ⟨e, he⟩ := hold i hi
  rw [List.mem_singleton.mp hj]
  exact lt_size_of_find? he

/-- **Insertion** keeps a forest well-formed. -/
theorem WellFormed.insert {f : Forest} (hf : f.WellFormed) (c : Command)
    {parent : Option CommandId} (h : ∀ p : Nat, parent = some p → p < f.size) :
    (f.insert c parent).WellFormed where
  roots_sorted := by
    rw [roots_insert]
    split
    · refine pairwise_append_size hf.roots_sorted fun i hi => ?_
      obtain ⟨e, he, -⟩ := (hf.mem_roots i).mp hi
      exact ⟨e, he⟩
    · exact hf.roots_sorted
  mem_roots id := by
    rw [exists_parent_insert_iff c h, ← hf.mem_roots, roots_insert]
    split <;> simp_all
  children_sorted id d hd := by
    by_cases hid : id = f.size
    · subst hid
      rw [find?_insert_newcomer c h] at hd
      cases hd
      exact List.Pairwise.nil
    · obtain ⟨e, he, -, hchildren⟩ := exists_of_find?_insert c h hd hid
      rw [hchildren]
      split
      · refine pairwise_append_size (hf.children_sorted id e he) fun i hi => ?_
        obtain ⟨k, hk, -⟩ := (hf.mem_children id e he i).mp hi
        exact ⟨k, hk⟩
      · exact hf.children_sorted id e he
  mem_children id d hd k := by
    rw [exists_parent_insert_iff c h]
    by_cases hid : id = f.size
    · -- nobody has the newcomer as a parent yet
      subst hid
      rw [find?_insert_newcomer c h] at hd
      cases hd
      refine ⟨fun hk => absurd hk List.not_mem_nil, ?_⟩
      rintro (⟨e, he, hparent⟩ | ⟨-, hparent⟩)
      · have hlt := hf.parent_lt k f.size e he hparent
        have := lt_size_of_find? he
        omega
      · exact absurd (h _ hparent) (Nat.lt_irrefl _)
    · obtain ⟨e, he, -, hchildren⟩ := exists_of_find?_insert c h hd hid
      rw [hchildren, ← hf.mem_children id e he k]
      split <;> simp_all
  parent_lt id p d hd hparent := by
    by_cases hid : id = f.size
    · subst hid
      rw [find?_insert_newcomer c h] at hd
      cases hd
      exact h p hparent
    · obtain ⟨e, he, hp, -⟩ := exists_of_find?_insert c h hd hid
      exact hf.parent_lt id p e he (hp ▸ hparent)

theorem wellFormed_empty : ({} : Forest).WellFormed := by
  have hnone : ∀ id : Nat, ({} : Forest).find? id = none := fun _ => rfl
  refine ⟨List.Pairwise.nil, ?_, ?_, ?_, ?_⟩ <;> simp [hnone]

mutual

theorem WellFormed.plant {f : Forest} (hf : f.WellFormed) (parent : Option CommandId)
    (h : ∀ p : Nat, parent = some p → p < f.size) : (d : Declaration) →
    (f.plant parent d).WellFormed
  | .mk c ds => by
      rw [Forest.plant]
      refine (hf.insert c h).plantAll (some f.size) ?_ ds
      intro p hp
      cases hp
      rw [size_insert]
      omega

theorem WellFormed.plantAll {f : Forest} (hf : f.WellFormed) (parent : Option CommandId)
    (h : ∀ p : Nat, parent = some p → p < f.size) : (ds : List Declaration) →
    (f.plantAll parent ds).WellFormed
  | [] => hf
  | d :: ds => by
      rw [Forest.plantAll]
      refine (hf.plant parent h d).plantAll parent ?_ ds
      intro p hp
      rw [plant_eq f parent h d, size_extend, size_adopt]
      have := h p hp
      omega

end

theorem WellFormed.of_load {f g : Forest} (hf : f.WellFormed) {source : String}
    {ids : List CommandId} {report : Option Diagnostic} (h : f.load source = .ok (ids, g, report)) :
    g.WellFormed := by
  rw [load] at h
  cases hread : Definition.read source with
  | error e => rw [hread] at h; contradiction
  | ok d =>
      rw [hread] at h
      cases h
      rw [plantRoots_eq]
      exact hf.plantAll none (by simp) d.commands

/-! ## Reachable forests -/

/-- What a program can do to its forest.  A command that is appended can be
any, also a copy of one in a forest, with the links it had there. -/
inductive Operation
  | load (source : String)
  | appendRoot (c : Command)
  | appendUnder (parent : CommandId) (c : Command)
  | provide (id : CommandId) (p : Provider)
  | bind (id : CommandId) (handlers : Handlers)
  | register (labels : Labels) (root : CommandId) (qualifier : String) (handlers : Handlers)
  | registerRoots (labels : Labels) (qualifier : String) (handlers : Handlers)
  | setMessages (m : Messages)
  | execute (id : CommandId) (sender : Sender) (tokens : List String)
  | complete (id : CommandId) (sender : Sender) (tokens : List String)
  | help (id : CommandId) (sender : Sender)
  | helpLines (id : CommandId) (sender : Sender)

/-- The forest after an operation.  One that fails changes nothing. -/
def perform (f : Forest) : Operation → Forest
  | .load source => match f.load source with
    | .ok (_, g, _) => g
    | .error _ => f
  | .appendRoot c => (f.appendRoot c).2
  | .appendUnder parent c => match f.appendUnder parent c with
    | .ok (_, g) => g
    | .error _ => f
  | .provide id p => match f.provide id p with
    | .ok g => g
    | .error _ => f
  | .bind id handlers => match f.bind id handlers with
    | .ok (g, _) => g
    | .error _ => f
  | .register labels root qualifier handlers => match f.register labels root qualifier handlers with
    | .ok r => r.forest
    | .error _ => f
  | .registerRoots labels qualifier handlers => match f.registerRoots labels qualifier handlers with
    | .ok r => r.forest
    | .error _ => f
  | .setMessages m => { f with messages := m }
  | .execute id sender tokens => (f.execute id sender tokens).forest
  | .complete id sender tokens => (f.complete id sender tokens).2
  | .help id sender => (f.help id sender).2
  | .helpLines id sender => (f.helpLines id sender).2

/-- The forests that a program can have. -/
inductive Reachable : Forest → Prop
  | empty : Reachable {}
  | after {f : Forest} (op : Operation) : Reachable f → Reachable (f.perform op)

/-- One operation keeps a forest well-formed. -/
theorem WellFormed.perform {f : Forest} (hf : f.WellFormed) (op : Operation) :
    (f.perform op).WellFormed := by
  cases op with
  | load source =>
      rw [Forest.perform]
      split
      · next h => exact hf.of_load h
      · exact hf
  | appendRoot c =>
      show (f.insert c none).WellFormed
      exact hf.insert c (by simp)
  | appendUnder parent c =>
      rw [Forest.perform, Forest.appendUnder]
      by_cases hp : f.has parent = true
      · rw [if_pos hp]
        obtain ⟨d, hd⟩ := has_iff.mp hp
        refine hf.insert c fun p hparent => ?_
        cases hparent
        exact lt_size_of_find? hd
      · rw [if_neg hp]
        exact hf
  | provide id p =>
      rw [Forest.perform]
      split
      · next h => exact hf.of_sameLinks (sameLinks_of_provide h)
      · exact hf
  | bind id handlers =>
      rw [Forest.perform]
      split
      · next h => exact hf.of_sameLinks (sameLinks_of_bind h)
      · exact hf
  | register labels root qualifier handlers =>
      rw [Forest.perform]
      split
      · next h => exact hf.of_sameLinks (sameLinks_of_register h)
      · exact hf
  | registerRoots labels qualifier handlers =>
      rw [Forest.perform]
      split
      · next h => exact hf.of_sameLinks (sameLinks_of_registerEach h)
      · exact hf
  | setMessages m => exact hf.of_sameLinks ⟨rfl, fun _ => rfl⟩
  | execute id sender tokens => exact hf.of_sameLinks (sameLinks_execute f id sender tokens)
  | complete id sender tokens => exact hf.of_sameLinks (sameLinks_complete f id sender tokens)
  | help id sender => exact hf.of_sameLinks (sameLinks_help f id sender)
  | helpLines id sender => exact hf.of_sameLinks (sameLinks_helpLines f id sender)

/-- **Well-formedness** of all forests that a program can have. -/
theorem Reachable.wellFormed {f : Forest} (h : f.Reachable) : f.WellFormed := by
  induction h with
  | empty => exact wellFormed_empty
  | after op _ ih => exact ih.perform op

end Forest

end CommandForest
