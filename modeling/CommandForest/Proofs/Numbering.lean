import CommandForest.Outline
import CommandForest.Proofs.Action
import CommandForest.Proofs.Change
import Mathlib.Data.List.Infix

/-!
# CommandForest.Proofs.Numbering

The numbers that a forest stores, and those that it is asked for:

* every list of children, and that of the roots, is in order and holds only
  numbers of commands, each in the one list where it belongs
  (`Forest.Numbered`);
* a command keeps its number, its parent and its place in the list whatever is
  done to the forest (`Forest.GrowsTo`);
* no walk meets a number that names no command (`Forest.FindsAll`).

The walks skip a command that is not found.  That they never have to is stated
with a second form of each, ending in `Strictly`, which fails there.
-/

namespace CommandForest

namespace Forest

/-! ## Lists of numbers -/

/-- The roots and the lists of children agree with the parents and hold every
number once. -/
structure Numbered (f : Forest) : Prop where
  root_lt : ∀ r ∈ f.roots, r < f.size
  child_lt : ∀ id c, f.find? id = some c → ∀ k ∈ c.children, k < f.size
  roots_sorted : f.roots.Pairwise fun i j : Nat => i < j
  children_sorted : ∀ id c, f.find? id = some c → c.children.Pairwise fun i j : Nat => i < j
  mem_roots_iff : ∀ id, id ∈ f.roots ↔ ∃ c, f.find? id = some c ∧ c.parent = none
  parent_lt : ∀ (id p : Nat) (c : Command), f.find? id = some c → c.parent = some p → p < id
  count_children : ∀ id c p, f.find? id = some c → c.parent = some p →
    ∀ q d, f.find? q = some d → d.children.count id = if q = p then 1 else 0
  subtrees : (f.roots.flatMap f.descendants).Perm (List.range f.size)

theorem WellFormed.numbered {f : Forest} (hf : f.WellFormed) : f.Numbered where
  root_lt r hr := by
    obtain ⟨c, hc, -⟩ := (hf.mem_roots r).mp hr
    exact lt_size_of_find? hc
  child_lt id c hc k hk := by
    obtain ⟨d, hd, -⟩ := (hf.mem_children id c hc k).mp hk
    exact lt_size_of_find? hd
  roots_sorted := hf.roots_sorted
  children_sorted := hf.children_sorted
  mem_roots_iff := hf.mem_roots
  parent_lt := hf.parent_lt
  count_children id c p hc hparent q d hd := by
    have hnodup : d.children.Nodup := (hf.children_sorted q d hd).imp Nat.ne_of_lt
    have hmem : id ∈ d.children ↔ q = p := by
      rw [hf.mem_children q d hd id]
      constructor
      · rintro ⟨e, he, hq⟩
        cases hc.symm.trans he
        exact Option.some.inj (hq.symm.trans hparent)
      · rintro rfl
        exact ⟨c, hc, hparent⟩
    rw [hnodup.count]
    simp only [hmem]
  subtrees := hf.perm_range

/-! ## Commands that stay -/

/-- The roots stay in front, and every command keeps its number, its parent
and the places of its children. -/
structure GrowsTo (f g : Forest) : Prop where
  roots : f.roots <+: g.roots
  kept : ∀ id c, f.find? id = some c →
    ∃ d, g.find? id = some d ∧ d.parent = c.parent ∧ c.children <+: d.children

theorem GrowsTo.refl (f : Forest) : f.GrowsTo f :=
  ⟨List.prefix_refl _, fun _ c hc => ⟨c, hc, rfl, List.prefix_refl _⟩⟩

theorem GrowsTo.trans {f g h : Forest} (hfg : f.GrowsTo g) (hgh : g.GrowsTo h) : f.GrowsTo h := by
  refine ⟨hfg.roots.trans hgh.roots, fun id c hc => ?_⟩
  obtain ⟨d, hd, hparent, hchildren⟩ := hfg.kept id c hc
  obtain ⟨e, he, hparent', hchildren'⟩ := hgh.kept id d hd
  exact ⟨e, he, hparent'.trans hparent, hchildren.trans hchildren'⟩

theorem roots_insert_prefix (f : Forest) (c : Command) (parent : Option CommandId) :
    f.roots <+: (f.insert c parent).roots := by
  rw [roots_insert]
  split
  · exact List.prefix_append _ _
  · exact List.prefix_refl _

/-- New roots are listed behind the old ones. -/
theorem roots_perform_prefix (f : Forest) (op : Operation) : f.roots <+: (f.perform op).roots := by
  cases hadds : op.adds with
  | false => rw [(sameLinks_perform f hadds).1]
  | true =>
      cases op with
      | load source =>
          rcases f.perform_load_cases source with ⟨d, -, hload⟩ | hload
          · rw [hload, plantAll_eq f none (by simp)]
            exact List.prefix_append _ _
          · rw [hload]
      | appendRoot c => exact f.roots_insert_prefix c none
      | appendUnder parent c =>
          rw [perform, appendUnder]
          by_cases hp : f.has parent = true
          · rw [if_pos hp]
            exact f.roots_insert_prefix c (some parent)
          · rw [if_neg hp]
      | provide | bind | register | registerRoots | setMessages | execute | complete | help
      | helpLines => contradiction

/-- **One operation** leaves every command in its place. -/
theorem WellFormed.growsTo_perform {f : Forest} (hf : f.WellFormed) (op : Operation) :
    f.GrowsTo (f.perform op) := by
  refine ⟨f.roots_perform_prefix op, fun id c hc => ?_⟩
  obtain ⟨d, hd, hbecomes⟩ := hf.becomes_perform op hc
  have hparent : d.parent = c.parent := by rw [hbecomes.rest]
  exact ⟨d, hd, hparent, hbecomes.children⟩

/-- **A run** leaves every command in its place. -/
theorem WellFormed.growsTo_run {f : Forest} (hf : f.WellFormed) (ops : List Operation) :
    f.GrowsTo (f.run ops) := by
  induction ops generalizing f with
  | nil => exact .refl f
  | cons op ops ih => exact (hf.growsTo_perform op).trans (ih (hf.perform op))

/-! ## Walks that fail at a missing command -/

/-- Unfolds a command, and fails at a number that names none. -/
def unfoldStrictly (f : Forest) : Nat → CommandId → Option Branch
  | 0, _ => none
  | fuel + 1, id =>
    match f.find? id with
    | none => none
    | some c => (c.children.mapM (f.unfoldStrictly fuel)).map fun bs => .mk id c bs

/-- Lists pending commands with everything below them, and fails at a number
that names none. -/
def preorderStrictly (f : Forest) : Nat → List CommandId → Option (List CommandId)
  | _, [] => some []
  | 0, _ :: _ => none
  | fuel + 1, id :: pending =>
    match f.find? id with
    | none => none
    | some c => (f.preorderStrictly fuel (c.children ++ pending)).map fun ids => id :: ids

/-- Changes commands one after the other, and fails at a number that names
none. -/
def modifyStrictly (change : Command → Command) : Forest → List CommandId → Option Forest
  | f, [] => some f
  | f, id :: ids => if f.has id then modifyStrictly change (f.modify id change) ids else none

/-- Appends a command, and fails at a parent that is not there. -/
def insertStrictly (f : Forest) (c : Command) (parent : Option CommandId) : Option Forest :=
  if parent.all f.has then some (f.insert c parent) else none

mutual

/-- Appends a declared command and those inside it, and fails at a parent that
is not there. -/
def plantStrictly (parent : Option CommandId) (f : Forest) : Declaration → Option Forest
  | .mk c ds => (f.insertStrictly c parent).bind fun g => plantAllStrictly (some f.size) g ds

/-- Appends declared commands one after the other. -/
def plantAllStrictly (parent : Option CommandId) (f : Forest) : List Declaration → Option Forest
  | [] => some f
  | d :: ds => (plantStrictly parent f d).bind fun g => plantAllStrictly parent g ds

end

/-- A map that succeeds everywhere. -/
theorem mapM_eq_some_of_map_eq {α β : Type} {g : α → Option β} {as : List α} {bs : List β}
    (h : as.map g = bs.map some) : as.mapM g = some bs := by
  induction as generalizing bs with
  | nil =>
      obtain rfl : bs = [] := List.map_eq_nil_iff.mp h.symm
      rfl
  | cons a as ih =>
      obtain ⟨b, bs, rfl, ha, has⟩ := List.map_eq_cons_iff.mp h.symm
      rw [List.mapM_cons, ← ha, ih has.symm]
      rfl

/-- **Unfolding** never meets a missing command. -/
theorem WellFormed.unfoldStrictly_eq {f : Forest} (hf : f.WellFormed) {fuel id : Nat}
    (hid : id < f.size) (hfuel : f.size - id ≤ fuel) :
    f.unfoldStrictly fuel id = f.branch? id := by
  induction fuel generalizing id with
  | zero => omega
  | succ fuel ih =>
      obtain ⟨c, hc⟩ := exists_find?_of_lt hid
      have hknown : ∀ k ∈ c.children, ∃ d, f.find? k = some d :=
        fun _ => hf.exists_find?_of_mem_children hc
      have hbelow : c.children.map (f.unfoldStrictly fuel) = c.children.map f.branch? := by
        refine List.map_congr_left fun k hk => ?_
        obtain ⟨d, hd⟩ := hknown k hk
        have hlt := hf.lt_of_mem_children hc hk
        exact ih (lt_size_of_find? hd) (by omega)
      rw [unfoldStrictly, hc, hf.branch?_eq, hc]
      dsimp only
      rw [mapM_eq_some_of_map_eq (hbelow.trans (hf.map_branch? hknown))]
      rfl

/-- With enough fuel, the list of pending commands never meets a missing one. -/
theorem WellFormed.preorderStrictly_eq {f : Forest} (hf : f.WellFormed) {fuel : Nat}
    {pending : List CommandId} (hpending : ∀ id ∈ pending, ∃ c, f.find? id = some c)
    (hfuel : (pending.flatMap f.descendants).length ≤ fuel) :
    f.preorderStrictly fuel pending = some (pending.flatMap f.descendants) := by
  induction fuel generalizing pending with
  | zero =>
      cases pending with
      | nil => rfl
      | cons id pending =>
          have hself : id ∈ (id :: pending).flatMap f.descendants :=
            List.mem_flatMap.mpr ⟨id, List.mem_cons_self,
              hf.mem_descendants_iff.mpr ⟨hpending id List.mem_cons_self, .refl f id⟩⟩
          rw [List.eq_nil_of_length_eq_zero (Nat.le_zero.mp hfuel)] at hself
          contradiction
  | succ fuel ih =>
      cases pending with
      | nil => rfl
      | cons id pending =>
          obtain ⟨⟨c, hc⟩, hlater⟩ := List.forall_mem_cons.mp hpending
          have hchildren : ∀ k ∈ c.children, ∃ d, f.find? k = some d :=
            fun _ => hf.exists_find?_of_mem_children hc
          have hown := hf.descendants_eq_cons hc
          have hknown : ∀ k ∈ c.children ++ pending, ∃ d, f.find? k = some d :=
            fun k hk => (List.mem_append.mp hk).elim (hchildren k) (hlater k)
          have hless : ((c.children ++ pending).flatMap f.descendants).length ≤ fuel := by
            rw [List.flatMap_cons, hown, List.cons_append, List.length_cons] at hfuel
            rw [List.flatMap_append]
            omega
          rw [preorderStrictly, hc]
          dsimp only
          rw [ih hknown hless, List.flatMap_cons, hown, List.flatMap_append]
          rfl

/-- **The list of a subtree** never meets a missing command. -/
theorem WellFormed.preorderStrictly_descendants {f : Forest} (hf : f.WellFormed) {id : CommandId}
    (hid : id < f.size) : f.preorderStrictly f.size [id] = some (f.descendants id) := by
  obtain ⟨c, hc⟩ := exists_find?_of_lt hid
  obtain ⟨bs, hb, hholds⟩ := hf.exists_branch hc
  have hone : [id].flatMap f.descendants = f.descendants id := by simp
  have hlength : ([id].flatMap f.descendants).length ≤ f.size := by
    rw [hone, hf.descendants_eq hb]
    exact hholds.length_ids_le hf
  rw [hf.preorderStrictly_eq (by simp [hc]) hlength, hone]

/-- **Changes along a list** of known numbers never meet a missing command. -/
theorem modifyStrictly_eq (change : Command → Command) {f : Forest} {ids : List CommandId}
    (h : ∀ id ∈ ids, id < f.size) :
    f.modifyStrictly change ids = some (ids.foldl (fun g id => g.modify id change) f) := by
  induction ids generalizing f with
  | nil => rfl
  | cons id ids ih =>
      obtain ⟨hid, hlater⟩ := List.forall_mem_cons.mp h
      have hhas : f.has id = true := by simpa [has] using hid
      rw [modifyStrictly, if_pos hhas, List.foldl_cons]
      exact ih (by simpa using hlater)

/-! ## Planting -/

theorem insertStrictly_eq {f : Forest} (c : Command) {parent : Option CommandId}
    (h : ∀ p : Nat, parent = some p → p < f.size) :
    f.insertStrictly c parent = some (f.insert c parent) := by
  have hall : parent.all f.has = true := by
    cases parent with
    | none => rfl
    | some p => simpa [has] using h p rfl
  rw [insertStrictly, if_pos hall]

mutual

theorem plantStrictly_eq (f : Forest) (parent : Option CommandId)
    (h : ∀ p : Nat, parent = some p → p < f.size) : (d : Declaration) →
    f.plantStrictly parent d = some (f.plant parent d)
  | .mk c ds => by
      have hbelow : ∀ p : Nat, some f.size = some p → p < (f.insert c parent).size := by
        intro p hp
        cases hp
        rw [size_insert]
        omega
      rw [plantStrictly, insertStrictly_eq c h, Option.bind_some,
        plantAllStrictly_eq (f.insert c parent) (some f.size) hbelow ds, plant]

/-- **Planting** never links to a missing parent. -/
theorem plantAllStrictly_eq (f : Forest) (parent : Option CommandId)
    (h : ∀ p : Nat, parent = some p → p < f.size) : (ds : List Declaration) →
    f.plantAllStrictly parent ds = some (f.plantAll parent ds)
  | [] => rfl
  | d :: ds => by
      have hlater : ∀ p : Nat, parent = some p → p < (f.plant parent d).size := by
        intro p hp
        rw [plant_eq f parent h d, size_extend, size_adopt]
        have := h p hp
        omega
      rw [plantAllStrictly, plantStrictly_eq f parent h d, Option.bind_some,
        plantAllStrictly_eq (f.plant parent d) parent hlater ds, plantAll]

end

/-! ## Any number -/

/-- Nothing is found under a number beyond the size, and nothing changes. -/
structure IgnoresUnknown (f : Forest) (id : CommandId) : Prop where
  branch : f.branch? id = none
  outline : f.outline? id = none
  shownName : f.shownName id = none
  descendants : f.descendants id = []
  appendUnder : ∀ c, f.appendUnder id c = .error ⟨id⟩
  provide : ∀ p, f.provide id p = .error ⟨id⟩
  bind : ∀ handlers, f.bind id handlers = .error ⟨id⟩
  register : ∀ labels qualifier handlers, f.register labels id qualifier handlers = .error ⟨id⟩
  execute : ∀ sender tokens,
    f.execute id sender tokens = { handled := false, log := [.unknown id], forest := f }
  complete : ∀ sender tokens, f.complete id sender tokens = (none, f)
  help : ∀ sender, f.help id sender = (none, f)
  helpLines : ∀ sender, f.helpLines id sender = ([], f)

theorem WellFormed.ignoresUnknown {f : Forest} (hf : f.WellFormed) {id : CommandId}
    (h : f.size ≤ id) : f.IgnoresUnknown id := by
  have hnone : f.find? id = none := find?_eq_none_iff.mpr h
  have hnot : ¬ f.has id = true := by simp [has, Nat.not_lt.mpr h]
  have hbranch : f.branch? id = none := by rw [hf.branch?_eq, hnone, Option.map_none]
  have hbind : ∀ handlers, f.bind id handlers = .error ⟨id⟩ := fun _ => if_neg hnot
  constructor
  case branch => exact hbranch
  case outline => rw [outline?, hbranch, Option.map_none]
  case shownName =>
      rw [shownName]
      cases f.size with
      | zero => rfl
      | succ n => rw [shownNameFrom, hnone]
  case descendants => exact descendants_eq_nil hnone
  case appendUnder => exact fun _ => if_neg hnot
  case provide => exact fun _ => if_neg hnot
  case bind => exact hbind
  case register => exact fun _ _ handlers => by rw [register, hbind]
  case execute => exact fun _ _ => by rw [execute, hbranch]
  case complete => exact fun _ _ => by rw [complete, hbranch]
  case help => exact fun _ => by rw [help, hbranch]
  case helpLines => exact fun _ => by rw [helpLines, hbranch]

/-- Whatever number a walk starts from, it finds every command that it looks
up. -/
structure FindsAll (f : Forest) : Prop where
  unfold : ∀ id < f.size, ∃ b, f.unfoldStrictly f.size id = some b ∧ f.branch? id = some b
  branch_lt : ∀ id b, f.branch? id = some b → ∀ n ∈ b.ids, n < f.size
  preorder : ∀ id < f.size, f.preorderStrictly f.size [id] = some (f.descendants id)
  modify : ∀ id change, f.modifyStrictly change (f.descendants id) =
    some ((f.descendants id).foldl (fun g n => g.modify n change) f)
  shownName : ∀ id < f.size, ∃ name, f.shownName id = some name
  plantAll : ∀ ds, f.plantAllStrictly none ds = some (f.plantAll none ds)
  register : ∀ labels qualifier handlers, ∀ id < f.size,
    ∃ r, f.register labels id qualifier handlers = .ok r
  registerRoots : ∀ labels qualifier handlers,
    ∃ r, f.registerRoots labels qualifier handlers = .ok r
  unknown : ∀ id, f.size ≤ id → f.IgnoresUnknown id

theorem WellFormed.findsAll {f : Forest} (hf : f.WellFormed) : f.FindsAll where
  unfold id hid := by
    obtain ⟨c, hc⟩ := exists_find?_of_lt hid
    obtain ⟨bs, hb, -⟩ := hf.exists_branch hc
    exact ⟨_, (hf.unfoldStrictly_eq hid (Nat.sub_le _ _)).trans hb, hb⟩
  branch_lt id b hb n hn := by
    obtain ⟨-, c, hc⟩ := (hf.mem_ids_iff hb).mp hn
    exact lt_size_of_find? hc
  preorder _ hid := hf.preorderStrictly_descendants hid
  modify id change := by
    refine modifyStrictly_eq change fun n hn => ?_
    obtain ⟨c, hc⟩ := hf.exists_find?_of_mem_descendants hn
    exact lt_size_of_find? hc
  shownName id hid := by
    obtain ⟨c, hc⟩ := exists_find?_of_lt hid
    exact hf.exists_shownName hc
  plantAll ds := plantAllStrictly_eq f none (by simp) ds
  register labels qualifier handlers _ hid :=
    exists_register labels qualifier handlers (has_iff.mpr (exists_find?_of_lt hid))
  registerRoots labels qualifier handlers :=
    exists_registerEach labels qualifier handlers fun _ hid =>
      has_iff.mpr (hf.exists_find?_of_mem_roots hid)
  unknown _ := hf.ignoresUnknown

/-- **Numbers in whole runs**: in every forest that a program can have, roots
and lists of children hold exactly the numbers that belong there, the subtrees
of the roots make up the forest, every walk finds what it looks up, and no
later run moves a command. -/
theorem numbered_of_reachable {f : Forest} (hf : f.Reachable) :
    f.Numbered ∧ f.FindsAll ∧ ∀ ops, f.GrowsTo (f.run ops) :=
  ⟨hf.wellFormed.numbered, hf.wellFormed.findsAll, hf.wellFormed.growsTo_run⟩

/-- A root, a copy below it that brings links from elsewhere, and one that is
refused. -/
def grafted : Forest :=
  ({} : Forest).run [.appendRoot { aliases := ["kit"] },
    .appendUnder 0 { aliases := ["claim"], children := [0, 7], parent := some 3 },
    .appendUnder 7 { aliases := ["claim"] }]

/-- The copy stands where it was put. -/
theorem numbered_grafted :
    grafted.Reachable ∧ (grafted.find? 1).map Command.links = some (some 0, []) ∧
    (grafted.roots.flatMap grafted.descendants).Perm [0, 1] ∧ grafted.IgnoresUnknown 7 := by
  have hreachable : grafted.Reachable := Reachable.empty.run _
  have hsize : grafted.size = 2 := by rfl
  obtain ⟨hnumbered, hfinds, -⟩ := numbered_of_reachable hreachable
  exact ⟨hreachable, by rfl, hnumbered.subtrees, hfinds.unknown 7 (by omega)⟩

end Forest

end CommandForest
