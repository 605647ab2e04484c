import CommandForest.Proofs.Subtree
import Mathlib.Data.List.Perm.Subperm

/-!
# CommandForest.Proofs.Preorder

The list of a subtree.  `Forest.descendants` works through a list of pending
commands with fuel; in a well-formed forest it lists the numbers in the branch
of the command (`WellFormed.descendants_eq`), so

* it holds the commands of the subtree, each of them once;
* the subtrees of two commands with the same parent, or of two roots, have
  none in common, and those of the roots together have all
  (`WellFormed.perm_range`).

Changes along such a list reach each of its commands once
(`find?_foldl_modify`), which says what it means to give a provider to a
subtree (`WellFormed.find?_of_provide`) and to bind it
(`WellFormed.find?_of_bind`).
-/

namespace CommandForest

namespace Branch

mutual

/-- The numbers in a branch are those of its commands. -/
theorem map_fst_entries : (b : Branch) → b.entries.map Prod.fst = b.ids
  | mk id c bs => by
      rw [entries, ids, List.map_cons, map_fst_entriesOfAll]

theorem map_fst_entriesOfAll : (bs : List Branch) →
    (entriesOfAll bs).map Prod.fst = idsOfAll bs
  | [] => rfl
  | b :: bs => by
      rw [entriesOfAll, idsOfAll, List.map_append, map_fst_entries, map_fst_entriesOfAll]

end

theorem mem_ids_iff {b : Branch} {n : CommandId} : n ∈ b.ids ↔ ∃ c, (n, c) ∈ b.entries := by
  rw [← map_fst_entries, List.mem_map]
  constructor
  · rintro ⟨⟨_, c⟩, hmem, rfl⟩
    exact ⟨c, hmem⟩
  · rintro ⟨c, hmem⟩
    exact ⟨(n, c), hmem, rfl⟩

theorem idsOfAll_append (bs bs' : List Branch) :
    idsOfAll (bs ++ bs') = idsOfAll bs ++ idsOfAll bs' := by
  induction bs with
  | nil => rfl
  | cons b bs ih => rw [List.cons_append, idsOfAll, idsOfAll, ih, List.append_assoc]

theorem idsOfAll_eq_flatMap (bs : List Branch) : idsOfAll bs = bs.flatMap ids := by
  induction bs with
  | nil => rfl
  | cons b bs ih => rw [idsOfAll, List.flatMap_cons, ih]

theorem mem_idsOfAll {bs : List Branch} {n : CommandId} :
    n ∈ idsOfAll bs ↔ ∃ b ∈ bs, n ∈ b.ids := by
  rw [idsOfAll_eq_flatMap, List.mem_flatMap]

end Branch

namespace Forest

/-! ## Listed commands -/

theorem WellFormed.exists_find?_of_mem_children {f : Forest} (hf : f.WellFormed) {id k : CommandId}
    {c : Command} (hc : f.find? id = some c) (hk : k ∈ c.children) : ∃ d, f.find? k = some d := by
  obtain ⟨d, hd, -⟩ := (hf.mem_children id c hc k).mp hk
  exact ⟨d, hd⟩

theorem WellFormed.exists_find?_of_mem_roots {f : Forest} (hf : f.WellFormed) {r : CommandId}
    (hr : r ∈ f.roots) : ∃ c, f.find? r = some c := by
  obtain ⟨c, hc, -⟩ := (hf.mem_roots r).mp hr
  exact ⟨c, hc⟩

/-! ## Subtrees side by side -/

/-- **Commands with the same parent**, or without one, have no command below
them in common. -/
theorem WellFormed.eq_of_below {f : Forest} (hf : f.WellFormed) {k l n : Nat} {c d : Command}
    (hc : f.find? k = some c) (hd : f.find? l = some d) (hparent : c.parent = d.parent)
    (hk : f.Below k n) (hl : f.Below l n) : k = l := by
  -- a command is not below a child of itself
  have hloop : ∀ {k l p : Nat} {c d e : Command}, f.find? k = some c → f.find? l = some d →
      c.parent = d.parent → f.Below l p → f.find? p = some e → k ∉ e.children := by
    intro k l p c d e hc hd hparent hl he hmem
    obtain ⟨c', hc', hp⟩ := (hf.mem_children p e he k).mp hmem
    cases hc.symm.trans hc'
    have hlt := hf.parent_lt l p d hd (hparent ▸ hp)
    have := hl.le hf
    omega
  obtain ⟨xs, hx⟩ := hk
  obtain ⟨ys, hy⟩ := hl
  induction n using Nat.strongRecOn generalizing xs ys with
  | ind n ih =>
      rcases hx.cases_last with ⟨-, rfl⟩ | ⟨xs, p, e, -, hxs, he, hn⟩
      · rcases hy.cases_last with ⟨-, rfl⟩ | ⟨ys, q, e', -, hys, he', hn'⟩
        · rfl
        · exact absurd hn' (hloop hc hd hparent ⟨ys, hys⟩ he')
      · rcases hy.cases_last with ⟨-, rfl⟩ | ⟨ys, q, e', -, hys, he', hn'⟩
        · exact absurd hn (hloop hd hc hparent.symm ⟨xs, hxs⟩ he)
        · obtain rfl := hf.parent_unique he hn he' hn'
          exact ih p (hf.lt_of_mem_children he hn) xs hxs ys hys

theorem WellFormed.mem_ids_iff {f : Forest} (hf : f.WellFormed) {top n : CommandId} {b : Branch}
    (hb : f.branch? top = some b) : n ∈ b.ids ↔ f.Below top n ∧ ∃ c, f.find? n = some c := by
  rw [Branch.mem_ids_iff, ← exists_and_left]
  exact exists_congr fun c => hf.mem_entries_iff hb

mutual

/-- No command stands twice in a branch. -/
theorem Holds.nodup_ids {f : Forest} (hf : f.WellFormed) : (b : Branch) → f.Holds b → b.ids.Nodup
  | .mk id c bs, h => by
      obtain ⟨hc, hbs⟩ := h.find? hf
      have hbelow := nodup_idsOfAll hf (some id) bs c.children
        (hbs ▸ hf.map_branch? fun _ => hf.exists_find?_of_mem_children hc)
        ((hf.children_sorted id c hc).imp Nat.ne_of_lt)
        fun k => (hf.mem_children id c hc k).mp
      rw [Branch.ids, List.nodup_cons]
      refine ⟨fun hmem => ?_, hbelow⟩
      obtain ⟨b, hb, hid⟩ := Branch.mem_idsOfAll.mp hmem
      obtain ⟨hholds, hk⟩ := h.of_mem hf hb
      have hle := ((hf.mem_ids_iff hholds).mp hid).1.le hf
      have hlt := hf.lt_of_mem_children hc hk
      omega

/-- No command stands in two branches whose tops have the same parent. -/
theorem nodup_idsOfAll {f : Forest} (hf : f.WellFormed) (parent : Option CommandId) :
    (bs : List Branch) → (ks : List CommandId) → ks.map f.branch? = bs.map some → ks.Nodup →
    (∀ k ∈ ks, ∃ c, f.find? k = some c ∧ c.parent = parent) → (Branch.idsOfAll bs).Nodup
  | [], _, _, _, _ => List.nodup_nil
  | b :: bs, ks, hks, hnodup, hparent => by
      obtain ⟨k, ks, rfl, hk, hrest⟩ := List.map_eq_cons_iff.mp hks
      obtain ⟨hb, rfl⟩ := holds_of_branch? hf hk
      obtain ⟨hnot, hnodup⟩ := List.nodup_cons.mp hnodup
      obtain ⟨hsame, hlater⟩ := List.forall_mem_cons.mp hparent
      rw [Branch.idsOfAll, List.nodup_append]
      refine ⟨hb.nodup_ids hf b, nodup_idsOfAll hf parent bs ks hrest hnodup hlater, ?_⟩
      rintro n hn m hm rfl
      obtain ⟨b', hb', hn'⟩ := Branch.mem_idsOfAll.mp hm
      obtain ⟨l, hl, hbranch⟩ : ∃ l ∈ ks, f.branch? l = some b' :=
        List.mem_map.mp (hrest ▸ List.mem_map.mpr ⟨b', hb', rfl⟩)
      obtain ⟨c, hc, hparentc⟩ := hsame
      obtain ⟨d, hd, hparentd⟩ := hlater l hl
      have hboth := hf.eq_of_below hc hd (hparentc.trans hparentd.symm)
        ((hf.mem_ids_iff hk).mp hn).1 ((hf.mem_ids_iff hbranch).mp hn').1
      exact hnot (hboth ▸ hl)

end

theorem Holds.length_ids_le {f : Forest} (hf : f.WellFormed) {b : Branch} (h : f.Holds b) :
    b.ids.length ≤ f.size := by
  have hsub : b.ids ⊆ List.range f.size := by
    intro n hn
    obtain ⟨-, c, hc⟩ := (hf.mem_ids_iff h).mp hn
    exact List.mem_range.mpr (lt_size_of_find? hc)
  have hle := (List.subperm_of_subset (h.nodup_ids hf b) hsub).length_le
  rwa [List.length_range] at hle

/-! ## The list of a subtree -/

/-- With enough fuel, the list goes through the branches of the pending
commands one after the other. -/
theorem WellFormed.preorderFrom_eq {f : Forest} (hf : f.WellFormed) {fuel : Nat}
    {pending : List CommandId} {bs : List Branch} (hbs : pending.map f.branch? = bs.map some)
    (hfuel : (Branch.idsOfAll bs).length ≤ fuel) :
    f.preorderFrom fuel pending = Branch.idsOfAll bs := by
  induction fuel generalizing pending bs with
  | zero =>
      rw [List.eq_nil_of_length_eq_zero (Nat.le_zero.mp hfuel)]
      cases pending <;> rfl
  | succ fuel ih =>
      cases pending with
      | nil =>
          obtain rfl : bs = [] := List.map_eq_nil_iff.mp hbs.symm
          rfl
      | cons id pending =>
          obtain ⟨b, bs, rfl, hb, hrest⟩ := List.map_eq_cons_iff.mp hbs.symm
          obtain ⟨hholds, rfl⟩ := holds_of_branch? hf hb.symm
          obtain ⟨id, c, below⟩ := b
          obtain ⟨hc, rfl⟩ := hholds.find? hf
          have hchildren : c.children.map f.branch? = (c.children.filterMap f.branch?).map some :=
            hf.map_branch? fun _ => hf.exists_find?_of_mem_children hc
          have hnext : f.preorderFrom fuel (c.children ++ pending) =
              Branch.idsOfAll (c.children.filterMap f.branch? ++ bs) := by
            refine ih (by rw [List.map_append, List.map_append, hchildren, hrest]) ?_
            rw [Branch.idsOfAll, Branch.ids, List.cons_append, List.length_cons] at hfuel
            rw [Branch.idsOfAll_append]
            omega
          rw [Branch.id, preorderFrom, hc]
          dsimp only
          rw [hnext, Branch.idsOfAll_append, Branch.idsOfAll, Branch.ids, List.cons_append]

/-- **The list of a subtree** is the list of the numbers in its branch. -/
theorem WellFormed.descendants_eq {f : Forest} (hf : f.WellFormed) {id : CommandId} {b : Branch}
    (hb : f.branch? id = some b) : f.descendants id = b.ids := by
  obtain ⟨hholds, -⟩ := holds_of_branch? hf hb
  have hids : Branch.idsOfAll [b] = b.ids := by
    rw [Branch.idsOfAll, Branch.idsOfAll, List.append_nil]
  have hone : [id].map f.branch? = [b].map some := by
    rw [List.map_singleton, hb]
    rfl
  rw [descendants, hf.preorderFrom_eq hone (hids ▸ hholds.length_ids_le hf), hids]

/-- Nothing stands below an unknown command. -/
theorem descendants_eq_nil {f : Forest} {id : CommandId} (h : f.find? id = none) :
    f.descendants id = [] := by
  rw [descendants]
  cases f.size with
  | zero => rfl
  | succ n => rw [preorderFrom, h]; cases n <;> rfl

theorem WellFormed.mem_descendants_iff {f : Forest} (hf : f.WellFormed) {id n : CommandId} :
    n ∈ f.descendants id ↔ (∃ c, f.find? id = some c) ∧ f.Below id n := by
  cases hc : f.find? id with
  | none => simp [descendants_eq_nil hc]
  | some c =>
      obtain ⟨bs, hb, -⟩ := hf.exists_branch hc
      rw [hf.descendants_eq hb, hf.mem_ids_iff hb]
      constructor
      · rintro ⟨hbelow, -⟩
        exact ⟨⟨c, rfl⟩, hbelow⟩
      · rintro ⟨-, hbelow⟩
        exact ⟨hbelow, hbelow.exists_find? hf hc⟩

theorem WellFormed.nodup_descendants {f : Forest} (hf : f.WellFormed) (id : CommandId) :
    (f.descendants id).Nodup := by
  cases hc : f.find? id with
  | none => rw [descendants_eq_nil hc]; exact List.nodup_nil
  | some c =>
      obtain ⟨bs, hb, hholds⟩ := hf.exists_branch hc
      rw [hf.descendants_eq hb]
      exact hholds.nodup_ids hf _

/-- A command of a subtree is a command of the forest. -/
theorem WellFormed.exists_find?_of_mem_descendants {f : Forest} (hf : f.WellFormed)
    {id n : CommandId} (h : n ∈ f.descendants id) : ∃ c, f.find? n = some c := by
  obtain ⟨⟨c, hc⟩, hbelow⟩ := hf.mem_descendants_iff.mp h
  exact hbelow.exists_find? hf hc

theorem WellFormed.flatMap_descendants {f : Forest} (hf : f.WellFormed) {ks : List CommandId}
    (h : ∀ k ∈ ks, ∃ c, f.find? k = some c) :
    ks.flatMap f.descendants = Branch.idsOfAll (ks.filterMap f.branch?) := by
  induction ks with
  | nil => rfl
  | cons k ks ih =>
      obtain ⟨⟨c, hc⟩, hlater⟩ := List.forall_mem_cons.mp h
      obtain ⟨bs, hb, -⟩ := hf.exists_branch hc
      rw [List.flatMap_cons, List.filterMap_cons_some hb, Branch.idsOfAll, hf.descendants_eq hb,
        ih hlater]

/-- **Preorder**: the list of a subtree is its top, followed by the lists of
the children in their order. -/
theorem WellFormed.descendants_eq_cons {f : Forest} (hf : f.WellFormed) {id : CommandId}
    {c : Command} (hc : f.find? id = some c) :
    f.descendants id = id :: c.children.flatMap f.descendants := by
  obtain ⟨bs, hb, hholds⟩ := hf.exists_branch hc
  obtain ⟨-, rfl⟩ := hholds.find? hf
  rw [hf.descendants_eq hb, Branch.ids,
    hf.flatMap_descendants fun _ => hf.exists_find?_of_mem_children hc]

/-- The subtrees of distinct roots have no command in common. -/
theorem WellFormed.nodup_flatMap_descendants {f : Forest} (hf : f.WellFormed) :
    (f.roots.flatMap f.descendants).Nodup := by
  have hknown : ∀ r ∈ f.roots, ∃ c, f.find? r = some c := fun _ => hf.exists_find?_of_mem_roots
  rw [hf.flatMap_descendants hknown]
  exact nodup_idsOfAll hf none _ f.roots (hf.map_branch? hknown)
    (hf.roots_sorted.imp Nat.ne_of_lt) fun r => (hf.mem_roots r).mp

theorem WellFormed.mem_flatMap_descendants_iff {f : Forest} (hf : f.WellFormed) {n : CommandId} :
    n ∈ f.roots.flatMap f.descendants ↔ ∃ c, f.find? n = some c := by
  rw [List.mem_flatMap]
  constructor
  · rintro ⟨r, -, hn⟩
    exact hf.exists_find?_of_mem_descendants hn
  · rintro ⟨c, hc⟩
    obtain ⟨r, hr, hbelow⟩ := hf.exists_root_below hc
    obtain ⟨d, hd, -⟩ := (hf.mem_roots r).mp hr
    exact ⟨r, hr, hf.mem_descendants_iff.mpr ⟨⟨d, hd⟩, hbelow⟩⟩

/-- **The subtrees of the roots** make up the forest: together they list every
number once. -/
theorem WellFormed.perm_range {f : Forest} (hf : f.WellFormed) :
    (f.roots.flatMap f.descendants).Perm (List.range f.size) := by
  refine (List.perm_ext_iff_of_nodup hf.nodup_flatMap_descendants List.nodup_range).mpr fun n => ?_
  rw [hf.mem_flatMap_descendants_iff, List.mem_range]
  constructor
  · rintro ⟨c, hc⟩
    exact lt_size_of_find? hc
  · exact exists_find?_of_lt

/-! ## Changes along a list -/

/-- Each command of the list is changed once. -/
theorem find?_foldl_modify (change : Command → Command) {ids : List CommandId} (h : ids.Nodup)
    (f : Forest) (n : CommandId) :
    (ids.foldl (fun f id => f.modify id change) f).find? n =
      (f.find? n).map fun c => if n ∈ ids then change c else c := by
  induction ids generalizing f with
  | nil => simp
  | cons id ids ih =>
      obtain ⟨hnot, hnodup⟩ := List.nodup_cons.mp h
      rw [List.foldl_cons, ih hnodup]
      by_cases hn : n = id
      · subst hn
        rw [find?_modify_self, Option.map_map]
        congr 1
        funext c
        simp [hnot]
      · rw [find?_modify_of_ne f change hn]
        simp [hn]

/-- A provider is given to a command and everything below it. -/
theorem WellFormed.find?_of_provide {f g : Forest} (hf : f.WellFormed) {id : CommandId}
    {p : Provider} (h : f.provide id p = .ok g) (n : CommandId) :
    g.find? n = (f.find? n).map fun c =>
      if n ∈ f.descendants id then { c with providers := c.providers.insert p } else c := by
  rw [provide] at h
  split at h
  · cases h
    exact find?_foldl_modify _ (hf.nodup_descendants id) f n
  · contradiction

/-- A command is bound with everything below it. -/
theorem WellFormed.find?_of_bind {f g : Forest} (hf : f.WellFormed) {id : CommandId}
    {handlers : Handlers} {reports : List Diagnostic}
    (h : f.bind id handlers = .ok (g, reports)) (n : CommandId) :
    g.find? n = (f.find? n).map fun c =>
      if n ∈ f.descendants id then c.bind handlers else c := by
  rw [bind] at h
  split at h
  · cases h
    exact find?_foldl_modify _ (hf.nodup_descendants id) f n
  · contradiction

end Forest

end CommandForest
