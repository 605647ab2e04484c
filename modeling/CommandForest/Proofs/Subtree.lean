import CommandForest.Proofs.WellFormed
import Mathlib.Data.List.Basic

/-!
# CommandForest.Proofs.Subtree

The commands below a command.  `Forest.Trail` walks down from a command to one
below it, through the lists of children; in a well-formed forest there is at
most one such trail (`Trail.unique`), and one from a root to every command
(`exists_root_below`).

The branches of a forest hold just these commands: `branch?_eq` unfolds a
branch by one level, without the fuel of its definition, and `mem_entries_iff`
says which commands stand in it.
-/

namespace CommandForest

namespace Forest

/-! ## Trails -/

/-- The way down from a command to one below it.  The list holds the commands
strictly above the lower end, from the top on. -/
inductive Trail (f : Forest) : CommandId → List CommandId → CommandId → Prop
  | here (id : CommandId) : Trail f id [] id
  | down {id k n : CommandId} {c : Command} {above : List CommandId} :
      f.find? id = some c → k ∈ c.children → Trail f k above n → Trail f id (id :: above) n

/-- A command stands in the subtree of another, which may be itself. -/
def Below (f : Forest) (top n : CommandId) : Prop := ∃ above, f.Trail top above n

theorem Below.refl (f : Forest) (id : CommandId) : f.Below id id := ⟨[], .here id⟩

theorem Trail.append {f : Forest} {top mid n : CommandId} {xs ys : List CommandId}
    (hx : f.Trail top xs mid) (hy : f.Trail mid ys n) : f.Trail top (xs ++ ys) n := by
  induction hx with
  | here => exact hy
  | down hc hk _ ih => exact .down hc hk (ih hy)

theorem Below.trans {f : Forest} {top mid n : CommandId} (hm : f.Below top mid)
    (hn : f.Below mid n) : f.Below top n := by
  obtain ⟨xs, hx⟩ := hm
  obtain ⟨ys, hy⟩ := hn
  exact ⟨xs ++ ys, hx.append hy⟩

theorem Below.child {f : Forest} {id k : CommandId} {c : Command} (hc : f.find? id = some c)
    (hk : k ∈ c.children) : f.Below id k :=
  ⟨[id], .down hc hk (.here k)⟩

/-- A trail seen from its lower end: it is empty, or a parent stands last. -/
theorem Trail.cases_last {f : Forest} {top n : CommandId} {above : List CommandId}
    (h : f.Trail top above n) :
    (above = [] ∧ n = top) ∨ ∃ init p c, above = init ++ [p] ∧ f.Trail top init p ∧
      f.find? p = some c ∧ n ∈ c.children := by
  induction h with
  | here => exact .inl ⟨rfl, rfl⟩
  | @down id k n c above hc hk _ ih =>
      rcases ih with ⟨rfl, rfl⟩ | ⟨init, p, d, rfl, hinit, hd, hn⟩
      · exact .inr ⟨[], id, c, rfl, .here id, hc, hk⟩
      · exact .inr ⟨id :: init, p, d, rfl, .down hc hk hinit, hd, hn⟩

/-- Commands further down are younger. -/
theorem Trail.le {f : Forest} (hf : f.WellFormed) {top n : Nat} {above : List CommandId}
    (h : f.Trail top above n) : top ≤ n ∧ (above ≠ [] → top < n) := by
  induction h with
  | here => exact ⟨Nat.le_refl _, fun hne => absurd rfl hne⟩
  | down hc hk _ ih =>
      have hlt := hf.lt_of_mem_children hc hk
      exact ⟨Nat.le_trans (Nat.le_of_lt hlt) ih.1, fun _ => Nat.lt_of_lt_of_le hlt ih.1⟩

theorem Below.le {f : Forest} (hf : f.WellFormed) {top n : Nat} (h : f.Below top n) : top ≤ n := by
  obtain ⟨above, hab⟩ := h
  exact (hab.le hf).1

/-- A command has one parent. -/
theorem WellFormed.parent_unique {f : Forest} (hf : f.WellFormed) {p q n : Nat} {c d : Command}
    (hc : f.find? p = some c) (hn : n ∈ c.children) (hd : f.find? q = some d)
    (hn' : n ∈ d.children) : p = q := by
  obtain ⟨e, he, hparent⟩ := (hf.mem_children p c hc n).mp hn
  obtain ⟨e', he', hparent'⟩ := (hf.mem_children q d hd n).mp hn'
  rw [he] at he'
  cases he'
  rw [hparent] at hparent'
  exact Option.some.inj hparent'

/-- **Trails are unique** in a well-formed forest. -/
theorem Trail.unique {f : Forest} (hf : f.WellFormed) {top n : Nat} {xs ys : List CommandId}
    (hx : f.Trail top xs n) (hy : f.Trail top ys n) : xs = ys := by
  induction n using Nat.strongRecOn generalizing xs ys with
  | ind n ih =>
      rcases hx.cases_last with ⟨rfl, rfl⟩ | ⟨xs, p, c, rfl, hxs, hc, hn⟩
      · rcases hy.cases_last with ⟨rfl, -⟩ | ⟨ys, q, d, rfl, -, -, -⟩
        · rfl
        · exact absurd ((hy.le hf).2 (by simp)) (Nat.lt_irrefl _)
      · rcases hy.cases_last with ⟨rfl, rfl⟩ | ⟨ys, q, d, rfl, hys, hd, hn'⟩
        · exact absurd ((hx.le hf).2 (by simp)) (Nat.lt_irrefl _)
        · obtain rfl := hf.parent_unique hc hn hd hn'
          rw [ih p (hf.lt_of_mem_children hc hn) hxs hys]

/-- What stands below a command of the forest is a command of the forest. -/
theorem Below.exists_find? {f : Forest} (hf : f.WellFormed) {top n : Nat} {c : Command}
    (h : f.Below top n) (hc : f.find? top = some c) : ∃ d, f.find? n = some d := by
  obtain ⟨above, hab⟩ := h
  rcases hab.cases_last with ⟨-, rfl⟩ | ⟨init, p, d, -, -, hd, hn⟩
  · exact ⟨c, hc⟩
  · obtain ⟨e, he, -⟩ := (hf.mem_children p d hd n).mp hn
    exact ⟨e, he⟩

/-- Every command stands below a root. -/
theorem WellFormed.exists_root_below {f : Forest} (hf : f.WellFormed) {n : Nat} {c : Command}
    (hc : f.find? n = some c) : ∃ r ∈ f.roots, f.Below r n := by
  induction n using Nat.strongRecOn generalizing c with
  | ind n ih =>
      cases hparent : c.parent with
      | none => exact ⟨n, (hf.mem_roots n).mpr ⟨c, hc, hparent⟩, .refl f n⟩
      | some p =>
          have hlt := hf.parent_lt n p c hc hparent
          obtain ⟨d, hd⟩ := exists_find?_of_lt (Nat.lt_trans hlt (lt_size_of_find? hc))
          obtain ⟨r, hr, hbelow⟩ := ih p hlt hd
          have hn := (hf.mem_children p d hd n).mpr ⟨c, hc, hparent⟩
          exact ⟨r, hr, hbelow.trans (.child hd hn)⟩

/-! ## Branches -/

/-- Fuel for the commands from `id` on is as good as any more. -/
theorem WellFormed.unfold_eq_unfold {f : Forest} (hf : f.WellFormed) {fuel other id : Nat}
    (h : f.size - id ≤ fuel) (h' : f.size - id ≤ other) : f.unfold fuel id = f.unfold other id := by
  induction fuel generalizing other id with
  | zero =>
      have hnone : f.find? id = none := find?_eq_none_iff.mpr (by omega)
      cases other with
      | zero => rfl
      | succ other => rw [unfold, unfold, hnone]; rfl
  | succ fuel ih =>
      cases hc : f.find? id with
      | none =>
          cases other with
          | zero => rw [unfold, unfold, hc]; rfl
          | succ other => rw [unfold, unfold, hc]; rfl
      | some c =>
          have hlt := lt_size_of_find? hc
          obtain ⟨other, rfl⟩ : ∃ k, other = k + 1 := ⟨other - 1, by omega⟩
          rw [unfold, unfold, hc, Option.map_some, Option.map_some]
          congr 2
          apply List.filterMap_congr
          intro k hk
          have := hf.lt_of_mem_children hc hk
          exact ih (by omega) (by omega)

/-- A branch is a command with the branches of its children. -/
theorem WellFormed.branch?_eq {f : Forest} (hf : f.WellFormed) (id : CommandId) :
    f.branch? id = (f.find? id).map fun c => .mk id c (c.children.filterMap f.branch?) := by
  cases hc : f.find? id with
  | none =>
      rw [branch?]
      cases f.size with
      | zero => rfl
      | succ n => rw [unfold, hc]; rfl
  | some c =>
      have hlt := lt_size_of_find? hc
      obtain ⟨n, hn⟩ : ∃ k, f.size = k + 1 := ⟨f.size - 1, by omega⟩
      rw [branch?, hn, unfold, hc, Option.map_some, Option.map_some]
      congr 2
      apply List.filterMap_congr
      intro k hk
      have := hf.lt_of_mem_children hc hk
      exact hf.unfold_eq_unfold (by omega) (by omega)

/-- The forest unfolds to this branch at its top. -/
def Holds (f : Forest) (b : Branch) : Prop := f.branch? b.id = some b

theorem holds_of_branch? {f : Forest} (hf : f.WellFormed) {id : CommandId} {b : Branch}
    (h : f.branch? id = some b) : f.Holds b ∧ b.id = id := by
  have hid : b.id = id := by
    rw [hf.branch?_eq, Option.map_eq_some_iff] at h
    obtain ⟨c, -, rfl⟩ := h
    rfl
  exact ⟨by rw [Holds, hid, h], hid⟩

theorem WellFormed.exists_branch {f : Forest} (hf : f.WellFormed) {id : CommandId} {c : Command}
    (hc : f.find? id = some c) :
    ∃ bs, f.branch? id = some (.mk id c bs) ∧ f.Holds (.mk id c bs) := by
  have h := hf.branch?_eq id
  rw [hc] at h
  exact ⟨_, h, h⟩

/-- Commands that are found have one branch each. -/
theorem WellFormed.map_branch? {f : Forest} (hf : f.WellFormed) {ks : List CommandId}
    (h : ∀ k ∈ ks, ∃ c, f.find? k = some c) :
    ks.map f.branch? = (ks.filterMap f.branch?).map some := by
  induction ks with
  | nil => rfl
  | cons k ks ih =>
      obtain ⟨c, hc⟩ := h k List.mem_cons_self
      obtain ⟨bs, hb, -⟩ := hf.exists_branch hc
      rw [List.map_cons, List.filterMap_cons_some hb, List.map_cons, hb,
        ih fun k' hk => h k' (List.mem_cons_of_mem k hk)]

/-- The top of a branch is a command of the forest. -/
theorem Holds.find? {f : Forest} (hf : f.WellFormed) {id : CommandId} {c : Command}
    {bs : List Branch} (h : f.Holds (.mk id c bs)) :
    f.find? id = some c ∧ bs = c.children.filterMap f.branch? := by
  rw [Holds, hf.branch?_eq, Option.map_eq_some_iff] at h
  obtain ⟨d, hd, heq⟩ := h
  cases heq
  exact ⟨hd, rfl⟩

theorem Holds.find?_id {f : Forest} (hf : f.WellFormed) {b : Branch} (h : f.Holds b) :
    f.find? b.id = some b.command := by
  cases b with
  | mk id c bs => exact (h.find? hf).1

/-- What stands below the top of a branch are the branches of its children. -/
theorem Holds.of_mem {f : Forest} (hf : f.WellFormed) {id : CommandId} {c : Command}
    {bs : List Branch} (h : f.Holds (.mk id c bs)) {b : Branch} (hb : b ∈ bs) :
    f.Holds b ∧ b.id ∈ c.children := by
  obtain ⟨-, rfl⟩ := h.find? hf
  obtain ⟨k, hk, hkb⟩ := List.mem_filterMap.mp hb
  obtain ⟨hholds, rfl⟩ := holds_of_branch? hf hkb
  exact ⟨hholds, hk⟩

end Forest

/-! ## The commands in a branch -/

namespace Branch

mutual

/-- The commands in a branch with their numbers, depth first. -/
def entries : Branch → List (CommandId × Command)
  | mk id c bs => (id, c) :: entriesOfAll bs

/-- The commands in several branches, one branch after the other. -/
def entriesOfAll : List Branch → List (CommandId × Command)
  | [] => []
  | b :: bs => b.entries ++ entriesOfAll bs

end

theorem mem_entriesOfAll {e : CommandId × Command} {bs : List Branch} :
    e ∈ entriesOfAll bs ↔ ∃ b ∈ bs, e ∈ b.entries := by
  induction bs with
  | nil => simp [entriesOfAll]
  | cons b bs ih => simp [entriesOfAll, ih]

end Branch

namespace Forest

mutual

theorem Holds.below_of_mem_entries {f : Forest} (hf : f.WellFormed) {n : CommandId} {c : Command} :
    (b : Branch) → f.Holds b → (n, c) ∈ b.entries → f.Below b.id n ∧ f.find? n = some c
  | .mk id d bs, h, hmem => by
      have hd := (h.find? hf).1
      rw [Branch.entries, List.mem_cons] at hmem
      rcases hmem with heq | hmem
      · cases heq
        exact ⟨.refl f n, hd⟩
      · obtain ⟨k, hk, hbelow, hc⟩ := below_of_mem_entriesOfAll hf bs d.children
          (fun b hb => h.of_mem hf hb) hmem
        exact ⟨(Below.child hd hk).trans hbelow, hc⟩

theorem below_of_mem_entriesOfAll {f : Forest} (hf : f.WellFormed) {n : CommandId} {c : Command} :
    (bs : List Branch) → (ks : List CommandId) → (∀ b ∈ bs, f.Holds b ∧ b.id ∈ ks) →
    (n, c) ∈ Branch.entriesOfAll bs → ∃ k ∈ ks, f.Below k n ∧ f.find? n = some c
  | [], _, _, hmem => absurd hmem List.not_mem_nil
  | b :: bs, ks, h, hmem => by
      rw [Branch.entriesOfAll, List.mem_append] at hmem
      rcases hmem with hmem | hmem
      · obtain ⟨hholds, hk⟩ := h b List.mem_cons_self
        exact ⟨b.id, hk, hholds.below_of_mem_entries hf b hmem⟩
      · have hlater := fun b' hb => h b' (List.mem_cons_of_mem b hb)
        exact below_of_mem_entriesOfAll hf bs ks hlater hmem

end

theorem Trail.mem_entries {f : Forest} (hf : f.WellFormed) {top n : CommandId}
    {above : List CommandId} (h : f.Trail top above n) {b : Branch} (hb : f.branch? top = some b)
    {c : Command} (hc : f.find? n = some c) : (n, c) ∈ b.entries := by
  induction h generalizing b with
  | here =>
      rw [hf.branch?_eq, hc] at hb
      cases hb
      exact List.mem_cons_self
  | @down id k n d above hd hk _ ih =>
      obtain ⟨e, he⟩ := (Below.child hd hk).exists_find? hf hd
      obtain ⟨below, hbranch, -⟩ := hf.exists_branch he
      rw [hf.branch?_eq, hd] at hb
      cases hb
      rw [Branch.entries, List.mem_cons]
      refine .inr (Branch.mem_entriesOfAll.mpr ⟨_, ?_, ih hbranch hc⟩)
      exact List.mem_filterMap.mpr ⟨k, hk, hbranch⟩

/-- **Branches**: the commands in the branch of a command are those in its
subtree. -/
theorem WellFormed.mem_entries_iff {f : Forest} (hf : f.WellFormed) {top n : CommandId}
    {b : Branch} (hb : f.branch? top = some b) {c : Command} :
    (n, c) ∈ b.entries ↔ f.Below top n ∧ f.find? n = some c := by
  obtain ⟨hholds, rfl⟩ := holds_of_branch? hf hb
  constructor
  · exact hholds.below_of_mem_entries hf b
  · rintro ⟨⟨above, htrail⟩, hc⟩
    exact htrail.mem_entries hf hb hc

end Forest

end CommandForest
