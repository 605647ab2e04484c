import CommandForest.Proofs.Change

/-!
# CommandForest.Proofs.Traversal

Going through a subtree with a stack.  A traversal takes the next command off
the stack, lists it, and puts its children there in its place
(`Traversal.step`).  Nothing bounds it but the forest: it ends when the stack
is empty.

* One step moves one command from what is ahead of a traversal to what it has
  listed (`Traversal.exists_step`).
* So a traversal ends, whatever commands are on its stack, and it takes one
  step for each command that was ahead (`Traversal.steps_eq`).

For the stack that holds a single command this is the list of its subtree,
which is also the list of the commands whose parents lead to it
(`WellFormed.mem_descendants_iff_climbsTo`).
-/

namespace CommandForest

namespace Forest

/-! ## Parents -/

/-- Going from parent to parent, a command leads to another, or is the same. -/
inductive ClimbsTo (f : Forest) : CommandId → CommandId → Prop
  | here {id : CommandId} {c : Command} : f.find? id = some c → ClimbsTo f id id
  | up {n p top : CommandId} {c : Command} :
      f.find? n = some c → c.parent = some p → ClimbsTo f p top → ClimbsTo f n top

theorem WellFormed.climbsTo_iff {f : Forest} (hf : f.WellFormed) {n top : Nat} :
    f.ClimbsTo n top ↔ (∃ c, f.find? top = some c) ∧ f.Below top n := by
  constructor
  · intro h
    induction h with
    | here hc => exact ⟨⟨_, hc⟩, .refl f _⟩
    | @up n p top c hc hparent _ ih =>
        obtain ⟨htop, hbelow⟩ := ih
        have hlt := hf.parent_lt n p c hc hparent
        obtain ⟨d, hd⟩ := exists_find?_of_lt (Nat.lt_trans hlt (lt_size_of_find? hc))
        have hn := (hf.mem_children p d hd n).mpr ⟨c, hc, hparent⟩
        exact ⟨htop, hbelow.trans (.child hd hn)⟩
  · rintro ⟨⟨c, hc⟩, above, htrail⟩
    -- the induction is on the lower end, whose parent is older
    induction n using Nat.strongRecOn generalizing above with
    | ind n ih =>
        rcases htrail.cases_last with ⟨-, rfl⟩ | ⟨init, p, d, -, hinit, hd, hn⟩
        · exact .here hc
        · obtain ⟨e, he, hparent⟩ := (hf.mem_children p d hd n).mp hn
          exact .up he hparent (ih p (hf.lt_of_mem_children hd hn) init hinit)

/-- The list of a subtree holds the commands whose parents lead to its top. -/
theorem WellFormed.mem_descendants_iff_climbsTo {f : Forest} (hf : f.WellFormed)
    {id n : CommandId} : n ∈ f.descendants id ↔ f.ClimbsTo n id :=
  hf.mem_descendants_iff.trans hf.climbsTo_iff.symm

/-! ## Steps of a traversal -/

/-- A traversal under way: the commands that it has listed, and the stack of
those that are pending, with the next one at the end. -/
structure Traversal where
  listed : List CommandId := []
  stack : List CommandId

namespace Traversal

/-- One step: the next command comes off the stack and is listed, and its
children go there, the last of them first.  With an empty stack there is no
step, and none to an unknown command. -/
def step (f : Forest) (t : Traversal) : Option Traversal :=
  t.stack.getLast?.bind fun id => (f.find? id).map fun c =>
    { listed := t.listed ++ [id], stack := t.stack.dropLast ++ c.children.reverse }

/-- A number of steps. -/
def steps (f : Forest) : Nat → Traversal → Option Traversal
  | 0, t => some t
  | n + 1, t => (t.step f).bind (steps f n)

/-- All pending commands are commands of the forest. -/
def Known (f : Forest) (t : Traversal) : Prop := ∀ k ∈ t.stack, ∃ c, f.find? k = some c

/-- What is ahead of a traversal: the subtrees of the pending commands, from
the end of the stack on. -/
def ahead (f : Forest) (t : Traversal) : List CommandId := t.stack.reverse.flatMap f.descendants

section

variable {f : Forest} (hf : f.WellFormed)

include hf

/-- **A step** is possible as long as a command is pending.  It lists the first
of the commands that were ahead, and leaves the others ahead. -/
theorem exists_step {t : Traversal} (ht : t.Known f) (hne : t.stack ≠ []) :
    ∃ id u, t.step f = some u ∧ u.Known f ∧ u.listed = t.listed ++ [id] ∧
      t.ahead f = id :: u.ahead f := by
  obtain ⟨listed, stack⟩ := t
  obtain ⟨pending, id, rfl⟩ : ∃ pending id, stack = pending ++ [id] :=
    (List.eq_nil_or_concat' stack).resolve_left hne
  obtain ⟨c, hc⟩ := ht id (by simp)
  refine ⟨id, ⟨listed ++ [id], pending ++ c.children.reverse⟩, ?_, ?_, rfl, ?_⟩
  · simp [step, hc]
  · intro k hk
    rcases List.mem_append.mp hk with hk | hk
    · exact ht k (List.mem_append_left _ hk)
    · exact hf.exists_find?_of_mem_children hc (List.mem_reverse.mp hk)
  · simp [ahead, hf.descendants_eq_cons hc]

/-- **A traversal ends** with everything listed that was ahead of it, after one
step for each command. -/
theorem steps_eq {t : Traversal} (ht : t.Known f) :
    t.steps f (t.ahead f).length = some ⟨t.listed ++ t.ahead f, []⟩ := by
  obtain ⟨n, hn⟩ : ∃ n, (t.ahead f).length = n := ⟨_, rfl⟩
  induction n generalizing t with
  | zero =>
      have hstack : t.stack = [] := by
        by_contra hne
        obtain ⟨id, u, -, -, -, hahead⟩ := exists_step hf ht hne
        rw [hahead, List.length_cons] at hn
        omega
      obtain ⟨listed, stack⟩ := t
      obtain rfl : stack = [] := hstack
      simp [ahead, steps]
  | succ n ih =>
      have hne : t.stack ≠ [] := by
        intro hnil
        simp [ahead, hnil] at hn
      obtain ⟨id, u, hstep, hu, hlisted, hahead⟩ := exists_step hf ht hne
      have hrest := ih hu (by rw [hahead, List.length_cons] at hn; omega)
      rw [hahead, List.length_cons, steps, hstep, Option.bind_some, hrest, hlisted,
        List.append_assoc, List.singleton_append]

end

end Traversal

/-! ## Subtrees -/

/-- There are no more commands in a subtree than in the forest. -/
theorem WellFormed.length_descendants_le {f : Forest} (hf : f.WellFormed) (id : CommandId) :
    (f.descendants id).length ≤ f.size := by
  cases hc : f.find? id with
  | none => simp [descendants_eq_nil hc]
  | some c =>
      obtain ⟨bs, hb, hholds⟩ := hf.exists_branch hc
      rw [hf.descendants_eq hb]
      exact hholds.length_ids_le hf

/-- **The traversal of a subtree** ends after one step for each command listed,
which is no more than there are in the forest.  It has then listed the command
followed by the subtrees of its children, in their order.  These are the
commands whose parents lead to it, each once.  Below an unknown command there is
nothing. -/
theorem descendants_by_traversal {f : Forest} (hf : f.Reachable) :
    (∀ id c, f.find? id = some c →
      ({ stack := [id] } : Traversal).steps f (f.descendants id).length =
        some ⟨f.descendants id, []⟩ ∧
      (f.descendants id).length ≤ f.size ∧
      f.descendants id = id :: c.children.flatMap f.descendants ∧
      (f.descendants id).Nodup ∧
      ∀ n, n ∈ f.descendants id ↔ f.ClimbsTo n id) ∧
    ∀ id, f.find? id = none → f.descendants id = [] := by
  have hwf := hf.wellFormed
  refine ⟨fun id c hc => ⟨?_, hwf.length_descendants_le id, hwf.descendants_eq_cons hc,
    hwf.nodup_descendants id, fun n => hwf.mem_descendants_iff_climbsTo⟩,
    fun id => descendants_eq_nil⟩
  have hknown : ({ stack := [id] } : Traversal).Known f := by
    intro k hk
    obtain rfl := List.mem_singleton.mp hk
    exact ⟨c, hc⟩
  have hahead : ({ stack := [id] } : Traversal).ahead f = f.descendants id := by
    simp [Traversal.ahead]
  have hends := Traversal.steps_eq hwf hknown
  rwa [hahead, List.nil_append] at hends

/-- A root whose children were added in turns with what is below them, and a
second root. -/
def garden : Forest :=
  ({} : Forest).run [.appendRoot { aliases := ["garden"] }, .appendUnder 0 { aliases := ["bed"] },
    .appendUnder 0 { aliases := ["path"] }, .appendUnder 1 { aliases := ["row"] },
    .appendRoot { aliases := ["gate"] }, .appendUnder 3 { aliases := ["seed"] },
    .appendUnder 1 { aliases := ["dig"] }]

/-- The subtree of the first root in preorder, and the chain of parents from
its deepest command. -/
theorem descendants_by_traversal_garden :
    garden.Reachable ∧ garden.descendants 0 = [0, 1, 3, 5, 6, 2] ∧
    ({ stack := [0] } : Traversal).steps garden 6 = some ⟨[0, 1, 3, 5, 6, 2], []⟩ ∧
    garden.ClimbsTo 5 0 ∧ ¬ garden.ClimbsTo 4 0 ∧ garden.descendants 7 = [] := by
  have hreachable : garden.Reachable := Reachable.empty.run _
  have hlist : garden.descendants 0 = [0, 1, 3, 5, 6, 2] := by decide
  obtain ⟨hknown, hunknown⟩ := descendants_by_traversal hreachable
  obtain ⟨hends, -, -, -, hmem⟩ := hknown 0 _ rfl
  rw [hlist] at hends hmem
  have houtside : ¬ garden.ClimbsTo 4 0 := fun h => absurd ((hmem 4).mpr h) (by decide)
  exact ⟨hreachable, hlist, hends, (hmem 5).mp (by decide), houtside, hunknown 7 rfl⟩

end Forest

end CommandForest
