import CommandForest.Load
import CommandForest.Outline

/-!
# CommandForest.Proofs.Planting

What planting makes of a forest, in closed form.  A list of declared commands
takes up consecutive numbers from the size of the forest on, each command
before those inside it:

* `Declaration.places` are the numbers of the outermost ones;
* `Declaration.cellsOfAll` are the commands with their links, in the order of
  their numbers;
* `Declaration.branchesOf` are the branches they unfold to.

`Forest.plantAll_eq` says that planting appends the cells, lists the places
under the parent or among the roots, and changes nothing else.
`Forest.unfold_of_cells` says that the cells unfold to the branches.
-/

namespace CommandForest

/-! ## Closed forms -/

namespace Declaration

mutual

/-- How many commands are declared, the outermost one included. -/
def count : Declaration → Nat
  | .mk _ ds => countAll ds + 1

/-- How many commands are declared in a list. -/
def countAll : List Declaration → Nat
  | [] => 0
  | d :: ds => d.count + countAll ds

end

/-- The numbers of declared commands that are planted from `base` on. -/
def places (base : Nat) : List Declaration → List CommandId
  | [] => []
  | d :: ds => base :: places (base + d.count) ds

mutual

/-- The commands of a declaration planted at `base`, with their links. -/
def cells (base : Nat) (parent : Option CommandId) : Declaration → List Command
  | .mk c ds =>
    { c with parent := parent, children := places (base + 1) ds } ::
      cellsOfAll (base + 1) (some base) ds

/-- The commands of several declarations planted one after the other. -/
def cellsOfAll (base : Nat) (parent : Option CommandId) : List Declaration → List Command
  | [] => []
  | d :: ds => d.cells base parent ++ cellsOfAll (base + d.count) parent ds

end

mutual

/-- The branch of a declaration planted at `base`. -/
def branch (base : Nat) (parent : Option CommandId) : Declaration → Branch
  | .mk c ds =>
    .mk base { c with parent := parent, children := places (base + 1) ds }
      (branchesOf (base + 1) (some base) ds)

/-- The branches of several declarations planted one after the other. -/
def branchesOf (base : Nat) (parent : Option CommandId) : List Declaration → List Branch
  | [] => []
  | d :: ds => d.branch base parent :: branchesOf (base + d.count) parent ds

end

mutual

/-- The outline of a declaration. -/
def outline : Declaration → Outline
  | .mk c ds => .ofCommand c (outlines ds)

/-- The outlines of several declarations. -/
def outlines : List Declaration → List Outline
  | [] => []
  | d :: ds => d.outline :: outlines ds

end

mutual

@[simp] theorem length_cells (base : Nat) (parent : Option CommandId) :
    (d : Declaration) → (d.cells base parent).length = d.count
  | .mk c ds => by
      rw [cells, count, List.length_cons, length_cellsOfAll]

@[simp] theorem length_cellsOfAll (base : Nat) (parent : Option CommandId) :
    (ds : List Declaration) → (cellsOfAll base parent ds).length = countAll ds
  | [] => rfl
  | d :: ds => by
      rw [cellsOfAll, countAll, List.length_append, length_cells, length_cellsOfAll]

end

mutual

/-- Links do not show in an outline. -/
theorem outline_branch (base : Nat) (parent : Option CommandId) :
    (d : Declaration) → (d.branch base parent).outline = d.outline
  | .mk c ds => by
      rw [branch, Branch.outline, outline, outlines_branchesOf]
      rfl

theorem outlines_branchesOf (base : Nat) (parent : Option CommandId) :
    (ds : List Declaration) → Branch.outlines (branchesOf base parent ds) = outlines ds
  | [] => rfl
  | d :: ds => by
      rw [branchesOf, Branch.outlines, outlines, outline_branch, outlines_branchesOf]

end

end Declaration

/-! ## Adopting and extending -/

namespace Forest

/-- Lists numbers under a parent, or among the roots. -/
def adopt (f : Forest) (ids : List CommandId) : Option CommandId → Forest
  | some p => f.modify p fun c => { c with children := c.children ++ ids }
  | none => { f with roots := f.roots ++ ids }

/-- Appends commands as they are. -/
def extend (f : Forest) (cells : List Command) : Forest :=
  { f with commands := f.commands ++ cells.toArray }

@[simp] theorem size_adopt (f : Forest) (ids : List CommandId) (parent : Option CommandId) :
    (f.adopt ids parent).size = f.size := by
  cases parent <;> simp [adopt, size, modify]

@[simp] theorem size_extend (f : Forest) (cells : List Command) :
    (f.extend cells).size = f.size + cells.length := by
  simp [extend, size]

theorem extend_extend (f : Forest) (xs ys : List Command) :
    (f.extend xs).extend ys = f.extend (xs ++ ys) := by
  simp [extend]

theorem adopt_nil (f : Forest) (parent : Option CommandId) : f.adopt [] parent = f := by
  cases parent with
  | none => simp [adopt]
  | some p =>
      simp only [adopt, modify, List.append_nil]
      congr
      apply Array.ext_getElem?
      intro i
      rw [Array.getElem?_modify]
      split
      · simp
      · rfl

theorem adopt_adopt (f : Forest) (xs ys : List CommandId) (parent : Option CommandId) :
    (f.adopt xs parent).adopt ys parent = f.adopt (xs ++ ys) parent := by
  cases parent with
  | none => simp [adopt]
  | some p =>
      simp only [adopt, modify]
      congr 1
      apply Array.ext_getElem?
      intro i
      simp only [Array.getElem?_modify]
      split
      · simp [Option.map_map, Function.comp_def]
      · rfl

/-- A parent that is there already adopts the same before and after others
are appended. -/
theorem adopt_extend (f : Forest) (cells : List Command) (ids : List CommandId)
    {parent : Option CommandId} (h : ∀ p : Nat, parent = some p → p < f.size) :
    (f.extend cells).adopt ids parent = (f.adopt ids parent).extend cells := by
  cases parent with
  | none => rfl
  | some p =>
      have hp := h p rfl
      simp only [size] at hp
      simp only [adopt, modify, extend]
      congr 1
      apply Array.ext_getElem?
      intro i
      simp only [Array.getElem?_modify, Array.getElem?_append, Array.size_modify]
      by_cases hi : i < f.commands.size
      · simp only [if_pos hi]
      · have hne : p ≠ i := fun e => hi (e ▸ hp)
        simp only [if_neg hi, if_neg hne]

/-- The command appended last adopts. -/
theorem adopt_extend_size (f : Forest) (c : Command) (ids : List CommandId) :
    (f.extend [c]).adopt ids (some f.size) =
      f.extend [{ c with children := c.children ++ ids }] := by
  simp only [adopt, modify, extend]
  congr 1
  apply Array.ext_getElem?
  intro i
  simp only [Array.getElem?_modify, Array.getElem?_append, size]
  by_cases hi : i < f.commands.size
  · have hne : f.commands.size ≠ i := by omega
    simp only [if_pos hi, if_neg hne]
  · simp only [if_neg hi]
    by_cases heq : f.commands.size = i
    · subst heq; simp
    · obtain ⟨k, hk⟩ : ∃ k, i - f.commands.size = k + 1 := ⟨i - f.commands.size - 1, by omega⟩
      simp [heq, hk]

/-- Inserting a command appends it and lists its number. -/
theorem insert_eq (f : Forest) (c : Command) {parent : Option CommandId}
    (h : ∀ p : Nat, parent = some p → p < f.size) :
    f.insert c parent =
      (f.adopt [f.size] parent).extend [{ c with parent := parent, children := [] }] := by
  rw [← adopt_extend f _ _ h]
  cases parent <;> simp [insert, link, adopt, extend]

/-! ## Planting -/

mutual

/-- Planting a declaration appends its cells and lists its number. -/
theorem plant_eq (f : Forest) (parent : Option CommandId)
    (h : ∀ p : Nat, parent = some p → p < f.size) : (d : Declaration) →
    f.plant parent d = (f.adopt [f.size] parent).extend (d.cells f.size parent)
  | .mk c ds => by
      have hsize : (f.insert c parent).size = f.size + 1 := size_insert f c parent
      have hbelow : ∀ p : Nat, some f.size = some p → p < (f.insert c parent).size := by
        intro p hp
        cases hp
        omega
      have htop := adopt_extend_size (f.adopt [f.size] parent)
        { c with parent := parent, children := [] } (Declaration.places (f.size + 1) ds)
      rw [size_adopt] at htop
      rw [plant, plantAll_eq (f.insert c parent) (some f.size) hbelow ds, hsize, insert_eq f c h,
        htop, extend_extend]
      rfl

/-- **Planting**: the cells of the declarations are appended, and their
places listed under the parent or among the roots. -/
theorem plantAll_eq (f : Forest) (parent : Option CommandId)
    (h : ∀ p : Nat, parent = some p → p < f.size) : (ds : List Declaration) →
    f.plantAll parent ds =
      (f.adopt (Declaration.places f.size ds) parent).extend
        (Declaration.cellsOfAll f.size parent ds)
  | [] => by
      rw [plantAll, Declaration.places, Declaration.cellsOfAll, adopt_nil]
      simp [extend]
  | d :: ds => by
      have hsize : (f.plant parent d).size = f.size + d.count := by
        rw [plant_eq f parent h d]
        simp
      have hparent : ∀ p : Nat, parent = some p → p < (f.plant parent d).size := by
        intro p hp
        have := h p hp
        omega
      rw [plantAll, plantAll_eq (f.plant parent d) parent hparent ds, hsize, plant_eq f parent h d,
        adopt_extend _ _ _ (by simpa using h), adopt_adopt, extend_extend]
      rfl

end

/-- Planting roots answers with their places. -/
theorem plantRoots_eq (f : Forest) (ds : List Declaration) :
    f.plantRoots ds = (Declaration.places f.size ds, f.plantAll none ds) := by
  induction ds generalizing f with
  | nil => rfl
  | cons d ds ih =>
      have hsize : (f.plant none d).size = f.size + d.count := by
        rw [plant_eq f none (by simp) d]
        simp
      rw [plantRoots, ih, hsize]
      rfl

/-! ## Unfolding what was planted -/

mutual

/-- **Unfolding**: a forest that holds the cells of a declaration from `base`
on unfolds them to its branch. -/
theorem unfold_of_cells (g : Forest) (base : Nat) (parent : Option CommandId) (fuel : Nat) :
    (d : Declaration) → d.count ≤ fuel →
    (∀ i, i < d.count → g.find? (base + i) = (d.cells base parent)[i]?) →
    g.unfold fuel base = some (d.branch base parent)
  | .mk c ds, hfuel, hcells => by
      rw [Declaration.count] at hfuel
      obtain ⟨fuel, rfl⟩ : ∃ k, fuel = k + 1 := ⟨fuel - 1, by omega⟩
      have htop : g.find? base =
          some { c with parent := parent, children := Declaration.places (base + 1) ds } := by
        rw [← Nat.add_zero base, hcells 0 (by rw [Declaration.count]; omega)]
        rfl
      have hbelow := filterMap_unfold_places g (base + 1) (some base) fuel ds (by omega)
        (fun i hi => by
          rw [Nat.add_assoc, hcells (1 + i) (by rw [Declaration.count]; omega), Declaration.cells,
            Nat.add_comm 1 i, List.getElem?_cons_succ])
      rw [unfold, htop, Option.map_some, hbelow]
      rfl

theorem filterMap_unfold_places (g : Forest) (base : Nat) (parent : Option CommandId)
    (fuel : Nat) : (ds : List Declaration) → Declaration.countAll ds ≤ fuel →
    (∀ i, i < Declaration.countAll ds →
      g.find? (base + i) = (Declaration.cellsOfAll base parent ds)[i]?) →
    (Declaration.places base ds).filterMap (g.unfold fuel) =
      Declaration.branchesOf base parent ds
  | [], _, _ => rfl
  | d :: ds, hfuel, hcells => by
      rw [Declaration.countAll] at hfuel
      have hhere := unfold_of_cells g base parent fuel d (by omega) (fun i hi => by
        rw [hcells i (by rw [Declaration.countAll]; omega), Declaration.cellsOfAll,
          List.getElem?_append_left (by simpa using hi)])
      have hlater := filterMap_unfold_places g (base + d.count) parent fuel ds (by omega)
        (fun i hi => by
          rw [Nat.add_assoc, hcells (d.count + i) (by rw [Declaration.countAll]; omega),
            Declaration.cellsOfAll, List.getElem?_append_right (by simp)]
          simp)
      rw [Declaration.places, List.filterMap_cons_some hhere, hlater]
      rfl

end

/-! ## A forest of one definition -/

theorem find?_plantAll_empty (ds : List Declaration) (i : CommandId) :
    (({} : Forest).plantAll none ds).find? i = (Declaration.cellsOfAll 0 none ds)[i]? := by
  rw [plantAll_eq {} none (by simp)]
  simp [find?, extend, adopt, size]

theorem roots_plantAll_empty (ds : List Declaration) :
    (({} : Forest).plantAll none ds).roots = Declaration.places 0 ds := by
  rw [plantAll_eq {} none (by simp)]
  simp [extend, adopt, size]

/-- The branches of a forest with declared commands only. -/
theorem branches_plantAll_empty (ds : List Declaration) :
    (({} : Forest).plantAll none ds).branches = Declaration.branchesOf 0 none ds := by
  have hsize : (({} : Forest).plantAll none ds).size = Declaration.countAll ds := by
    rw [plantAll_eq {} none (by simp), size_extend, size_adopt, Declaration.length_cellsOfAll]
    exact Nat.zero_add _
  rw [branches, roots_plantAll_empty]
  apply filterMap_unfold_places
  · exact Nat.le_of_eq hsize.symm
  · intro i _
    rw [Nat.zero_add]
    exact find?_plantAll_empty ds i

/-- The outlines of a forest with declared commands only. -/
theorem outlines_plantAll_empty (ds : List Declaration) :
    (({} : Forest).plantAll none ds).outlines = Declaration.outlines ds := by
  rw [outlines, branches_plantAll_empty, Declaration.outlines_branchesOf]

end Forest

end CommandForest
