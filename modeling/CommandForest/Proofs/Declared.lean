import CommandForest.Proofs.Planting
import CommandForest.Proofs.Representable

/-!
# CommandForest.Proofs.Declared

The commands of a definition.  Whatever headers establish and directives keep
holds of every command that reading produces (`Definition.forall_of_read`), and
so they are all as a definition can leave them (`Command.IsDeclared`): bound to
nothing, without providers, no parameter settled, and none but the last
parameter taking the rest of the line.

Planting gives them their links and nothing else (`mem_cellsOfAll`).
-/

namespace CommandForest

/-! ## Declared commands -/

/-- No parameter but the last takes the rest of the line. -/
def Command.RestIsLast (c : Command) : Prop := ∀ p ∈ c.parameters.dropLast, p.takesRest = false

instance (c : Command) : Decidable c.RestIsLast := inferInstanceAs (Decidable (∀ _ ∈ _, _))

/-- A command as a definition declares it, before anything is done to it. -/
structure Command.IsDeclared (c : Command) : Prop where
  unsettled : ∀ p ∈ c.parameters, p.settled = none
  restIsLast : c.RestIsLast
  providers : c.providers = {}
  binding : c.binding = .unbound

theorem Parameter.settled_of_read? {token : List Char} {p : Parameter} (h : read? token = some p) :
    p.settled = none := by
  rw [read?] at h
  split at h
  · contradiction
  · split at h
    · contradiction
    · cases h
      rfl

theorem Line.isDeclared_of_readHeader {l : Line} {c : Command} (h : l.readHeader = .ok c) :
    c.IsDeclared := by
  obtain ⟨aliases, tokens, ps, -, -, hparams, rfl⟩ := readHeader_eq_ok_iff.mp h
  obtain ⟨hread, -, hothers⟩ := readParameters_eq_ok_iff.mp hparams
  refine ⟨fun p hp => ?_, hothers, rfl, rfl⟩
  exact Parameter.settled_of_read? (token_of_map_read? hread hp).2

theorem Line.isDeclared_of_describe {l : Line} {c d : Command} (h : l.describe c = .ok d)
    (hc : c.IsDeclared) : d.IsDeclared := by
  obtain ⟨hunsettled, hrest, hproviders, hbinding⟩ := hc
  rw [describe] at h
  cases hdirective : l.directive? with
  | none =>
      rw [hdirective] at h
      cases h
      exact ⟨hunsettled, hrest, hproviders, hbinding⟩
  | some directive =>
      rw [hdirective] at h
      cases directive with
      | users word =>
          dsimp only [Directive.apply] at h
          split at h
          · cases h
            exact ⟨hunsettled, hrest, hproviders, hbinding⟩
          · contradiction
      | hook | permission | help | hidesub =>
          cases h
          exact ⟨hunsettled, hrest, hproviders, hbinding⟩

/-! ## The commands of declarations -/

namespace Declaration

mutual

/-- The commands of a declaration, the outermost one first. -/
def commands : Declaration → List Command
  | .mk c ds => c :: commandsOfAll ds

/-- The commands of several declarations. -/
def commandsOfAll : List Declaration → List Command
  | [] => []
  | d :: ds => d.commands ++ commandsOfAll ds

end

theorem commandsOfAll_append (ds es : List Declaration) :
    commandsOfAll (ds ++ es) = commandsOfAll ds ++ commandsOfAll es := by
  induction ds with
  | nil => rfl
  | cons d ds ih => rw [List.cons_append, commandsOfAll, commandsOfAll, ih, List.append_assoc]

/-- The command with other links. -/
def IsCellOf (cell c : Command) : Prop :=
  ∃ parent children, cell = { c with parent := parent, children := children }

mutual

theorem mem_cells (base : Nat) (parent : Option CommandId) {cell : Command} :
    (d : Declaration) → cell ∈ d.cells base parent → ∃ c ∈ d.commands, IsCellOf cell c
  | .mk c ds, h => by
      rw [cells, List.mem_cons] at h
      rcases h with rfl | h
      · exact ⟨c, List.mem_cons_self, _, _, rfl⟩
      · obtain ⟨e, he, hcell⟩ := mem_cellsOfAll (base + 1) (some base) ds h
        exact ⟨e, List.mem_cons_of_mem c he, hcell⟩

/-- What is planted are the declared commands, with links. -/
theorem mem_cellsOfAll (base : Nat) (parent : Option CommandId) {cell : Command} :
    (ds : List Declaration) → cell ∈ cellsOfAll base parent ds →
    ∃ c ∈ commandsOfAll ds, IsCellOf cell c
  | [], h => absurd h List.not_mem_nil
  | d :: ds, h => by
      rw [cellsOfAll, List.mem_append] at h
      rw [commandsOfAll]
      rcases h with h | h
      · obtain ⟨e, he, hcell⟩ := mem_cells base parent d h
        exact ⟨e, List.mem_append_left _ he, hcell⟩
      · obtain ⟨e, he, hcell⟩ := mem_cellsOfAll (base + d.count) parent ds h
        exact ⟨e, List.mem_append_right _ he, hcell⟩

end

/-! ## Reading -/

section

variable {P : Command → Prop} (hheader : ∀ (l : Line) c, l.readHeader = .ok c → P c)
  (hdescribe : ∀ (l : Line) c d, l.describe c = .ok d → P c → P d)

include hheader hdescribe

/-- What headers establish and directives keep holds of a command that was
read and of those inside it. -/
theorem forall_of_readBody {fuel header : Nat} {c : Command} {below : List Declaration}
    {lines rest : List Line} {d : Declaration}
    (h : readBody fuel header c below lines = .ok (.closed d rest)) (hc : P c)
    (hbelow : ∀ e ∈ commandsOfAll below, P e) : ∀ e ∈ d.commands, P e := by
  induction fuel generalizing header c below lines rest d with
  | zero => cases lines <;> cases h
  | succ fuel ih =>
      cases lines with
      | nil => cases h
      | cons l lines =>
          rw [readBody] at h
          split at h
          · -- a header: the command it opens is read first
            cases hchild : l.readHeader with
            | error e => rw [hchild] at h; cases h
            | ok child =>
                rw [hchild] at h
                dsimp only at h
                cases hread : readBody fuel l.number child [] lines with
                | error e => rw [hread] at h; cases h
                | ok reading =>
                    rw [hread] at h
                    cases reading with
                    | unclosed command line => cases h
                    | closed inner after =>
                        have hinner := ih hread (hheader l child hchild)
                          (fun e he => absurd he List.not_mem_nil)
                        refine ih h hc fun e he => ?_
                        rw [commandsOfAll_append, commandsOfAll, commandsOfAll, List.append_nil,
                          List.mem_append] at he
                        exact he.elim (hbelow e) (hinner e)
          · split at h
            · cases h
              intro e he
              rw [commands] at he
              exact (List.mem_cons.mp he).elim (fun heq => heq ▸ hc) (hbelow e)
            · cases hline : l.describe c with
              | error e => rw [hline] at h; cases h
              | ok c' =>
                  rw [hline] at h
                  exact ih h (hdescribe l c c' hline hc) hbelow

theorem forall_of_readLines {fuel limit : Nat} {lines : List Line} {d : Definition}
    (h : Definition.readLines fuel limit lines = .ok d) : ∀ e ∈ commandsOfAll d.commands, P e := by
  have hempty : ∀ report, ∀ e ∈ commandsOfAll (Definition.mk [] report).commands, P e :=
    fun _ e he => absurd he List.not_mem_nil
  induction fuel generalizing limit lines d with
  | zero => cases h; exact hempty none
  | succ fuel ih =>
      cases limit with
      | zero => cases h; exact hempty none
      | succ limit =>
          cases lines with
          | nil => cases h; exact hempty none
          | cons l lines =>
              rw [Definition.readLines] at h
              split at h
              · rw [read] at h
                cases hchild : l.readHeader with
                | error e => rw [hchild] at h; cases h
                | ok child =>
                    rw [hchild] at h
                    dsimp only at h
                    split at h
                    · cases h
                    · cases h; exact hempty _
                    · next inner after hread =>
                        obtain ⟨more, hmore, rfl⟩ := map_eq_ok_iff.mp h
                        have hinner := forall_of_readBody hheader hdescribe hread
                          (hheader l child hchild) (fun e he => absurd he List.not_mem_nil)
                        intro e he
                        rw [commandsOfAll, List.mem_append] at he
                        exact he.elim (hinner e) (ih hmore e)
              · exact ih h

/-- **Reading** keeps what headers establish and directives keep. -/
theorem forall_of_read {source : String} {d : Definition} (h : Definition.read source = .ok d) :
    ∀ e ∈ commandsOfAll d.commands, P e :=
  forall_of_readLines hheader hdescribe h

end

/-- Every command of a definition is as declared. -/
theorem isDeclared_of_read {source : String} {d : Definition}
    (h : Definition.read source = .ok d) : ∀ c ∈ commandsOfAll d.commands, c.IsDeclared :=
  forall_of_read (fun _ _ => Line.isDeclared_of_readHeader)
    (fun _ _ _ => Line.isDeclared_of_describe) h

end Declaration

end CommandForest
