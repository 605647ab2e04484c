import CommandForest.Proofs.Loading

/-!
# CommandForest.Proofs.Concatenation

Two definitions, one behind the other.  If the first ends with its last line
and leaves no command open, both are read as they are read alone:

* the lines of the whole are those of the first and then those of the second,
  further down (`Line.ofSource_append`);
* where a line stands does not matter to the pass, except for the numbers it
  notes (`Scan.step_relocate`, `Scan.run_relocate`);
* what was finished before does not matter either (`Scan.run_behind`).

So the commands of the second stand behind those of the first, and what is
reported of the second is reported further down (`Forest.load_append`).
-/

namespace CommandForest

/-! ## Lines of a text put behind another -/

/-- A text that ends with its last line has the lines of what is put behind it
behind its own. -/
theorem Text.lines_append {s : List Char} (h : s = [] ∨ ∃ body, s = body ++ ['\n'])
    (t : List Char) : lines (s ++ t) = lines s ++ lines t := by
  rcases h with rfl | ⟨body, rfl⟩
  · rfl
  have hpieces : ∀ rest, pieces (· == '\n') (body ++ ['\n'] ++ rest) =
      pieces (· == '\n') body ++ pieces (· == '\n') rest := by
    intro rest
    rw [List.append_assoc, List.singleton_append]
    exact pieces_append_separator rfl body rest
  have hclosed := hpieces []
  rw [List.append_nil, pieces] at hclosed
  have hne := pieces_ne_nil (· == '\n') t
  simp only [lines, hclosed, hpieces, List.getLast?_append_of_ne_nil _ hne]
  split <;> simp [List.dropLast_append_of_ne_nil hne]

/-! ## Other numbers for the lines -/

/-- The line under another number. -/
def Line.relocate (ρ : Nat → Nat) (l : Line) : Line := { l with number := ρ l.number }

/-- The command with its header on another line. -/
def Command.relocate (ρ : Nat → Nat) (c : Command) : Command := { c with line := c.line.map ρ }

/-- The error at another line. -/
def DefinitionError.relocate (ρ : Nat → Nat) : DefinitionError → DefinitionError
  | missingAliases n => missingAliases (ρ n)
  | emptyAlias n aliases => emptyAlias (ρ n) aliases
  | malformedParameter n token => malformedParameter (ρ n) token
  | multistringNotLast n => multistringNotLast (ρ n)
  | unknownAudience n word => unknownAudience (ρ n) word
  | unreadable reason => unreadable reason

/-- The report about another line. -/
def Diagnostic.relocate (ρ : Nat → Nat) : Diagnostic → Diagnostic
  | unclosed command line => unclosed command (ρ line)
  | report => report

namespace Declaration

mutual

/-- The declaration with all its headers on other lines. -/
def relocate (ρ : Nat → Nat) : Declaration → Declaration
  | .mk c ds => .mk (c.relocate ρ) (relocateAll ρ ds)

/-- Several declarations with all their headers on other lines. -/
def relocateAll (ρ : Nat → Nat) : List Declaration → List Declaration
  | [] => []
  | d :: ds => d.relocate ρ :: relocateAll ρ ds

end

theorem relocateAll_append (ρ : Nat → Nat) (ds es : List Declaration) :
    relocateAll ρ (ds ++ es) = relocateAll ρ ds ++ relocateAll ρ es := by
  induction ds with
  | nil => rfl
  | cons d ds ih => simp [relocateAll, ih]

mutual

/-- Lines do not show in an outline. -/
theorem outline_relocate (ρ : Nat → Nat) : (d : Declaration) → (d.relocate ρ).outline = d.outline
  | .mk c ds => by
      rw [relocate, outline, outline, outlines_relocateAll]
      rfl

theorem outlines_relocateAll (ρ : Nat → Nat) : (ds : List Declaration) →
    outlines (relocateAll ρ ds) = outlines ds
  | [] => rfl
  | d :: ds => by
      rw [relocateAll, outlines, outlines, outline_relocate, outlines_relocateAll]

end

mutual

theorem count_relocate (ρ : Nat → Nat) : (d : Declaration) → (d.relocate ρ).count = d.count
  | .mk c ds => by
      rw [relocate, count, count, countAll_relocateAll]

theorem countAll_relocateAll (ρ : Nat → Nat) : (ds : List Declaration) →
    countAll (relocateAll ρ ds) = countAll ds
  | [] => rfl
  | d :: ds => by
      rw [relocateAll, countAll, countAll, count_relocate, countAll_relocateAll]

end

theorem places_relocateAll (ρ : Nat → Nat) (base : Nat) (ds : List Declaration) :
    places base (relocateAll ρ ds) = places base ds := by
  induction ds generalizing base with
  | nil => rfl
  | cons d ds ih => rw [relocateAll, places, places, count_relocate, ih]

mutual

theorem cells_relocate (ρ : Nat → Nat) (base : Nat) (parent : Option CommandId) :
    (d : Declaration) → (d.relocate ρ).cells base parent =
      (d.cells base parent).map (Command.relocate ρ)
  | .mk c ds => by
      rw [relocate, cells, cells, List.map_cons, cellsOfAll_relocateAll, places_relocateAll]
      rfl

/-- What is planted has its headers on the other lines. -/
theorem cellsOfAll_relocateAll (ρ : Nat → Nat) (base : Nat) (parent : Option CommandId) :
    (ds : List Declaration) → cellsOfAll base parent (relocateAll ρ ds) =
      (cellsOfAll base parent ds).map (Command.relocate ρ)
  | [] => rfl
  | d :: ds => by
      rw [relocateAll, cellsOfAll, cellsOfAll, List.map_append, cells_relocate, count_relocate,
        cellsOfAll_relocateAll]

end

/-! ## Declarations behind others -/

theorem outlines_append (ds es : List Declaration) :
    outlines (ds ++ es) = outlines ds ++ outlines es := by
  induction ds with
  | nil => rfl
  | cons d ds ih => simp [outlines, ih]

theorem places_append (base : Nat) (ds es : List Declaration) :
    places base (ds ++ es) = places base ds ++ places (base + countAll ds) es := by
  induction ds generalizing base with
  | nil => rfl
  | cons d ds ih => simp [places, countAll, ih, Nat.add_assoc]

theorem cellsOfAll_append (base : Nat) (parent : Option CommandId) (ds es : List Declaration) :
    cellsOfAll base parent (ds ++ es) =
      cellsOfAll base parent ds ++ cellsOfAll (base + countAll ds) parent es := by
  induction ds generalizing base with
  | nil => rfl
  | cons d ds ih => simp [cellsOfAll, countAll, ih, Nat.add_assoc]

end Declaration

/-! ## Reading lines under other numbers -/

/-- A result about lines that stand elsewhere. -/
def relocated {α : Type} (ρ : Nat → Nat) (move : α → α) (answer : Except DefinitionError α) :
    Except DefinitionError α :=
  (answer.map move).mapError (DefinitionError.relocate ρ)

namespace Line

theorem readParameters_relocate (ρ : Nat → Nat) (number : Nat) (afterRest : Bool)
    (tokens : List (List Char)) :
    readParameters (ρ number) afterRest tokens =
      relocated ρ id (readParameters number afterRest tokens) := by
  induction tokens generalizing afterRest with
  | nil => rfl
  | cons token rest ih =>
      rw [readParameters, readParameters]
      cases Parameter.read? token with
      | none => rfl
      | some p =>
          cases afterRest with
          | true => rfl
          | false =>
              simp only [Bool.false_eq_true, if_false, ih]
              cases readParameters number p.takesRest rest <;> rfl

/-- A header reads the same elsewhere, but for the line it notes. -/
theorem readHeader_relocate (ρ : Nat → Nat) (l : Line) :
    (l.relocate ρ).readHeader = relocated ρ (Command.relocate ρ) l.readHeader := by
  have hopens : (l.relocate ρ).opens = l.opens := rfl
  have htext : (l.relocate ρ).text = l.text := rfl
  have hnumber : (l.relocate ρ).number = ρ l.number := rfl
  rw [readHeader, readHeader, hopens, htext, hnumber]
  dsimp only
  cases Text.words (if l.opens then l.text.dropLast else l.text) with
  | nil => rfl
  | cons aliases tokens =>
      dsimp only
      split
      · rfl
      · rw [readParameters_relocate]
        cases readParameters l.number false tokens <;> rfl

/-- A directive says the same elsewhere. -/
theorem describe_relocate (ρ : Nat → Nat) (l : Line) (c : Command) :
    (l.relocate ρ).describe (c.relocate ρ) = relocated ρ (Command.relocate ρ) (l.describe c) := by
  have hdirective : (l.relocate ρ).directive? = l.directive? := rfl
  rw [describe, describe, hdirective]
  cases l.directive? with
  | none => rfl
  | some d =>
      cases d with
      | users word =>
          simp only [Directive.apply]
          cases Audience.ofWord? (String.ofList word) <;> rfl
      | hook | permission | help | hidesub => rfl

end Line

/-- The open command, found on other lines. -/
def OpenCommand.relocate (ρ : Nat → Nat) (o : OpenCommand) : OpenCommand where
  header := ρ o.header
  command := o.command.relocate ρ
  below := Declaration.relocateAll ρ o.below

namespace Scan

/-- The state after lines that stand elsewhere. -/
def relocate (ρ : Nat → Nat) (s : Scan) : Scan where
  finished := Declaration.relocateAll ρ s.finished
  stack := s.stack.map (OpenCommand.relocate ρ)

theorem deliver_relocate (ρ : Nat → Nat) (s : Scan) (d : Declaration) :
    (s.relocate ρ).deliver (d.relocate ρ) = (s.deliver d).relocate ρ := by
  obtain ⟨finished, stack⟩ := s
  cases stack with
  | nil => simp [relocate, deliver, Declaration.relocateAll_append, Declaration.relocateAll]
  | cons top outer =>
      simp [relocate, deliver, OpenCommand.relocate, Declaration.relocateAll_append,
        Declaration.relocateAll]

/-- **One line** does the same elsewhere. -/
theorem step_relocate (ρ : Nat → Nat) (s : Scan) (l : Line) :
    (s.relocate ρ).step (l.relocate ρ) = relocated ρ (relocate ρ) (s.step l) := by
  obtain ⟨finished, stack⟩ := s
  have hopens : (l.relocate ρ).opens = l.opens := rfl
  have hcloses : (l.relocate ρ).closes = l.closes := rfl
  cases ho : l.opens with
  | true =>
      rw [step_header ho, step_header (hopens.trans ho), Line.readHeader_relocate]
      cases l.readHeader <;> rfl
  | false =>
      cases stack with
      | nil => rw [step_outside ho]; exact step_outside (hopens.trans ho) _
      | cons top outer =>
          cases hc : l.closes with
          | true =>
              rw [step_closer ho hc]
              refine (step_closer (hopens.trans ho) (hcloses.trans hc) _ _ _).trans ?_
              exact congrArg Except.ok
                (deliver_relocate ρ ⟨finished, outer⟩ (.mk top.command top.below))
          | false =>
              rw [step_directive ho hc]
              refine (step_directive (hopens.trans ho) (hcloses.trans hc) _ _ _).trans ?_
              rw [OpenCommand.relocate, Line.describe_relocate]
              cases l.describe top.command <;> rfl

/-- **A run** does the same elsewhere. -/
theorem run_relocate (ρ : Nat → Nat) (s : Scan) (lines : List Line) :
    (s.relocate ρ).run (lines.map (Line.relocate ρ)) = relocated ρ (relocate ρ) (s.run lines) := by
  induction lines generalizing s with
  | nil => rfl
  | cons l rest ih =>
      rw [List.map_cons, run, run, step_relocate]
      cases s.step l with
      | error e => rfl
      | ok next => exact ih next

/-- What the end of the input makes of a state, elsewhere. -/
theorem report_relocate (ρ : Nat → Nat) (s : Scan) :
    (s.relocate ρ).definition.report = s.definition.report.map (Diagnostic.relocate ρ) := by
  obtain ⟨finished, stack⟩ := s
  cases stack <;> rfl

/-! ## A run behind others -/

/-- The state with more commands finished before. -/
def behind (ds : List Declaration) (s : Scan) : Scan := { s with finished := ds ++ s.finished }

theorem deliver_behind (ds : List Declaration) (s : Scan) (d : Declaration) :
    (s.behind ds).deliver d = (s.deliver d).behind ds := by
  obtain ⟨finished, stack⟩ := s
  cases stack <;> simp [behind, deliver]

theorem step_behind (ds : List Declaration) (s : Scan) (l : Line) :
    (s.behind ds).step l = (s.step l).map (behind ds) := by
  obtain ⟨finished, stack⟩ := s
  cases ho : l.opens with
  | true =>
      rw [step_header ho, step_header ho]
      cases l.readHeader <;> rfl
  | false =>
      cases stack with
      | nil => rw [step_outside ho]; exact step_outside ho _
      | cons top outer =>
          cases hc : l.closes with
          | true =>
              rw [step_closer ho hc]
              refine (step_closer ho hc _ _ _).trans ?_
              exact congrArg Except.ok
                (deliver_behind ds ⟨finished, outer⟩ (.mk top.command top.below))
          | false =>
              rw [step_directive ho hc]
              refine (step_directive ho hc _ _ _).trans ?_
              cases l.describe top.command <;> rfl

/-- **A run** does not look at what was finished before. -/
theorem run_behind (ds : List Declaration) (s : Scan) (lines : List Line) :
    (s.behind ds).run lines = (s.run lines).map (behind ds) := by
  induction lines generalizing s with
  | nil => rfl
  | cons l rest ih =>
      rw [run, run, step_behind]
      cases s.step l with
      | error e => rfl
      | ok next => exact ih next

end Scan

/-! ## One definition behind another -/

namespace Line

theorem numbered_add (n k : Nat) (texts : List (List Char)) :
    numbered (n + k) texts = (numbered n texts).map (relocate (· + k)) := by
  induction texts generalizing n with
  | nil => rfl
  | cons text rest ih => rw [numbered, numbered, List.map_cons, ← ih, Nat.add_right_comm]; rfl

/-- The lines of one definition behind another. -/
theorem ofSource_append {first : List Char} (h : first = [] ∨ ∃ body, first = body ++ ['\n'])
    (second : List Char) :
    ofSource (first ++ second) =
      ofSource first ++ (ofSource second).map (relocate (· + (Text.lines first).length)) := by
  rw [ofSource, Text.lines_append h, numbered_append, numbered_add]
  rfl

end Line

/-- **Reading** one definition behind another that is closed: the pass over the
second one starts afresh. -/
theorem Scan.run_ofSource_append {first : List Char} {ds : List Declaration}
    (hends : first = [] ∨ ∃ body, first = body ++ ['\n'])
    (hfirst : ({} : Scan).run (Line.ofSource first) = .ok ⟨ds, []⟩) (second : List Char) :
    let down := (· + (Text.lines first).length)
    ({} : Scan).run (Line.ofSource (first ++ second)) =
      relocated down (fun s => (s.relocate down).behind ds)
        (({} : Scan).run (Line.ofSource second)) := by
  intro down
  have hstart : (⟨ds, []⟩ : Scan) = (({} : Scan).relocate down).behind ds := by
    simp [behind, relocate, Declaration.relocateAll]
  rw [Line.ofSource_append hends, run_append_of_ok hfirst, hstart, run_behind, run_relocate]
  cases ({} : Scan).run (Line.ofSource second) <;> rfl

namespace Forest

/-- A forest of declared commands behind others, which stand on lines further
down. -/
theorem plantAll_append_empty (ρ : Nat → Nat) (ds es : List Declaration) :
    let f := ({} : Forest).plantAll none ds
    let g := ({} : Forest).plantAll none es
    let h := ({} : Forest).plantAll none (ds ++ Declaration.relocateAll ρ es)
    h.outlines = f.outlines ++ g.outlines ∧
    h.commands = f.commands ++ g.commands.map (fun c => (c.relocate ρ).shift f.size) ∧
    h.roots = f.roots ++ g.roots.map (fun n : Nat => n + f.size) := by
  intro f g h
  have hcommands : ∀ ds : List Declaration, (({} : Forest).plantAll none ds).commands =
      (Declaration.cellsOfAll 0 none ds).toArray := by
    intro ds
    rw [plantAll_eq {} none (by simp)]
    simp [extend, adopt, size]
  have hsize : f.size = Declaration.countAll ds := by
    rw [size, hcommands, List.size_toArray, Declaration.length_cellsOfAll]
  refine ⟨?_, ?_, ?_⟩
  · rw [outlines_plantAll_empty, outlines_plantAll_empty, outlines_plantAll_empty,
      Declaration.outlines_append, Declaration.outlines_relocateAll]
  · have hshift := Declaration.cellsOfAll_shift f.size 0 none (Declaration.relocateAll ρ es)
    rw [Declaration.cellsOfAll_relocateAll ρ 0, List.map_map, hsize, Option.map_none] at hshift
    rw [hcommands, hcommands, hcommands, Declaration.cellsOfAll_append, hshift, hsize]
    simp [Function.comp_def]
  · rw [roots_plantAll_empty, roots_plantAll_empty, roots_plantAll_empty,
      Declaration.places_append, Declaration.places_relocateAll, hsize, ← Declaration.places_shift]

/-- **Concatenation**: a definition behind one that ends with its last line and
leaves no command open is read as it is alone.  The forest of the whole has the
commands of the first and then those of the second, with their links shifted
and their headers further down by the lines of the first; and so far down are
the errors and the report of the second. -/
theorem load_append {first : String} (hends : first = "" ∨ ∃ body, first = body ++ "\n")
    {ids : List CommandId} {f : Forest} (hfirst : ({} : Forest).load first = .ok (ids, f, none))
    (second : String) :
    let down := (· + (Text.lines first.toList).length)
    (∀ e, ({} : Forest).load second = .error e →
      ({} : Forest).load (first ++ second) = .error (e.relocate down)) ∧
    (∀ ids g report, ({} : Forest).load second = .ok (ids, g, report) →
      ∃ h, ({} : Forest).load (first ++ second) =
          .ok (h.roots, h, report.map (Diagnostic.relocate down)) ∧
        h.outlines = f.outlines ++ g.outlines ∧
        h.commands.map Command.line =
          f.commands.map Command.line ++ (g.commands.map Command.line).map (Option.map down) ∧
        h.commands = f.commands ++ g.commands.map (fun c => (c.relocate down).shift f.size) ∧
        h.roots = f.roots ++ g.roots.map (fun n : Nat => n + f.size)) := by
  intro down
  have hclosed : first.toList = [] ∨ ∃ body, first.toList = body ++ ['\n'] := by
    rcases hends with rfl | ⟨body, rfl⟩
    · exact .inl rfl
    · exact .inr ⟨body.toList, by simp⟩
  -- the pass over the first definition ends with an empty stack
  rw [load_empty] at hfirst
  obtain ⟨⟨ds, stack⟩, hrun, hs⟩ := map_eq_ok_iff.mp hfirst
  obtain ⟨-, rfl, hreport⟩ : _ ∧ _ ∧ _ := by simpa using hs
  obtain rfl : stack = [] := by simpa [Scan.definition] using hreport
  have hwhole := Scan.run_ofSource_append hclosed hrun second.toList
  rw [load_empty, load_empty, String.toList_append, hwhole]
  cases hsecond : ({} : Scan).run (Line.ofSource second.toList) with
  | error e =>
      refine ⟨fun e' he => ?_, fun _ _ _ h => by contradiction⟩
      cases he
      rfl
  | ok s =>
      refine ⟨fun _ h => by contradiction, fun ids g report h => ?_⟩
      cases h
      obtain ⟨houtlines, hcommands, hroots⟩ := plantAll_append_empty down ds s.finished
      refine ⟨_, ?_, houtlines, ?_, hcommands, hroots⟩
      · exact congrArg (fun report => Except.ok (_, _, report)) (Scan.report_relocate down s)
      · rw [hcommands]
        simp [Command.shift, Command.relocate, Function.comp_def]

/-- Two huts, one behind the other: the second has its headers four lines
further down.  A header without a name is at fault there. -/
theorem load_append_hut :
    (∃ h, ({} : Forest).load (hut ++ "\n" ++ hut) = .ok (h.roots, h, none) ∧
      h.commands.map Command.line = #[some 1, some 2, some 5, some 6]) ∧
    ({} : Forest).load (hut ++ "\n" ++ "\x7b") = .error (.missingAliases 5) := by
  have hview : ∀ source ∈ [hut ++ "\n", hut], (({} : Forest).load source).toOption.map
      (fun answer => (answer.2.1.commands.map Command.line, answer.2.2.isNone)) =
      some (#[some 1, some 2], true) := by
    decide +kernel
  obtain ⟨⟨ids, f, report⟩, hfirst⟩ : ∃ answer, ({} : Forest).load (hut ++ "\n") = .ok answer :=
    ⟨_, rfl⟩
  obtain ⟨⟨ids', g, report'⟩, hsecond⟩ : ∃ answer, ({} : Forest).load hut = .ok answer := ⟨_, rfl⟩
  have hf := hview _ List.mem_cons_self
  have hg := hview hut (by simp)
  rw [hfirst] at hf
  rw [hsecond] at hg
  obtain ⟨hlines, hclosed⟩ := Prod.mk.inj (Option.some.inj hf)
  obtain ⟨hlines', hclosed'⟩ := Prod.mk.inj (Option.some.inj hg)
  obtain rfl : report = none := Option.isNone_iff_eq_none.mp hclosed
  obtain rfl : report' = none := Option.isNone_iff_eq_none.mp hclosed'
  have happend := load_append (.inr ⟨hut, rfl⟩) hfirst
  constructor
  · obtain ⟨h, hload, -, hboth, -⟩ := (happend hut).2 ids' g none hsecond
    refine ⟨h, hload, ?_⟩
    rw [hboth, hlines, hlines']
    decide +kernel
  · exact (happend "\x7b").1 (.missingAliases 1) rfl

end Forest

end CommandForest
