import CommandForest.Proofs.Planting

/-!
# CommandForest.Proofs.OnePass

Reading a definition in one pass.  A `Scan` goes through the lines once, from
the first to the last, and keeps two things: the outermost commands that are
closed, and a stack of the commands that are still open, innermost first.

* a header pushes the command it describes;
* a closer pops the innermost open command and delivers it, to the command
  around it or to the finished ones;
* any other line describes the innermost open command only;
* between outermost commands, all lines but headers are passed over.

`Definition.read_eq_run` says that the reader, which recurses into every
block and resumes after its closer, has the result of this pass: the same
commands, the same error, and the same report of a command that is never
closed.
-/

namespace CommandForest

theorem map_eq_ok_iff {ε α β : Type} {x : Except ε α} {f : α → β} {b : β} :
    x.map f = .ok b ↔ ∃ a, x = .ok a ∧ f a = b := by
  cases x <;> simp [Except.map]

/-! ## The pass -/

/-- A command whose closer is still to come: the line of its header, what is
known of it so far, and the commands closed inside it. -/
structure OpenCommand where
  header : Nat
  command : Command
  below : List Declaration := []

/-- The state between two lines. -/
structure Scan where
  finished : List Declaration := []
  stack : List OpenCommand := []

namespace Scan

/-- Hands over a command that was just closed. -/
def deliver (s : Scan) (d : Declaration) : Scan :=
  match s.stack with
  | [] => { s with finished := s.finished ++ [d] }
  | top :: outer => { s with stack := { top with below := top.below ++ [d] } :: outer }

/-- Reads one line. -/
def step (s : Scan) (l : Line) : Except DefinitionError Scan :=
  if l.opens then
    l.readHeader.map fun c => { s with stack := { header := l.number, command := c } :: s.stack }
  else
    match s.stack with
    | [] => .ok s
    | top :: outer =>
      if l.closes then
        .ok ({ s with stack := outer }.deliver (.mk top.command top.below))
      else
        (l.describe top.command).map fun c => { s with stack := { top with command := c } :: outer }

/-- Reads lines until one of them is at fault. -/
def run (s : Scan) : List Line → Except DefinitionError Scan
  | [] => .ok s
  | l :: rest =>
    match s.step l with
    | .error e => .error e
    | .ok next => next.run rest

/-- What the end of the input makes of a state: the open commands are lost,
and the innermost of them is reported. -/
def definition (s : Scan) : Definition where
  commands := s.finished
  report := s.stack.head?.map fun top => .unclosed top.command.name top.header

/-! ## Steps and runs -/

theorem step_header {l : Line} (h : l.opens = true) (s : Scan) :
    s.step l = l.readHeader.map fun c =>
      { s with stack := { header := l.number, command := c } :: s.stack } := by
  rw [step, if_pos h]

theorem step_outside {l : Line} (h : l.opens = false) (finished : List Declaration) :
    step ⟨finished, []⟩ l = .ok ⟨finished, []⟩ := by
  simp [step, h]

theorem step_closer {l : Line} (h : l.opens = false) (hc : l.closes = true)
    (finished : List Declaration) (top : OpenCommand) (outer : List OpenCommand) :
    step ⟨finished, top :: outer⟩ l =
      .ok (deliver ⟨finished, outer⟩ (.mk top.command top.below)) := by
  simp [step, h, hc]

theorem step_directive {l : Line} (h : l.opens = false) (hc : l.closes = false)
    (finished : List Declaration) (top : OpenCommand) (outer : List OpenCommand) :
    step ⟨finished, top :: outer⟩ l =
      (l.describe top.command).map fun c => ⟨finished, { top with command := c } :: outer⟩ := by
  simp [step, h, hc]

theorem run_cons_of_ok {s next : Scan} {l : Line} (h : s.step l = .ok next) (rest : List Line) :
    s.run (l :: rest) = next.run rest := by
  rw [run, h]

theorem run_cons_of_error {s : Scan} {l : Line} {e : DefinitionError} (h : s.step l = .error e)
    (rest : List Line) : s.run (l :: rest) = .error e := by
  rw [run, h]

/-- A run over two pieces of the input is a run over the second, from where
the first one led. -/
theorem run_append (s : Scan) (before after : List Line) :
    s.run (before ++ after) =
      match s.run before with
      | .error e => .error e
      | .ok next => next.run after := by
  induction before generalizing s with
  | nil => rfl
  | cons l rest ih =>
      rw [List.cons_append, run, run]
      cases s.step l with
      | error e => rfl
      | ok next => exact ih next

theorem run_append_of_ok {s next : Scan} {before : List Line} (h : s.run before = .ok next)
    (after : List Line) : s.run (before ++ after) = next.run after := by
  rw [run_append, h]

end Scan

/-! ## Blocks -/

/-- What the reading of a block says about the pass that has just opened it:
a closed block leads to where it is delivered, an unclosed one leaves its
innermost open command on top of the stack. -/
def Reading.Agrees (outside : Scan) (ended : Except DefinitionError Scan) (lines : List Line) :
    Except DefinitionError Reading → Prop
  | .error e => ended = .error e
  | .ok (.closed d rest) => rest.length < lines.length ∧ ended = (outside.deliver d).run rest
  | .ok (.unclosed name header) =>
      ∃ s top outer, ended = .ok s ∧ s.finished = outside.finished ∧ s.stack = top :: outer ∧
        top.command.name = name ∧ top.header = header

/-- A block that ends among the later lines ends among all of them. -/
theorem Reading.agrees_of_length_le {outside : Scan} {ended : Except DefinitionError Scan}
    {later lines : List Line} (hle : later.length ≤ lines.length) :
    {answer : Except DefinitionError Reading} → Reading.Agrees outside ended later answer →
      Reading.Agrees outside ended lines answer
  | .error _, h => h
  | .ok (.unclosed _ _), h => h
  | .ok (.closed _ _), h => ⟨Nat.lt_of_lt_of_le h.1 hle, h.2⟩

open Scan in
/-- **Blocks**: reading on in the body of a command agrees with the pass that
has this command on top of its stack.  The stack below is arbitrary, so the
statement carries over to the blocks inside. -/
theorem Declaration.readBody_agrees (fuel : Nat) (header : Nat) (c : Command)
    (below : List Declaration) (lines : List Line) (finished : List Declaration)
    (outer : List OpenCommand) (hfuel : lines.length ≤ fuel) :
    Reading.Agrees ⟨finished, outer⟩ (run ⟨finished, ⟨header, c, below⟩ :: outer⟩ lines) lines
      (Declaration.readBody fuel header c below lines) := by
  induction fuel generalizing header c below lines outer with
  | zero =>
      obtain rfl : lines = [] := List.length_eq_zero_iff.mp (Nat.le_zero.mp hfuel)
      exact ⟨_, _, _, rfl, rfl, rfl, rfl, rfl⟩
  | succ fuel ih =>
      cases lines with
      | nil => exact ⟨_, _, _, rfl, rfl, rfl, rfl, rfl⟩
      | cons l rest =>
          have hrest : rest.length ≤ fuel := Nat.le_of_succ_le_succ hfuel
          rw [Declaration.readBody]
          cases hopens : l.opens with
          | true =>
              simp only [if_true]
              cases hheader : l.readHeader with
              | error e =>
                  exact run_cons_of_error (by rw [step_header hopens, hheader]; rfl) rest
              | ok child =>
                  have hstep : step ⟨finished, ⟨header, c, below⟩ :: outer⟩ l =
                      .ok ⟨finished, ⟨l.number, child, []⟩ :: ⟨header, c, below⟩ :: outer⟩ := by
                    rw [step_header hopens, hheader]; rfl
                  rw [run_cons_of_ok hstep]
                  have hchild := ih l.number child [] rest (⟨header, c, below⟩ :: outer) hrest
                  dsimp only
                  cases hread : Declaration.readBody fuel l.number child [] rest with
                  | error e => rw [hread] at hchild; exact hchild
                  | ok reading =>
                      rw [hread] at hchild
                      cases reading with
                      | unclosed name line => exact hchild
                      | closed d after =>
                          obtain ⟨hlt, hrun⟩ := hchild
                          have hafter := ih header c (below ++ [d]) after outer (by omega)
                          rw [hrun]
                          exact Reading.agrees_of_length_le (by simp; omega) hafter
          | false =>
              simp only [Bool.false_eq_true, if_false]
              cases hcloses : l.closes with
              | true =>
                  simp only [if_true]
                  exact ⟨Nat.lt_succ_self _, run_cons_of_ok (step_closer hopens hcloses ..) rest⟩
              | false =>
                  simp only [Bool.false_eq_true, if_false]
                  cases hdescribe : l.describe c with
                  | error e =>
                      refine run_cons_of_error ?_ rest
                      rw [step_directive hopens hcloses, hdescribe]
                      rfl
                  | ok c' =>
                      have hstep : step ⟨finished, ⟨header, c, below⟩ :: outer⟩ l =
                          .ok ⟨finished, ⟨header, c', below⟩ :: outer⟩ := by
                        rw [step_directive hopens hcloses, hdescribe]; rfl
                      rw [run_cons_of_ok hstep]
                      have hlater := ih header c' below rest outer hrest
                      exact Reading.agrees_of_length_le (by simp) hlater

/-! ## Definitions -/

open Scan in
/-- **Outermost commands**: collecting them one by one agrees with the pass
that stands between two of them. -/
theorem Definition.map_run_eq_readLines (fuel limit : Nat) (lines : List Line)
    (finished : List Declaration) (hfuel : lines.length ≤ fuel) (hlimit : lines.length ≤ limit) :
    (run ⟨finished, []⟩ lines).map definition =
      (Definition.readLines fuel limit lines).map fun d =>
        ⟨finished ++ d.commands, d.report⟩ := by
  induction fuel generalizing limit lines finished with
  | zero =>
      obtain rfl : lines = [] := List.length_eq_zero_iff.mp (Nat.le_zero.mp hfuel)
      simp [run, definition, Definition.readLines, Except.map]
  | succ fuel ih =>
      cases lines with
      | nil => simp [run, definition, Definition.readLines, Except.map]
      | cons l rest =>
          obtain ⟨limit, rfl⟩ : ∃ k, limit = k + 1 := ⟨limit - 1, by simp at hlimit; omega⟩
          have hrest : rest.length ≤ fuel := Nat.le_of_succ_le_succ hfuel
          have hroom : rest.length ≤ limit := Nat.le_of_succ_le_succ hlimit
          rw [Definition.readLines]
          cases hopens : l.opens with
          | false =>
              rw [run_cons_of_ok (step_outside hopens finished)]
              simp only [Bool.false_eq_true, if_false]
              exact ih (limit + 1) rest finished hrest (by omega)
          | true =>
              simp only [if_true, Declaration.read]
              cases hheader : l.readHeader with
              | error e =>
                  rw [run_cons_of_error (e := e) (by rw [step_header hopens, hheader]; rfl)]
                  rfl
              | ok c =>
                  have hstep : step ⟨finished, []⟩ l = .ok ⟨finished, [⟨l.number, c, []⟩]⟩ := by
                    rw [step_header hopens, hheader]; rfl
                  rw [run_cons_of_ok hstep]
                  dsimp only
                  have hblock := Declaration.readBody_agrees rest.length l.number c [] rest finished
                    [] (Nat.le_refl _)
                  cases hread : Declaration.readBody rest.length l.number c [] rest with
                  | error e => rw [hread] at hblock; rw [show _ = _ from hblock]; rfl
                  | ok reading =>
                      rw [hread] at hblock
                      cases reading with
                      | unclosed name header =>
                          obtain ⟨s, top, outer, hrun, hfin, hstack, rfl, rfl⟩ := hblock
                          rw [hrun]
                          simp only [Except.map, definition]
                          rw [hfin, hstack, List.append_nil]
                          rfl
                      | closed d after =>
                          obtain ⟨hlt, hrun⟩ := hblock
                          have hafter := ih limit after (finished ++ [d]) (by omega) (by omega)
                          rw [hrun]
                          simp only [deliver]
                          rw [hafter]
                          cases Definition.readLines fuel limit after with
                          | error e => rfl
                          | ok more => simp [Except.map]

/-- Reading a definition is one pass over its lines. -/
theorem Definition.read_eq_run (source : String) :
    Definition.read source =
      (({} : Scan).run (Line.ofSource source.toList)).map Scan.definition := by
  have h := Definition.map_run_eq_readLines _ _ (Line.ofSource source.toList) []
    (Nat.le_refl _) (Nat.le_refl _)
  rw [h, Definition.read]
  cases Definition.readLines _ _ (Line.ofSource source.toList) <;> rfl

/-! ## Lines at fault -/

namespace Line

/-- The lines of a text keep their texts, trimmed, and are counted on. -/
theorem numbered_eq_mapIdx (n : Nat) (texts : List (List Char)) :
    numbered n texts = texts.mapIdx fun i text => ⟨n + i, Text.trim text⟩ := by
  induction texts generalizing n with
  | nil => rfl
  | cons text rest ih =>
      rw [numbered, ih, List.mapIdx_cons]
      simp [Nat.add_assoc, Nat.add_comm 1]

theorem numbered_append (n : Nat) (xs ys : List (List Char)) :
    numbered n (xs ++ ys) = numbered n xs ++ numbered (n + xs.length) ys := by
  induction xs generalizing n with
  | nil => rfl
  | cons x rest ih =>
      rw [List.cons_append, numbered, numbered, ih, List.cons_append, List.length_cons,
        Nat.add_assoc, Nat.add_comm 1]

/-- The lines of a definition are those of its text, trimmed and counted from
one. -/
theorem ofSource_eq_mapIdx (source : List Char) :
    ofSource source = (Text.lines source).mapIdx fun i text => ⟨i + 1, Text.trim text⟩ := by
  simp only [ofSource, numbered_eq_mapIdx, Nat.add_comm 1]

/-- The number of a line is its place in the source, counted from one. -/
theorem number_of_ofSource {source : List Char} {before after : List Line} {l : Line}
    (h : ofSource source = before ++ l :: after) : l.number = before.length + 1 := by
  have hat : (ofSource source)[before.length]? = some l := by rw [h]; simp
  rw [ofSource_eq_mapIdx, List.getElem?_mapIdx] at hat
  obtain ⟨text, -, rfl⟩ := Option.map_eq_some_iff.mp hat
  rfl

theorem line?_of_readParameters {number : Nat} {afterRest : Bool} {tokens : List (List Char)}
    {e : DefinitionError} (h : readParameters number afterRest tokens = .error e) :
    e.line? = some number := by
  induction tokens generalizing afterRest with
  | nil => rw [readParameters] at h; contradiction
  | cons token rest ih =>
      rw [readParameters] at h
      cases hread : Parameter.read? token with
      | none => rw [hread] at h; cases h; rfl
      | some p =>
          simp only [hread] at h
          cases afterRest with
          | true => cases h; rfl
          | false =>
              simp only [Bool.false_eq_true, if_false] at h
              cases hrest : readParameters number p.takesRest rest with
              | error e' => rw [hrest] at h; cases h; exact ih hrest
              | ok ps => rw [hrest] at h; contradiction

/-- A header fails with an error at its own line. -/
theorem line?_of_readHeader {l : Line} {e : DefinitionError} (h : l.readHeader = .error e) :
    e.line? = some l.number := by
  rw [readHeader] at h
  dsimp only at h
  split at h
  · cases h; rfl
  · next aliases tokens _ =>
      split at h
      · cases h; rfl
      · cases hparams : readParameters l.number false tokens with
        | error e' => rw [hparams] at h; cases h; exact line?_of_readParameters hparams
        | ok ps => rw [hparams] at h; contradiction

/-- Of all directives, only `users` with a word that stands for no audience
is at fault. -/
theorem describe_eq_error_iff {l : Line} {c : Command} {e : DefinitionError} :
    l.describe c = .error e ↔
      ∃ word, l.directive? = some (.users word) ∧ Audience.ofWord? (String.ofList word) = none ∧
        e = .unknownAudience l.number (String.ofList word) := by
  rw [describe]
  cases l.directive? with
  | none => simp
  | some d =>
      cases d with
      | users word =>
          cases haudience : Audience.ofWord? (String.ofList word) with
          | none => simp [Directive.apply, haudience, eq_comm]
          | some audience => simp [Directive.apply, haudience]
      | _ => simp [Directive.apply]

end Line

namespace Scan

/-- A state in which a line is at fault, and the fault: a header that cannot
be read, or an unknown audience in an open command. -/
def Faulty (s : Scan) (l : Line) (e : DefinitionError) : Prop :=
  (l.opens = true ∧ l.readHeader = .error e) ∨
    (l.opens = false ∧ l.closes = false ∧ s.stack ≠ [] ∧
      ∃ word, l.directive? = some (.users word) ∧ Audience.ofWord? (String.ofList word) = none ∧
        e = .unknownAudience l.number (String.ofList word))

theorem step_eq_error_iff {s : Scan} {l : Line} {e : DefinitionError} :
    s.step l = .error e ↔ s.Faulty l e := by
  obtain ⟨finished, stack⟩ := s
  cases hopens : l.opens with
  | true =>
      rw [step_header hopens, Faulty, hopens]
      cases l.readHeader <;> simp [Except.map]
  | false =>
      cases stack with
      | nil => rw [step_outside hopens]; simp [Faulty, hopens]
      | cons top outer =>
          cases hcloses : l.closes with
          | true => rw [step_closer hopens hcloses]; simp [Faulty, hopens, hcloses]
          | false =>
              rw [step_directive hopens hcloses, Faulty,
                ← Line.describe_eq_error_iff (c := top.command)]
              cases l.describe top.command <;> simp [Except.map, hopens, hcloses]

/-- The error names the line at fault. -/
theorem line?_of_faulty {s : Scan} {l : Line} {e : DefinitionError} (h : s.Faulty l e) :
    e.line? = some l.number := by
  rcases h with ⟨-, hheader⟩ | ⟨-, -, -, word, -, -, rfl⟩
  · exact Line.line?_of_readHeader hheader
  · rfl

/-- A run fails at the first line that is at fault in the state that the
lines before it lead to. -/
theorem run_eq_error_iff {s : Scan} {lines : List Line} {e : DefinitionError} :
    s.run lines = .error e ↔
      ∃ before l after next, lines = before ++ l :: after ∧ s.run before = .ok next ∧
        next.Faulty l e := by
  induction lines generalizing s with
  | nil => simp [run]
  | cons l rest ih =>
      cases hstep : s.step l with
      | error e' =>
          rw [run_cons_of_error hstep]
          constructor
          · intro h
            cases h
            exact ⟨[], l, rest, s, rfl, rfl, step_eq_error_iff.mp hstep⟩
          · rintro ⟨before, l', after, next, hlines, hrun, hfault⟩
            cases before with
            | nil =>
                cases hlines
                cases hrun
                rw [← hstep]
                exact step_eq_error_iff.mpr hfault
            | cons l'' before =>
                cases hlines
                rw [run_cons_of_error hstep] at hrun
                contradiction
      | ok s' =>
          rw [run_cons_of_ok hstep, ih]
          constructor
          · rintro ⟨before, l', after, next, rfl, hrun, hfault⟩
            exact ⟨l :: before, l', after, next, rfl, by rw [run_cons_of_ok hstep, hrun], hfault⟩
          · rintro ⟨before, l', after, next, hlines, hrun, hfault⟩
            cases before with
            | nil =>
                cases hlines
                cases hrun
                rw [step_eq_error_iff.mpr hfault] at hstep
                contradiction
            | cons l'' before =>
                cases hlines
                rw [run_cons_of_ok hstep] at hrun
                exact ⟨before, l', after, next, rfl, hrun, hfault⟩

end Scan

/-! ## Loading -/

/-- How the lines of a kind of directive start. -/
def Line.Directive.keyword : Line.Directive → String
  | .hook _ => "hook "
  | .permission _ => "permission "
  | .users _ => "users "
  | .help _ => "help "
  | .hidesub => "hidesub"

/-- A directive leaves no trace of an earlier one of its kind. -/
theorem Line.Directive.apply_of_apply {d d' : Line.Directive} {n n' : Nat} {c c' : Command}
    (hkind : d.keyword = d'.keyword) (h : d.apply n c = .ok c') :
    d'.apply n' c' = d'.apply n' c := by
  cases d <;> cases d' <;> simp [keyword] at hkind
  case users.users word word' =>
      rw [apply] at h
      cases haudience : Audience.ofWord? (String.ofList word) with
      | none => simp [haudience] at h
      | some audience =>
          simp only [haudience, Except.ok.injEq] at h
          subst h
          rfl
  all_goals
    cases h
    rfl

namespace Forest

/-- What an empty forest makes of a definition, read in one pass. -/
theorem load_empty (source : String) :
    ({} : Forest).load source =
      (({} : Scan).run (Line.ofSource source.toList)).map fun s =>
        let grown := ({} : Forest).plantAll none s.finished
        (grown.roots, grown, s.definition.report) := by
  rw [load, Definition.read_eq_run]
  cases ({} : Scan).run (Line.ofSource source.toList) with
  | error e => rfl
  | ok s =>
      simp only [Except.map, Scan.definition, plantRoots_eq, roots_plantAll_empty]
      rfl

/-- **One pass**: loading into an empty forest is one pass over the lines of the
source, trimmed and counted from one, with a stack of open commands.  If no
line is at fault, the commands finished by the pass become the forest, numbered
in the order of their headers, and the innermost command left open is reported.
Otherwise the first line at fault, in the state the lines before it lead to,
decides the error, which names its place. -/
theorem load_empty_eq_run (source : String) :
    Line.ofSource source.toList =
      ((Text.lines source.toList).mapIdx fun i text => ⟨i + 1, Text.trim text⟩) ∧
    (∀ s, ({} : Scan).run (Line.ofSource source.toList) = .ok s →
      ∃ f, ({} : Forest).load source =
          .ok (f.roots, f, s.stack.head?.map fun top => .unclosed top.command.name top.header) ∧
        f.roots = Declaration.places 0 s.finished ∧
        f.branches = Declaration.branchesOf 0 none s.finished) ∧
    (∀ e, ({} : Forest).load source = .error e ↔
      ∃ before l after s, Line.ofSource source.toList = before ++ l :: after ∧
        ({} : Scan).run before = .ok s ∧ s.Faulty l e) ∧
    (∀ before l after s e, Line.ofSource source.toList = before ++ l :: after →
      Scan.Faulty s l e → e.line? = some (before.length + 1)) ∧
    (∀ (d d' : Line.Directive) (n n' : Nat) (c c' : Command), d.keyword = d'.keyword →
      d.apply n c = .ok c' → d'.apply n' c' = d'.apply n' c) := by
  refine ⟨Line.ofSource_eq_mapIdx _, ?_, ?_, ?_, ?_⟩
  · intro s hrun
    refine ⟨({} : Forest).plantAll none s.finished, ?_, roots_plantAll_empty _,
      branches_plantAll_empty _⟩
    rw [load_empty, hrun]
    rfl
  · intro e
    rw [← Scan.run_eq_error_iff, load_empty]
    cases ({} : Scan).run (Line.ofSource source.toList) <;> simp [Except.map]
  · intro before l after s e hlines hfault
    rw [← Line.number_of_ofSource hlines]
    exact Scan.line?_of_faulty hfault
  · intro d d' n n' c c'
    exact Line.Directive.apply_of_apply

/-- A tree that is closed, and a basket that is not, with a closed apple and an
open pear in it. -/
def orchard : List String :=
  ["tree \x7b\r", "\thook shake", "  hook climb  ", "\x7d", "users nobody",
    "basket \x7b", " apple \x7b", " \x7d", " pear int:ripe \x7b"]

/-- The lines of the orchard, trimmed and counted from one. -/
def orchardLines : List Line :=
  ["tree \x7b", "hook shake", "hook climb", "\x7d", "users nobody",
    "basket \x7b", "apple \x7b", "\x7d", "pear int:ripe \x7b"].mapIdx fun i text =>
      ⟨i + 1, text.toList⟩

/-- The tree is kept with its second hook, the basket is lost, and the pear is
reported.  An audience that nobody knows is passed over behind the tree, but
makes everything fail inside the pear. -/
theorem load_empty_eq_run_orchard :
    Line.ofSource (Text.joined "\n" orchard).toList = orchardLines ∧
    (∃ f, ({} : Forest).load (Text.joined "\n" orchard) =
        .ok ([0], f, some (.unclosed "pear" 9)) ∧
      f.branches = [.mk 0 { aliases := ["tree"], hook := some "climb", line := some 1 } []]) ∧
    ({} : Forest).load (Text.joined "\n" (orchard ++ ["users nobody"])) =
      .error (.unknownAudience 10 "nobody") := by
  obtain ⟨-, hclosed, -⟩ := load_empty_eq_run (Text.joined "\n" orchard)
  obtain ⟨-, -, hfault, -⟩ := load_empty_eq_run (Text.joined "\n" (orchard ++ ["users nobody"]))
  have hjoined : ∀ lines, (Text.joined "\n" lines).toList =
      List.intercalate ['\n'] (lines.map String.toList) := fun lines => by simp [Text.joined]
  have hlines : Line.ofSource (Text.joined "\n" orchard).toList = orchardLines := by
    rw [hjoined]
    decide +kernel
  have hmore : Line.ofSource (Text.joined "\n" (orchard ++ ["users nobody"])).toList =
      orchardLines ++ [⟨10, "users nobody".toList⟩] := by
    rw [hjoined]
    decide +kernel
  obtain ⟨s, hrun, hfinished, hopen⟩ : ∃ s, ({} : Scan).run orchardLines = .ok s ∧
      s.finished = [.mk { aliases := ["tree"], hook := some "climb", line := some 1 } []] ∧
      (s.stack.head?.map fun top => Diagnostic.unclosed top.command.name top.header) =
        some (.unclosed "pear" 9) :=
    ⟨_, rfl, rfl, rfl⟩
  refine ⟨hlines, ?_, ?_⟩
  · obtain ⟨f, hload, hroots, hbranches⟩ := hclosed s (hlines ▸ hrun)
    rw [hfinished] at hroots hbranches
    rw [hroots, hopen] at hload
    exact ⟨f, hload, hbranches⟩
  · have hstack : s.stack ≠ [] := fun hnil => by
      rw [hnil] at hopen
      cases hopen
    refine (hfault _).mpr ⟨orchardLines, _, [], s, hmore, hrun, .inr ⟨rfl, rfl, hstack, ?_⟩⟩
    exact ⟨"nobody".toList, rfl, rfl, rfl⟩

end Forest

end CommandForest
