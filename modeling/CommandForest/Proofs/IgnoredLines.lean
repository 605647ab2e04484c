import CommandForest.Proofs.Concatenation
import CommandForest.Proofs.RoundTrip

/-!
# CommandForest.Proofs.IgnoredLines

What of a definition does not count:

* a line that opens no command, closes none and starts like no directive
  (`Line.Ignored`) leaves the pass as it is (`Scan.step_of_ignored`), so it can
  be put in anywhere, and the lines behind it are reported one further down
  (`Definition.read_insert`);
* the blanks around a line are gone before it is looked at
  (`Line.numbered_congr`).

`Forest.load_ignores_layout` says both of a forest that loads the definition.
-/

namespace CommandForest

/-! ## Lines that say nothing -/

namespace Line

/-- How directives start. -/
def Directive.keywords : List String := ["hook ", "permission ", "users ", "help ", "hidesub"]

/-- A text that says nothing as a line: without the blanks around it, it is no
closer, does not end like a header, and does not start like a directive. -/
structure Ignored (text : String) : Prop where
  not_closer : Text.trimmed text ≠ "\x7d"
  not_header : (Text.trimmed text).toList.getLast? ≠ some '\x7b'
  not_directive : ∀ keyword ∈ Directive.keywords, Text.begins keyword (Text.trimmed text) = false

instance : DecidablePred Ignored := fun text =>
  decidable_of_iff
    (Text.trimmed text ≠ "\x7d" ∧ (Text.trimmed text).toList.getLast? ≠ some '\x7b' ∧
      ∀ keyword ∈ Directive.keywords, Text.begins keyword (Text.trimmed text) = false)
    ⟨fun ⟨h₁, h₂, h₃⟩ => ⟨h₁, h₂, h₃⟩, fun ⟨h₁, h₂, h₃⟩ => ⟨h₁, h₂, h₃⟩⟩

/-- A line that starts like no directive is none. -/
theorem directive?_eq_none {l : Line}
    (h : ∀ keyword ∈ Directive.keywords, keyword.toList.isPrefixOf l.text = false) :
    l.directive? = none := by
  have hafter : ∀ keyword ∈ Directive.keywords, Text.after? keyword.toList l.text = none := by
    intro keyword hkeyword
    rw [Text.after?, if_neg (by simp [h keyword hkeyword])]
  rw [directive?, hafter "hook " (by decide), hafter "permission " (by decide),
    hafter "users " (by decide), hafter "help " (by decide)]
  exact if_neg (by rw [h "hidesub" (by decide)]; decide)

section

variable {text : String} (h : Ignored text) (n : Nat)

include h

theorem Ignored.opens : Line.opens ⟨n, Text.trim text.toList⟩ = false := by
  have hlast := h.not_header
  rw [Text.trimmed, String.toList_ofList] at hlast
  exact decide_eq_false hlast

theorem Ignored.closes : Line.closes ⟨n, Text.trim text.toList⟩ = false := by
  refine decide_eq_false fun hcloser => h.not_closer ?_
  rw [Text.trimmed, show Text.trim text.toList = ['\x7d'] from hcloser]

theorem Ignored.directive? : Line.directive? ⟨n, Text.trim text.toList⟩ = none := by
  refine directive?_eq_none fun keyword hkeyword => ?_
  have hstart := h.not_directive keyword hkeyword
  rw [Text.begins, Text.trimmed, String.toList_ofList] at hstart
  exact hstart

end

/-- An empty line says nothing. -/
theorem ignored_empty : Ignored "" := by decide

/-- Blanks around the lines do not show in them. -/
theorem numbered_congr {texts others : List (List Char)}
    (h : texts.map Text.trim = others.map Text.trim) (n : Nat) :
    numbered n texts = numbered n others := by
  induction texts generalizing others n with
  | nil =>
      obtain rfl := List.map_eq_nil_iff.mp h.symm
      rfl
  | cons text texts ih =>
      obtain ⟨other, others, rfl, hfirst, hrest⟩ := List.map_eq_cons_iff.mp h.symm
      rw [numbered, numbered, hfirst, ih hrest.symm]

end Line

namespace Scan

/-- **A line that says nothing** leaves the pass as it is. -/
theorem step_of_ignored {text : String} (h : Line.Ignored text) (s : Scan) (n : Nat) :
    s.step ⟨n, Text.trim text.toList⟩ = .ok s := by
  obtain ⟨finished, stack⟩ := s
  cases stack with
  | nil => exact step_outside (h.opens n) finished
  | cons top outer =>
      rw [step_directive (h.opens n) (h.closes n), Line.describe, h.directive?]
      rfl

/-- The pass takes no notice of such a line. -/
theorem run_insert {text : String} (h : Line.Ignored text) (s : Scan) (before after : List Line)
    (n : Nat) :
    s.run (before ++ ⟨n, Text.trim text.toList⟩ :: after) = s.run (before ++ after) := by
  rw [run_append, run_append]
  cases s.run before with
  | error e => rfl
  | ok next => exact run_cons_of_ok (step_of_ignored h next n) after

end Scan

/-! ## Definitions given line by line -/

/-- The pass over a definition that is given by its lines goes through them all.
(The last one is no line of the text if it is empty, and says nothing then.) -/
theorem Scan.run_ofSource_joined {lines : List String} (h : ∀ l ∈ lines, '\n' ∉ l.toList)
    (s : Scan) :
    s.run (Line.ofSource (Text.joined "\n" lines).toList) =
      s.run (Line.numbered 1 (lines.map String.toList)) := by
  rcases lines with _ | ⟨first, rest⟩
  · rfl
  have hpieces : Text.pieces (· == '\n') (Text.joined "\n" (first :: rest)).toList =
      (first :: rest).map String.toList := by
    rw [Text.joined, String.toList_ofList]
    refine Text.pieces_intercalate rfl (by simp) fun piece hpiece => ?_
    obtain ⟨l, hl, rfl⟩ := List.mem_map.mp hpiece
    exact Text.beq_eq_false_of_not_mem (h l hl)
  rw [Line.ofSource, Text.lines, hpieces]
  split
  · next hlast =>
      obtain ⟨init, hinit⟩ : ∃ init, (first :: rest).map String.toList = init ++ [[]] :=
        List.getLast?_eq_some_iff.mp (beq_iff_eq.mp hlast)
      rw [hinit, List.dropLast_concat, Line.numbered_append]
      exact ((run_insert Line.ignored_empty s (Line.numbered 1 init) [] _).trans
        (by rw [List.append_nil])).symm
  · rfl

/-- The definition with all its headers on other lines. -/
def Definition.relocate (ρ : Nat → Nat) (d : Definition) : Definition where
  commands := Declaration.relocateAll ρ d.commands
  report := d.report.map (Diagnostic.relocate ρ)

/-- Where a line stands after one was put in behind the first `n`. -/
def Line.downFrom (n line : Nat) : Nat := if line ≤ n then line else line + 1

/-- The lines behind the place of insertion move down by one. -/
theorem Line.map_relocate_downFrom (before after : List (List Char)) :
    (numbered 1 (before ++ after)).map (relocate (downFrom before.length)) =
      numbered 1 before ++ numbered (1 + before.length + 1) after := by
  have hbefore : (numbered 1 before).map (relocate (downFrom before.length)) =
      numbered 1 before := by
    conv_rhs => rw [← List.map_id (numbered 1 before)]
    refine List.map_congr_left fun l hl => ?_
    rw [numbered_eq_mapIdx, List.mem_mapIdx] at hl
    obtain ⟨i, hi, rfl⟩ := hl
    rw [relocate, downFrom, if_pos (by dsimp only; omega)]
    rfl
  have hafter : (numbered (1 + before.length) after).map (relocate (downFrom before.length)) =
      (numbered (1 + before.length) after).map (relocate (· + 1)) := by
    refine List.map_congr_left fun l hl => ?_
    rw [numbered_eq_mapIdx, List.mem_mapIdx] at hl
    obtain ⟨i, hi, rfl⟩ := hl
    rw [relocate, relocate, downFrom, if_neg (by dsimp only; omega)]
  rw [numbered_append, List.map_append, hbefore, hafter, ← numbered_add]

/-- **Reading** a definition with a line put in that says nothing. -/
theorem Definition.read_insert {before after : List String} {extra : String}
    (hlines : ∀ l ∈ before ++ extra :: after, '\n' ∉ l.toList) (h : Line.Ignored extra) :
    let down := Line.downFrom before.length
    Definition.read (Text.joined "\n" (before ++ extra :: after)) =
      relocated down (relocate down) (Definition.read (Text.joined "\n" (before ++ after))) := by
  intro down
  have hfewer : ∀ l ∈ before ++ after, '\n' ∉ l.toList := by
    intro l hl
    refine hlines l ?_
    rcases List.mem_append.mp hl with hl | hl <;> simp [hl]
  have hrun : ({} : Scan).run (Line.numbered 1 ((before ++ extra :: after).map String.toList)) =
      relocated down (Scan.relocate down)
        (({} : Scan).run (Line.numbered 1 ((before ++ after).map String.toList))) := by
    have hmoved := Scan.run_relocate down {}
      (Line.numbered 1 ((before ++ after).map String.toList))
    rw [← hmoved, List.map_append, List.map_append, List.map_cons, Line.numbered_append,
      Line.numbered, List.length_map, Scan.run_insert h]
    have hplaces := Line.map_relocate_downFrom (before.map String.toList)
      (after.map String.toList)
    rw [List.length_map] at hplaces
    rw [hplaces]
    rfl
  rw [read_eq_run, read_eq_run, Scan.run_ofSource_joined hlines, Scan.run_ofSource_joined hfewer,
    hrun]
  cases ({} : Scan).run (Line.numbered 1 ((before ++ after).map String.toList)) with
  | error e => rfl
  | ok s => exact congrArg Except.ok (congrArg (Definition.mk _) (Scan.report_relocate down s))

namespace Forest

/-! ## Loading -/

/-- The forest with the headers of its commands from `first` on found on other
lines. -/
def relocateFrom (first : CommandId) (ρ : Nat → Nat) (f : Forest) : Forest :=
  { f with commands := f.commands.mapIdx fun n c => if n < first then c else c.relocate ρ }

@[simp] theorem find?_relocateFrom (first : CommandId) (ρ : Nat → Nat) (f : Forest)
    (n : CommandId) :
    (f.relocateFrom first ρ).find? n =
      (f.find? n).map fun c => if n < first then c else c.relocate ρ := by
  simp [relocateFrom, find?]

@[simp] theorem size_relocateFrom (first : CommandId) (ρ : Nat → Nat) (f : Forest) :
    (f.relocateFrom first ρ).size = f.size := by
  simp [relocateFrom, size]

/-- Header lines do not show in outlines. -/
theorem map_outline_unfold_relocateFrom (first : CommandId) (ρ : Nat → Nat) (f : Forest)
    (fuel : Nat) (id : CommandId) :
    ((f.relocateFrom first ρ).unfold fuel id).map Branch.outline =
      (f.unfold fuel id).map Branch.outline := by
  induction fuel generalizing id with
  | zero => rfl
  | succ fuel ih =>
      have hbelow : ∀ ks : List CommandId,
          Branch.outlines (ks.filterMap ((f.relocateFrom first ρ).unfold fuel)) =
            Branch.outlines (ks.filterMap (f.unfold fuel)) := by
        intro ks
        rw [Branch.outlines_eq_map, Branch.outlines_eq_map, List.map_filterMap,
          List.map_filterMap]
        exact List.filterMap_congr fun k _ => ih k
      rw [unfold, unfold, find?_relocateFrom]
      cases f.find? id with
      | none => rfl
      | some c =>
          have hsame : Branch.outlines (c.children.filterMap (f.unfold fuel)) = _ :=
            (hbelow c.children).symm
          simp only [Option.map_some, Branch.outline, hsame]
          split <;> rfl

theorem outlines_relocateFrom (first : CommandId) (ρ : Nat → Nat) (f : Forest) :
    (f.relocateFrom first ρ).outlines = f.outlines := by
  rw [outlines_eq_filterMap, outlines_eq_filterMap]
  refine List.filterMap_congr fun id _ => ?_
  rw [outline?, outline?, branch?, branch?, size_relocateFrom]
  exact map_outline_unfold_relocateFrom first ρ f f.size id

/-- Planted commands that were declared on other lines. -/
theorem extend_relocate (f : Forest) (cells : List Command) (ρ : Nat → Nat) :
    f.extend (cells.map (Command.relocate ρ)) = (f.extend cells).relocateFrom f.size ρ := by
  rw [extend, extend, relocateFrom]
  congr 1
  apply Array.ext_getElem?
  intro n
  simp only [Array.getElem?_append, Array.getElem?_mapIdx, size]
  by_cases hn : n < f.commands.size <;> simp [hn]

/-- **Layout does not count** when a forest loads a definition that is given by
its lines.

* A line may be put in anywhere that is no closer, does not end like a header
  and does not start like a directive once its blanks are dropped.  Errors stay
  the same, and so does what is added otherwise; only, what was noted of a line
  behind the new one is noted of the line after it.
* The blanks around the lines may be any, with a carriage return among them. -/
theorem load_ignores_layout (f : Forest) :
    (∀ (before after : List String) (extra : String),
      (∀ l ∈ before ++ extra :: after, '\n' ∉ l.toList) → Line.Ignored extra →
      let down := Line.downFrom before.length
      let source := Text.joined "\n" (before ++ after)
      let longer := Text.joined "\n" (before ++ extra :: after)
      (∀ e, f.load source = .error e → f.load longer = .error (e.relocate down)) ∧
      (∀ ids g report, f.load source = .ok (ids, g, report) →
        f.load longer =
          .ok (ids, g.relocateFrom f.size down, report.map (Diagnostic.relocate down)) ∧
        (g.relocateFrom f.size down).outlines = g.outlines)) ∧
    (∀ lines others : List String,
      (∀ l ∈ lines ++ others, '\n' ∉ l.toList) →
      lines.map Text.trimmed = others.map Text.trimmed →
      f.load (Text.joined "\n" lines) = f.load (Text.joined "\n" others)) := by
  refine ⟨fun before after extra hlines hextra => ?_, fun lines others hlines htrim => ?_⟩
  · intro down source longer
    rw [load_eq, load_eq, Definition.read_insert hlines hextra]
    cases Definition.read source with
    | error e =>
        refine ⟨fun e' he => ?_, fun _ _ _ h => by contradiction⟩
        cases he
        rfl
    | ok d =>
        refine ⟨fun _ h => by contradiction, fun ids g report h => ?_⟩
        cases h
        refine ⟨?_, outlines_relocateFrom _ _ _⟩
        have hgrown := extend_relocate (f.adopt (Declaration.places f.size d.commands) none)
          (Declaration.cellsOfAll f.size none d.commands) down
        rw [size_adopt, ← Declaration.cellsOfAll_relocateAll] at hgrown
        rw [← hgrown, ← Declaration.places_relocateAll down]
        rfl
  · have htexts : (lines.map String.toList).map Text.trim =
        (others.map String.toList).map Text.trim := by
      have hlists := congrArg (List.map String.toList) htrim
      simpa [Text.trimmed, Function.comp_def] using hlists
    rw [load, load, Definition.read_eq_run, Definition.read_eq_run,
      Scan.run_ofSource_joined (fun l hl => hlines l (List.mem_append_left _ hl)),
      Scan.run_ofSource_joined (fun l hl => hlines l (List.mem_append_right _ hl)),
      Line.numbered_congr htexts]

/-- The lines of the hut. -/
def hutLines : List String := ["hut \x7b", " door,gate \x7b", " \x7d", "\x7d"]

/-- With a remark behind its first line, the hut has its door one line further
down; and behind a remark, a header without a name is at fault on the line
after.  Other blanks, and carriage returns, change nothing. -/
theorem load_ignores_layout_hut :
    (∃ h, ({} : Forest).load (Text.joined "\n" ("hut \x7b" :: "\t# timber\r" :: hutLines.tail)) =
        .ok ([0], h, none) ∧ h.commands.map Command.line = #[some 1, some 3]) ∧
    ({} : Forest).load (Text.joined "\n" ["# timber", "\x7b"]) = .error (.missingAliases 2) ∧
    ({} : Forest).load
        (Text.joined "\n" ["\thut \x7b\x0b\r", "door,gate \x7b ", "\x7d\r", "\x7d"]) =
      ({} : Forest).load (Text.joined "\n" hutLines) := by
  have hload : ∃ g, ({} : Forest).load (Text.joined "\n" hutLines) = .ok ([0], g, none) ∧
      g.commands.map Command.line = #[some 1, some 2] := by
    refine ⟨_, rfl, ?_⟩
    decide +kernel
  refine ⟨?_, ?_, ?_⟩
  · obtain ⟨g, hg, hlines⟩ := hload
    obtain ⟨-, hsame⟩ := (load_ignores_layout {}).1 ["hut \x7b"] hutLines.tail "\t# timber\r"
      (by decide) (by decide)
    obtain ⟨hlonger, -⟩ := hsame [0] g none hg
    have hmoved : (g.relocateFrom ({} : Forest).size (Line.downFrom 1)).commands.map Command.line =
        (g.commands.map Command.line).map (Option.map (Line.downFrom 1)) := by
      apply Array.ext_getElem?
      intro n
      simp [relocateFrom, size, Command.relocate, Function.comp_def]
    exact ⟨_, hlonger, hmoved.trans (by rw [hlines]; decide +kernel)⟩
  · exact ((load_ignores_layout {}).1 [] ["\x7b"] "# timber" (by decide) (by decide)).1
      (.missingAliases 1) rfl
  · exact (load_ignores_layout {}).2 _ _ (by decide) (by decide)

end Forest

end CommandForest
