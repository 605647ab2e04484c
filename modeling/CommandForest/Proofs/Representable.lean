import CommandForest.Proofs.Layout
import CommandForest.Proofs.OnePass

/-!
# CommandForest.Proofs.Representable

Which commands a definition can declare.  A program may build a command with
any texts in it, but a header and its directives can carry only some:

* names are words without commas, and there is at least one;
* parameters are words of the form `type:name`, and none but the last takes
  the rest of the line;
* hook, permission and help are the values of directives: not empty, trimmed,
  on one line, and without a brace at the end that would open a command.

`Scan.Writable.run` says that reading produces no others, for any source: each
line keeps the finished and the open commands within these limits.
-/

namespace CommandForest

/-! ## Limits -/

/-- A text that can be the value of a directive. -/
def Text.IsValue (s : List Char) : Prop :=
  s ≠ [] ∧ Text.trim s = s ∧ '\n' ∉ s ∧ s.getLast? ≠ some '\x7b'

/-- An outline whose own texts a header and directives can carry. -/
structure Outline.Representable (o : Outline) : Prop where
  aliases_ne_nil : o.aliases ≠ []
  aliases : ∀ a ∈ o.aliases, a ≠ "" ∧ ',' ∉ a.toList ∧ ∀ c ∈ a.toList, Text.isBlank c = false
  parameters : ∀ t ∈ o.parameters,
    (∀ c ∈ t.toList, Text.isBlank c = false) ∧ ∃ p, Parameter.read? t.toList = some p
  before_last : ∀ t ∈ o.parameters.dropLast, ∀ p,
    Parameter.read? t.toList = some p → p.takesRest = false
  hook : ∀ s, o.hook = some s → Text.IsValue s.toList
  permission : ∀ s, o.permission = some s → Text.IsValue s.toList
  help : ∀ s, o.help = some s → Text.IsValue s.toList

/-- A command whose texts a header and directives can carry. -/
def Command.Representable (c : Command) : Prop := (Outline.ofCommand c []).Representable

instance (s : List Char) : Decidable (Text.IsValue s) :=
  inferInstanceAs (Decidable (_ ∧ _ ∧ _ ∧ _))

/-- The limits in a form that can be tested. -/
theorem Outline.representable_iff {o : Outline} :
    o.Representable ↔
      o.aliases ≠ [] ∧
      (∀ a ∈ o.aliases, a ≠ "" ∧ ',' ∉ a.toList ∧ a.toList.any Text.isBlank = false) ∧
      (∀ t ∈ o.parameters,
        t.toList.any Text.isBlank = false ∧ (Parameter.read? t.toList).isSome = true) ∧
      (∀ t ∈ o.parameters.dropLast, ∀ p ∈ Parameter.read? t.toList, p.takesRest = false) ∧
      (∀ s ∈ o.hook, Text.IsValue s.toList) ∧ (∀ s ∈ o.permission, Text.IsValue s.toList) ∧
      ∀ s ∈ o.help, Text.IsValue s.toList := by
  simp only [Option.isSome_iff_exists, List.any_eq_false, Bool.not_eq_true]
  constructor
  · rintro ⟨hnil, haliases, hparams, hlast, hhook, hpermission, hhelp⟩
    exact ⟨hnil, haliases, hparams, hlast, hhook, hpermission, hhelp⟩
  · rintro ⟨hnil, haliases, hparams, hlast, hhook, hpermission, hhelp⟩
    exact ⟨hnil, haliases, hparams, hlast, hhook, hpermission, hhelp⟩

instance (o : Outline) : Decidable o.Representable :=
  decidable_of_iff' _ Outline.representable_iff

instance (c : Command) : Decidable c.Representable :=
  inferInstanceAs (Decidable (Outline.ofCommand c []).Representable)

namespace Outline

mutual

/-- An outline that is representable in all its parts. -/
def Writable : Outline → Prop
  | ⟨aliases, parameters, hook, permission, audience, help, hidesSubcommands, children⟩ =>
    Representable ⟨aliases, parameters, hook, permission, audience, help, hidesSubcommands, []⟩ ∧
      WritableAll children

/-- Outlines that are all representable in all their parts. -/
def WritableAll : List Outline → Prop
  | [] => True
  | o :: rest => Writable o ∧ WritableAll rest

end

theorem writable_ofCommand (c : Command) (os : List Outline) :
    (ofCommand c os).Writable ↔ c.Representable ∧ WritableAll os := by
  rw [ofCommand, Writable]
  rfl

theorem writableAll_iff {os : List Outline} : WritableAll os ↔ ∀ o ∈ os, o.Writable := by
  induction os with
  | nil => simp [WritableAll]
  | cons o rest ih => simp [WritableAll, ih]

end Outline

theorem Declaration.outlines_eq_map (ds : List Declaration) :
    outlines ds = ds.map outline := by
  induction ds with
  | nil => rfl
  | cons d rest ih => rw [outlines, List.map_cons, ih]

/-! ## Headers -/

namespace Line

theorem forall_mem_dropLast_cons {α : Type} {P : α → Prop} {x : α} {xs : List α} :
    (∀ y ∈ (x :: xs).dropLast, P y) ↔ (xs ≠ [] → P x) ∧ ∀ y ∈ xs.dropLast, P y := by
  cases xs <;> simp

/-- **Parameters** are read if each of them is, and none but the last takes
the rest of the line. -/
theorem readParameters_eq_ok_iff {number : Nat} {afterRest : Bool} {tokens : List (List Char)}
    {ps : List Parameter} :
    readParameters number afterRest tokens = .ok ps ↔
      tokens.map Parameter.read? = ps.map some ∧ (afterRest = true → tokens = []) ∧
        ∀ p ∈ ps.dropLast, p.takesRest = false := by
  induction tokens generalizing afterRest ps with
  | nil => cases ps <;> simp [readParameters]
  | cons token rest ih =>
      rw [readParameters]
      cases hread : Parameter.read? token with
      | none => cases ps <;> simp [hread]
      | some p =>
          cases afterRest with
          | true => simp
          | false =>
              -- the words after a parameter that takes the rest are none
              have hlast : ∀ later : List Parameter, rest.map Parameter.read? = later.map some →
                  ((p.takesRest = true → rest = []) ↔ (later ≠ [] → p.takesRest = false)) := by
                intro later hlater
                have hnil : rest = [] ↔ later = [] := by
                  rw [← List.map_eq_nil_iff (f := Parameter.read?), hlater, List.map_eq_nil_iff]
                cases p.takesRest <;> simp [hnil]
              simp only [Bool.false_eq_true, if_false, map_eq_ok_iff]
              constructor
              · rintro ⟨later, hrest, rfl⟩
                obtain ⟨hlater, hnone, hothers⟩ := ih.mp hrest
                refine ⟨by simp [hread, hlater], by simp, ?_⟩
                exact forall_mem_dropLast_cons.mpr ⟨(hlast later hlater).mp hnone, hothers⟩
              · rintro ⟨hps, -, hall⟩
                rw [List.map_cons, hread, eq_comm, List.map_eq_cons_iff] at hps
                obtain ⟨q, later, rfl, hq, hlater⟩ := hps
                obtain rfl : q = p := Option.some.inj hq
                obtain ⟨hnone, hothers⟩ := forall_mem_dropLast_cons.mp hall
                have hrest := (hlast later hlater.symm).mpr hnone
                exact ⟨later, ih.mpr ⟨hlater.symm, hrest, hothers⟩, rfl⟩

/-- Parameters that were read are written as they were. -/
theorem token_of_map_read? {tokens : List (List Char)} {ps : List Parameter}
    (h : tokens.map Parameter.read? = ps.map some) {p : Parameter} (hp : p ∈ ps) :
    p.token.toList ∈ tokens ∧ Parameter.read? p.token.toList = some p := by
  have hmem : some p ∈ tokens.map Parameter.read? := h ▸ List.mem_map.mpr ⟨p, hp, rfl⟩
  obtain ⟨token, ht, hread⟩ := List.mem_map.mp hmem
  rw [Parameter.token_of_read? hread]
  exact ⟨ht, hread⟩

/-- **Headers**: the first word holds the names, and the others are the
parameters. -/
theorem readHeader_eq_ok_iff {l : Line} {c : Command} :
    l.readHeader = .ok c ↔
      ∃ aliases tokens ps,
        Text.words (if l.opens then l.text.dropLast else l.text) = aliases :: tokens ∧
        (∀ name ∈ Text.pieces (· == ',') aliases, name ≠ []) ∧
        readParameters l.number false tokens = .ok ps ∧
        c = { aliases := (Text.pieces (· == ',') aliases).map String.ofList, parameters := ps,
              line := some l.number } := by
  rw [readHeader]
  dsimp only
  constructor
  · intro h
    cases hwords : Text.words (if l.opens then l.text.dropLast else l.text) with
    | nil => rw [hwords] at h; contradiction
    | cons aliases tokens =>
        rw [hwords] at h
        dsimp only at h
        split at h
        · contradiction
        · next hnames =>
            obtain ⟨ps, hparams, rfl⟩ := map_eq_ok_iff.mp h
            refine ⟨aliases, tokens, ps, rfl, ?_, hparams, rfl⟩
            intro name hname hnil
            exact hnames (List.any_eq_true.mpr ⟨name, hname, by rw [hnil]; rfl⟩)
  · rintro ⟨aliases, tokens, ps, hwords, hnames, hparams, rfl⟩
    rw [hwords]
    dsimp only
    rw [if_neg, hparams]
    · rfl
    · rw [List.any_eq_true]
      rintro ⟨name, hname, hempty⟩
      exact hnames name hname (List.isEmpty_iff.mp hempty)

/-- What a header declares is representable. -/
theorem representable_of_readHeader {l : Line} {c : Command} (h : l.readHeader = .ok c) :
    c.Representable := by
  obtain ⟨aliases, tokens, ps, hwords, hnames, hparams, rfl⟩ := readHeader_eq_ok_iff.mp h
  obtain ⟨hread, -, hothers⟩ := readParameters_eq_ok_iff.mp hparams
  have hword : ∀ w ∈ aliases :: tokens, ∀ c ∈ w, Text.isBlank c = false := by
    intro w hw
    rw [← hwords] at hw
    exact (Text.of_mem_words hw).2
  have hname : ∀ name ∈ Text.pieces (· == ',') aliases, String.ofList name ≠ "" ∧ ',' ∉ name ∧
      ∀ c ∈ name, Text.isBlank c = false := by
    intro name hmem
    have hchars := Text.of_mem_pieces hmem
    refine ⟨?_, ?_, fun c hc => hword aliases List.mem_cons_self c (hchars c hc).1⟩
    · intro hempty
      exact hnames name hmem (String.ofList_eq_empty_iff.mp hempty)
    · intro hcomma
      have := (hchars ',' hcomma).2
      contradiction
  refine ⟨?_, ?_, ?_, ?_, ?_, ?_, ?_⟩
  · simpa [Outline.ofCommand] using Text.pieces_ne_nil _ aliases
  · intro a ha
    obtain ⟨name, hmem, rfl⟩ := List.mem_map.mp ha
    rw [String.toList_ofList]
    exact hname name hmem
  · intro t ht
    obtain ⟨p, hp, rfl⟩ := List.mem_map.mp ht
    obtain ⟨hmem, hp⟩ := token_of_map_read? hread hp
    exact ⟨hword _ (List.mem_cons_of_mem aliases hmem), p, hp⟩
  · intro t ht q hq
    rw [Outline.ofCommand, ← List.map_dropLast] at ht
    obtain ⟨p, hp, rfl⟩ := List.mem_map.mp ht
    rw [(token_of_map_read? hread (List.dropLast_subset ps hp)).2] at hq
    cases hq
    exact hothers _ hp
  all_goals
    intro s hs
    contradiction

/-! ## Directives -/

/-- A line of a definition: trimmed, and without a line feed. -/
def Clean (l : Line) : Prop := Text.trim l.text = l.text ∧ '\n' ∉ l.text

theorem clean_of_mem_ofSource {source : List Char} {l : Line} (h : l ∈ ofSource source) :
    l.Clean := by
  rw [ofSource_eq_mapIdx, List.mem_mapIdx] at h
  obtain ⟨i, hi, rfl⟩ := h
  refine ⟨Text.trim_trim _, fun hfeed => ?_⟩
  exact Text.not_mem_of_mem_lines (List.getElem_mem hi) (Text.mem_of_mem_trim hfeed)

/-- What a directive states. -/
def Directive.value : Directive → List Char
  | hook name => name
  | permission name => name
  | users word => word
  | help text => text
  | hidesub => []

/-- A directive that a line can state. -/
def Directive.Stateable (d : Directive) : Prop := d = .hidesub ∨ Text.IsValue d.value

/-- What follows a blank on a line that opens no command is a value, once
trimmed. -/
theorem isValue_of_after? {l : Line} (hl : l.Clean) (hopens : l.opens = false)
    {start rest : List Char} (hstart : start.getLast? = some ' ')
    (h : Text.after? start l.text = some rest) : Text.IsValue (Text.trim rest) := by
  have htext : l.text = start ++ rest := Text.after?_eq_some_iff.mp h
  have hends := (Text.trim_eq_self_iff.mp hl.1).2
  have hrest : rest ≠ [] := by
    rintro rfl
    rw [htext, List.append_nil] at hends
    exact absurd (hends ' ' hstart) (by decide)
  have hlast : (Text.trim rest).getLast? = l.text.getLast? := by
    rw [htext, List.getLast?_append_of_ne_nil start hrest] at hends ⊢
    exact Text.getLast?_trim hends
  refine ⟨?_, Text.trim_trim rest, ?_, ?_⟩
  · intro hnil
    rw [hnil, htext, List.getLast?_append_of_ne_nil start hrest] at hlast
    exact hrest (List.getLast?_eq_none_iff.mp hlast.symm)
  · intro hfeed
    exact hl.2 (htext ▸ List.mem_append_right start (Text.mem_of_mem_trim hfeed))
  · rw [hlast]
    simpa [opens] using hopens

theorem stateable_of_directive? {l : Line} (hl : l.Clean) (hopens : l.opens = false)
    {d : Directive} (h : l.directive? = some d) : d.Stateable := by
  rw [directive?] at h
  split at h
  · next rest hrest =>
      cases h
      exact .inr (isValue_of_after? hl hopens rfl hrest)
  · split at h
    · next rest hrest =>
        cases h
        exact .inr (isValue_of_after? hl hopens rfl hrest)
    · split at h
      · next rest hrest =>
          cases h
          exact .inr (isValue_of_after? hl hopens rfl hrest)
      · split at h
        · next rest hrest =>
            cases h
            exact .inr (isValue_of_after? hl hopens rfl hrest)
        · split at h
          · cases h
            exact .inl rfl
          · contradiction

/-- A directive that a line can state keeps a command representable. -/
theorem Directive.Stateable.apply {d : Directive} (hd : d.Stateable) {number : Nat}
    {c c' : Command} (hc : c.Representable) (h : d.apply number c = .ok c') :
    c'.Representable := by
  have hvalue : d ≠ .hidesub → ∀ s, some (String.ofList d.value) = some s →
      Text.IsValue s.toList := by
    rintro hne s ⟨⟩
    rw [String.toList_ofList]
    exact hd.resolve_left hne
  obtain ⟨hnil, haliases, hparams, hlast, hhook, hpermission, hhelp⟩ := hc
  cases d with
  | hook name =>
      cases h
      exact ⟨hnil, haliases, hparams, hlast, hvalue (by simp), hpermission, hhelp⟩
  | permission name =>
      cases h
      exact ⟨hnil, haliases, hparams, hlast, hhook, hvalue (by simp), hhelp⟩
  | users word =>
      rw [Directive.apply] at h
      split at h
      · cases h
        exact ⟨hnil, haliases, hparams, hlast, hhook, hpermission, hhelp⟩
      · contradiction
  | help text =>
      cases h
      exact ⟨hnil, haliases, hparams, hlast, hhook, hpermission, hvalue (by simp)⟩
  | hidesub =>
      cases h
      exact ⟨hnil, haliases, hparams, hlast, hhook, hpermission, hhelp⟩

theorem representable_of_describe {l : Line} (hl : l.Clean) (hopens : l.opens = false)
    {c c' : Command} (hc : c.Representable) (h : l.describe c = .ok c') : c'.Representable := by
  rw [describe] at h
  cases hdirective : l.directive? with
  | none =>
      rw [hdirective] at h
      cases h
      exact hc
  | some d =>
      rw [hdirective] at h
      exact (stateable_of_directive? hl hopens hdirective).apply hc h

end Line

/-! ## The pass -/

/-- An open command is representable so far, and the commands inside it are. -/
structure OpenCommand.Writable (o : OpenCommand) : Prop where
  command : o.command.Representable
  below : ∀ d ∈ o.below, d.outline.Writable

namespace Scan

/-- All that has been read so far is representable. -/
structure Writable (s : Scan) : Prop where
  finished : ∀ d ∈ s.finished, d.outline.Writable
  stack : ∀ o ∈ s.stack, o.Writable

theorem writable_empty : ({} : Scan).Writable := ⟨by simp, by simp⟩

theorem Writable.deliver {s : Scan} (hs : s.Writable) {d : Declaration} (hd : d.outline.Writable) :
    (s.deliver d).Writable := by
  have hconcat : ∀ ds : List Declaration, (∀ e ∈ ds, e.outline.Writable) →
      ∀ e ∈ ds ++ [d], e.outline.Writable := by
    intro ds hds
    exact List.forall_mem_append.mpr ⟨hds, by simpa using hd⟩
  obtain ⟨finished, stack⟩ := s
  cases stack with
  | nil => exact ⟨hconcat finished hs.finished, hs.stack⟩
  | cons top outer =>
      obtain ⟨htop, houter⟩ := List.forall_mem_cons.mp hs.stack
      exact ⟨hs.finished,
        List.forall_mem_cons.mpr ⟨⟨htop.command, hconcat top.below htop.below⟩, houter⟩⟩

/-- One line keeps everything representable. -/
theorem Writable.step {s next : Scan} (hs : s.Writable) {l : Line} (hl : l.Clean)
    (h : s.step l = .ok next) : next.Writable := by
  obtain ⟨finished, stack⟩ := s
  cases hopens : l.opens with
  | true =>
      rw [step_header hopens] at h
      obtain ⟨c, hheader, rfl⟩ := map_eq_ok_iff.mp h
      have hnew : OpenCommand.Writable { header := l.number, command := c } :=
        ⟨Line.representable_of_readHeader hheader, by simp⟩
      exact ⟨hs.finished, List.forall_mem_cons.mpr ⟨hnew, hs.stack⟩⟩
  | false =>
      cases stack with
      | nil =>
          rw [step_outside hopens] at h
          cases h
          exact hs
      | cons top outer =>
          obtain ⟨htop, houter⟩ := List.forall_mem_cons.mp hs.stack
          cases hcloses : l.closes with
          | true =>
              rw [step_closer hopens hcloses] at h
              cases h
              have hclosed : (Declaration.mk top.command top.below).outline.Writable := by
                rw [Declaration.outline, Outline.writable_ofCommand, Declaration.outlines_eq_map,
                  Outline.writableAll_iff]
                exact ⟨htop.command, by simpa using htop.below⟩
              have hpopped : Writable ⟨finished, outer⟩ := ⟨hs.finished, houter⟩
              exact hpopped.deliver hclosed
          | false =>
              rw [step_directive hopens hcloses] at h
              obtain ⟨c, hdescribe, rfl⟩ := map_eq_ok_iff.mp h
              have hc := Line.representable_of_describe hl hopens htop.command hdescribe
              exact ⟨hs.finished, List.forall_mem_cons.mpr ⟨⟨hc, htop.below⟩, houter⟩⟩

/-- **Reading** produces nothing that could not be written. -/
theorem Writable.run {s ended : Scan} (hs : s.Writable) {lines : List Line}
    (hlines : ∀ l ∈ lines, l.Clean) (h : s.run lines = .ok ended) : ended.Writable := by
  induction lines generalizing s with
  | nil =>
      cases h
      exact hs
  | cons l rest ih =>
      cases hstep : s.step l with
      | error e =>
          rw [run_cons_of_error hstep] at h
          contradiction
      | ok next =>
          rw [run_cons_of_ok hstep] at h
          exact ih (hs.step (hlines l List.mem_cons_self) hstep)
            (fun l' hl => hlines l' (List.mem_cons_of_mem l hl)) h

end Scan

/-- The outlines of a definition can be written. -/
theorem Forest.writableAll_of_load {source : String} {ids : List CommandId} {f : Forest}
    {report : Option Diagnostic} (h : ({} : Forest).load source = .ok (ids, f, report)) :
    Outline.WritableAll f.outlines := by
  rw [load_empty] at h
  obtain ⟨s, hrun, heq⟩ := map_eq_ok_iff.mp h
  cases heq
  have hs := Scan.writable_empty.run (fun l hl => Line.clean_of_mem_ofSource hl) hrun
  rw [outlines_plantAll_empty, Declaration.outlines_eq_map, Outline.writableAll_iff]
  simpa using hs.finished

end CommandForest
