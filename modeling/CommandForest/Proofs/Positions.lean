import CommandForest.Proofs.Signature
import CommandForest.Proofs.WordsLeft

/-!
# CommandForest.Proofs.Positions

Conversion by position.  `Conversion.run` walks along the parameters and the
words side by side.  Here the words are looked up by their positions instead:

* conversion succeeds exactly if the words fill the parameters
  (`Filled`, `isSome_convertAll_iff`), and each value comes from the words at
  its position (`Parameter.ReadsAt`, `readsAt_of_run`);
* looking up a word by the position of its parameter never fails once the
  number of words was found to fit (`convertAt_eq`).

So a command that stands alone calls its handler for the words that fill its
parameters, and shows its help for all others
(`actions_execute_of_not_converted`).
-/

namespace CommandForest

/-! ## One position -/

namespace Parameter

/-- The word converts for the parameter by itself. -/
def Takes (p : Parameter) (scope : Providers) (token : String) : Prop :=
  ∃ v, p.convert scope token = .value v

/-- The value comes from the word at this position alone, or from all the words
from there on if the parameter takes the rest of the line. -/
def ReadsAt (p : Parameter) (scope : Providers) (tokens : List String) (i : Nat) (v : Value) :
    Prop :=
  if p.takesRest then v = Conversion.restOfLine (tokens.drop i)
  else ∃ token, tokens[i]? = some token ∧ p.convert scope token = .value v

theorem readsAt_cons_succ {p : Parameter} {scope : Providers} {token : String}
    {tokens : List String} {i : Nat} {v : Value} :
    p.ReadsAt scope (token :: tokens) (i + 1) v ↔ p.ReadsAt scope tokens i v := by
  simp [ReadsAt]

/-- What is read has the kind that the parameter yields. -/
theorem ReadsAt.yields {p : Parameter} {scope : Providers} {tokens : List String} {i : Nat}
    {v : Value} (h : p.ReadsAt scope tokens i v) : p.yields scope = some v.kind := by
  unfold ReadsAt at h
  split at h
  · next htakes =>
      rw [h, yields_of_takesRest htakes]
      rfl
  · obtain ⟨token, -, hconvert⟩ := h
    exact yields_of_convert hconvert

end Parameter

/-! ## All positions -/

/-- The number of words fits, and each word that a parameter converts by itself
does convert. -/
structure Filled (scope : Providers) (parameters : List Parameter) (tokens : List String) :
    Prop where
  count : tokens.length = parameters.length ∨
    parameters.length < tokens.length ∧ ∃ p, parameters.getLast? = some p ∧ p.takesRest = true
  each : ∀ (i : Nat) (p : Parameter) (token : String), parameters[i]? = some p →
    tokens[i]? = some token → p.takesRest = false → p.Takes scope token

theorem endsInRest_iff {parameters : List Parameter} :
    endsInRest parameters = true ↔ ∃ p, parameters.getLast? = some p ∧ p.takesRest = true := by
  unfold endsInRest
  cases parameters.getLast? <;> simp

theorem fits_iff {parameters : List Parameter} {count : Nat} :
    fits parameters count = true ↔ count = parameters.length ∨
      parameters.length < count ∧ ∃ p, parameters.getLast? = some p ∧ p.takesRest = true := by
  simp [fits, ← endsInRest_iff, and_comm]

theorem length_le_of_fits {parameters : List Parameter} {count : Nat}
    (h : fits parameters count = true) : parameters.length ≤ count := by
  rw [fits_iff] at h
  omega

namespace Conversion

/-- A word that converts is followed by the conversion of the others. -/
theorem run_of_convert {scope : Providers} {position : Nat} {p : Parameter}
    {parameters : List Parameter} (hrest : p.takesRest = false) {token : String} {v : Value}
    (h : p.convert scope token = .value v) (tokens : List String) :
    (run scope position (p :: parameters) (token :: tokens)).values =
      (run scope (position + 1) parameters tokens).values.map (v :: ·) := by
  simp [run, hrest, h]

/-- A word that does not convert ends the attempt. -/
theorem run_of_not_takes {scope : Providers} {position : Nat} {p : Parameter}
    {parameters : List Parameter} (hrest : p.takesRest = false) {token : String}
    (h : ¬ p.Takes scope token) (tokens : List String) :
    (run scope position (p :: parameters) (token :: tokens)).values = none := by
  rw [run, hrest]
  cases hconvert : p.convert scope token with
  | value v => exact absurd ⟨v, hconvert⟩ h
  | refused | unresolved provider => simp

/-- **Each value** comes from the words at its position. -/
theorem readsAt_of_run {scope : Providers} {position : Nat} {parameters : List Parameter}
    {tokens : List String} {values : List Value}
    (h : (run scope position parameters tokens).values = some values) {i : Nat} {p : Parameter}
    {v : Value} (hp : parameters[i]? = some p) (hv : values[i]? = some v) :
    p.ReadsAt scope tokens i v := by
  induction parameters generalizing position tokens values i with
  | nil => simp at hp
  | cons q parameters ih =>
      cases hrest : q.takesRest with
      | true =>
          rw [run_of_takesRest hrest] at h
          cases h
          -- this is the only value
          cases i with
          | zero =>
              simp only [List.getElem?_cons_zero, Option.some.injEq] at hp hv
              subst hp hv
              simp [Parameter.ReadsAt, hrest]
          | succ i => simp at hv
      | false =>
          cases tokens with
          | nil => simp [run, hrest] at h
          | cons token tokens =>
              by_cases htakes : q.Takes scope token
              · obtain ⟨first, hfirst⟩ := htakes
                rw [run_of_convert hrest hfirst] at h
                obtain ⟨later, hlater, rfl⟩ := Option.map_eq_some_iff.mp h
                cases i with
                | zero =>
                    simp only [List.getElem?_cons_zero, Option.some.injEq] at hp hv
                    subst hp hv
                    simp [Parameter.ReadsAt, hrest, hfirst]
                | succ i =>
                    rw [Parameter.readsAt_cons_succ]
                    exact ih hlater hp hv
              · rw [run_of_not_takes hrest htakes] at h
                contradiction

/-- Words that all convert, one for each parameter at least, are enough. -/
theorem isSome_run {scope : Providers} (position : Nat) {parameters : List Parameter}
    {tokens : List String} (hlength : parameters.length ≤ tokens.length)
    (heach : ∀ (i : Nat) (p : Parameter) (token : String), parameters[i]? = some p →
      tokens[i]? = some token → p.takesRest = false → p.Takes scope token) :
    (run scope position parameters tokens).values.isSome = true := by
  induction parameters generalizing position tokens with
  | nil => simp [run]
  | cons p parameters ih =>
      cases hrest : p.takesRest with
      | true => simp [run_of_takesRest hrest]
      | false =>
          cases tokens with
          | nil => simp at hlength
          | cons token tokens =>
              obtain ⟨v, hconvert⟩ := heach 0 p token (by simp) (by simp) hrest
              have hlater := ih (position + 1) (Nat.le_of_succ_le_succ hlength)
                fun i q word hq hword => heach (i + 1) q word hq hword
              simp [run_of_convert hrest hconvert, hlater]

end Conversion

section

variable {scope : Providers} {parameters : List Parameter} {tokens : List String}

/-- What a successful conversion went through. -/
theorem run_of_convertAll {values : List Value}
    (h : (convertAll scope parameters tokens).values = some values) :
    fits parameters tokens.length = true ∧
      (Conversion.run scope 0 parameters tokens).values = some values := by
  unfold convertAll at h
  split at h
  · next hfits => exact ⟨hfits, h⟩
  · contradiction

variable (hrest : ∀ p ∈ parameters.dropLast, p.takesRest = false)

include hrest

theorem length_of_run {position : Nat} {values : List Value}
    (h : (Conversion.run scope position parameters tokens).values = some values) :
    values.length = parameters.length := by
  simpa using (congrArg List.length (Conversion.kinds_of_run hrest h)).symm

/-- The last value, if its parameter takes the rest of the line. -/
theorem getLast?_of_convertAll {values : List Value} {p : Parameter}
    (hp : parameters.getLast? = some p) (htakes : p.takesRest = true)
    (h : (convertAll scope parameters tokens).values = some values) :
    values.getLast? = some (Conversion.restOfLine (tokens.drop (parameters.length - 1))) := by
  obtain ⟨-, hrun⟩ := run_of_convertAll h
  have hlength := length_of_run hrest hrun
  rw [List.getLast?_eq_getElem?] at hp ⊢
  have hlt := (List.getElem?_eq_some_iff.mp hp).1
  have hv := List.getElem?_eq_getElem (l := values) (i := parameters.length - 1) (by omega)
  have hreads := Conversion.readsAt_of_run hrun hp hv
  simp only [Parameter.ReadsAt, htakes, if_true] at hreads
  rw [hlength, hv, hreads]

/-- **All or nothing**: conversion succeeds exactly if the words fill the
parameters. -/
theorem isSome_convertAll_iff :
    (convertAll scope parameters tokens).values.isSome = true ↔
      Filled scope parameters tokens := by
  constructor
  · intro h
    obtain ⟨values, hvalues⟩ := Option.isSome_iff_exists.mp h
    obtain ⟨hfits, hrun⟩ := run_of_convertAll hvalues
    refine ⟨fits_iff.mp hfits, fun i p token hp htoken hword => ?_⟩
    have hlength := length_of_run hrest hrun
    have hi : i < values.length := by
      rw [hlength]
      exact (List.getElem?_eq_some_iff.mp hp).1
    have hreads := Conversion.readsAt_of_run hrun hp (List.getElem?_eq_getElem hi)
    simp only [Parameter.ReadsAt, hword, htoken, Option.some.injEq] at hreads
    obtain ⟨_, rfl, hconvert⟩ := hreads
    exact ⟨_, hconvert⟩
  · rintro ⟨hcount, heach⟩
    have hfits := fits_iff.mpr hcount
    rw [convertAll, if_pos hfits]
    exact Conversion.isSome_run 0 (length_le_of_fits hfits) heach

end

/-! ## Looking words up -/

/-- Converts from position `i` on, looking up each word by its position. It is
an error to look beyond the words, with the position as the error. -/
def runAt (scope : Providers) (tokens : List String) :
    Nat → List Parameter → Except Nat (Option (List Value))
  | _, [] => .ok (some [])
  | i, p :: parameters =>
    if p.takesRest then
      if i ≤ tokens.length then .ok (some [Conversion.restOfLine (tokens.drop i)]) else .error i
    else
      match tokens[i]? with
      | none => .error i
      | some token =>
        match p.convert scope token with
        | .unresolved _ | .refused => .ok none
        | .value v => (runAt scope tokens (i + 1) parameters).map fun later => later.map (v :: ·)

/-- Converts words for a list of parameters, looking up each word by its
position. -/
def convertAt (scope : Providers) (parameters : List Parameter) (tokens : List String) :
    Except Nat (Option (List Value)) :=
  if fits parameters tokens.length then runAt scope tokens 0 parameters else .ok none

/-- With a word for each parameter, no position is beyond the words. -/
theorem runAt_eq {scope : Providers} {tokens : List String} {parameters : List Parameter} {i : Nat}
    (position : Nat) (h : i + parameters.length ≤ tokens.length) :
    runAt scope tokens i parameters =
      .ok (Conversion.run scope position parameters (tokens.drop i)).values := by
  induction parameters generalizing i position with
  | nil => simp [runAt, Conversion.run]
  | cons p parameters ih =>
      have hlt : i < tokens.length := by simp only [List.length_cons] at h; omega
      have hlater := ih (i := i + 1) (position + 1) (by simp only [List.length_cons] at h; omega)
      cases hrest : p.takesRest with
      | true => simp [runAt, hrest, Conversion.run_of_takesRest hrest, Nat.le_of_lt hlt]
      | false =>
          rw [List.drop_eq_getElem_cons hlt]
          cases hconvert : p.convert scope tokens[i] with
          | refused | unresolved provider =>
              simp [runAt, hrest, hlt, hconvert, Conversion.run]
          | value v =>
              rw [Conversion.run_of_convert hrest hconvert]
              simp [runAt, hrest, hlt, hconvert, hlater, Except.map]

/-- **No word is missing**: looking words up by their positions comes to the
same, and never looks beyond the words. -/
theorem convertAt_eq (scope : Providers) (parameters : List Parameter) (tokens : List String) :
    convertAt scope parameters tokens = .ok (convertAll scope parameters tokens).values := by
  unfold convertAt convertAll
  split
  · next hfits =>
      have hlength := length_le_of_fits hfits
      simpa using runAt_eq (i := 0) 0 (by omega)
  · rfl

/-! ## A command by itself -/

/-- The command has nothing below it, admits everyone and is not anonymous. -/
structure Command.StandsAlone (c : Command) : Prop where
  children : c.children = []
  permission : c.permission = none
  audience : c.audience = .everyone
  named : c.isAnonymous = false

theorem Command.StandsAlone.admits {c : Command} (h : c.StandsAlone) (sender : Sender) :
    c.Admits sender := by
  simp [Admits, h.permission, h.audience, Audience.admits]

namespace Forest

/-- Without commands below, words that do not convert end in help, or nowhere
if there are any and the command is anonymous. -/
theorem actions_execute_of_childless {f : Forest} (hf : f.WellFormed) {id : CommandId} {c : Command}
    (hc : f.find? id = some c) (hchildren : c.children = []) {sender : Sender}
    (hadmits : c.Admits sender) {tokens : List String}
    (h : (convertAll c.providers c.parameters tokens).values = none) :
    (f.execute id sender tokens).actions =
      if c.isAnonymous = true ∧ tokens ≠ [] then [] else [.helped id] := by
  obtain ⟨bs, hbranch, hb⟩ := hf.exists_branch hc
  have hnone : bs = [] := by
    rw [(hb.find? hf).2, hchildren]
    rfl
  subst hnone
  have hdenial := Command.denial_eq_none_iff.mpr hadmits
  obtain ⟨hundone, hsilent⟩ := Branch.attempt_of_not_converted h sender id
  have hhelp : actionsOf (f.helpEvents (.mk id c []) sender) = [.helped id] :=
    actionsOf_helpEvents hf hb sender
  refine (execute_eq_dispatch hb sender tokens).2.trans ?_
  cases tokens with
  | nil =>
      rw [Branch.dispatch_nil hdenial hundone, actionsOf_append, hsilent, if_neg (by simp)]
      exact hhelp
  | cons first rest =>
      have hbelow : (Branch.dispatchAmong f sender [] first rest).handled = false := by
        rw [Branch.dispatchAmong]
      rw [Branch.dispatch_of_not_below hdenial hundone hbelow, Branch.dispatchAmong]
      cases c.isAnonymous <;> simp [hsilent, hhelp]

section

variable {f : Forest} (hf : f.WellFormed) {id : CommandId} {c : Command}
  (hc : f.find? id = some c) (halone : c.StandsAlone) {tokens : List String}

include hf hc halone

/-- A command that stands alone shows its help then. -/
theorem actions_execute_of_not_converted
    (h : (convertAll c.providers c.parameters tokens).values = none) (sender : Sender) :
    (f.execute id sender tokens).actions = [.helped id] := by
  rw [actions_execute_of_childless hf hc halone.children (halone.admits sender) h,
    if_neg (by simp [halone.named])]

/-- The sender reads the help text then, once. -/
theorem messages_execute_of_not_converted
    (h : (convertAll c.providers c.parameters tokens).values = none) (sender : Sender) :
    ∃ text, (f.help id sender).1 = some text ∧ (f.execute id sender tokens).messages = [text] := by
  have hactions := actions_execute_of_not_converted hf hc halone h sender
  obtain ⟨⟨_, text, -, -, htext⟩, -⟩ := performs_of_actions_execute hf hactions
  have hmessages := messages_execute_eq_sent hf id sender tokens
  exact ⟨text, htext, by simp [hmessages, hactions, Action.sent, htext]⟩

end

/-- **Conversion is all or nothing, and by position**: take parameters of which
only the last one may take the rest of the line.  Words convert exactly if they
fill the parameters.  Then there is one value for each parameter, which comes
from the words at its position and has the kind that the parameter yields.
Words are never looked up where there are none.  So a command that stands alone
and is bound to a handler calls it, once, for the words that fill its
parameters; for all others it calls nothing and sends its help text, once. -/
theorem converts_by_position {parameters : List Parameter}
    (hrest : ∀ p ∈ parameters.dropLast, p.takesRest = false) (scope : Providers)
    (tokens : List String) :
    let converted := (convertAll scope parameters tokens).values
    (converted.isSome = true ↔ Filled scope parameters tokens) ∧
    (∀ values, converted = some values →
      values.length = parameters.length ∧
      ∀ (i : Nat) p v, parameters[i]? = some p → values[i]? = some v →
        p.ReadsAt scope tokens i v ∧ p.yields scope = some v.kind) ∧
    convertAt scope parameters tokens = .ok converted ∧
    (∀ (f : Forest) id c handler sender, f.Reachable → f.find? id = some c → c.StandsAlone →
      c.parameters = parameters → c.providers = scope → c.binding = .bound handler →
      let o := f.execute id sender tokens
      (Filled scope parameters tokens → ∃ values, converted = some values ∧
        o.actions = [.answered id (c.hook.getD "") values (handler.respond sender values)]) ∧
      (¬ Filled scope parameters tokens → o.actions = [.helped id] ∧
        ∃ text, (f.help id sender).1 = some text ∧ o.messages = [text])) := by
  intro converted
  have hsome : converted.isSome = true ↔ Filled scope parameters tokens :=
    isSome_convertAll_iff hrest
  refine ⟨hsome, ?_, convertAt_eq scope parameters tokens, ?_⟩
  · intro values hvalues
    obtain ⟨-, hrun⟩ := run_of_convertAll hvalues
    refine ⟨length_of_run hrest hrun, fun i p v hp hv => ?_⟩
    have hreads := Conversion.readsAt_of_run hrun hp hv
    exact ⟨hreads, hreads.yields⟩
  · rintro f id c handler sender hf hc halone rfl rfl hbound
    have hwf := hf.wellFormed
    constructor
    · intro hfilled
      obtain ⟨values, hvalues⟩ := Option.isSome_iff_exists.mp (hsome.mpr hfilled)
      obtain ⟨hhandled, hactions⟩ := actionsOf_attempt_of_bound hvalues sender id hbound
      have hlog := log_execute_of_attempt hwf hc (halone.admits sender) hhandled
      refine ⟨values, hvalues, ?_⟩
      rw [Outcome.actions, hlog, hactions]
    · intro hunfilled
      have hnone : converted = none := by simpa [← hsome] using hunfilled
      exact ⟨actions_execute_of_not_converted hwf hc halone hnone sender,
        messages_execute_of_not_converted hwf hc halone hnone sender⟩

/-- A number of times, and what to say. -/
def crierParameters : List Parameter := [⟨"int", "times", none⟩, ⟨"multistring", "text", none⟩]

/-- A command that stands alone, bound to a handler that shows its values. -/
def crier : Forest :=
  (({} : Forest).perform (.appendRoot
    { aliases := ["cry"], hook := some "cry", parameters := crierParameters })).perform
    (.bind 0 ⟨[("cry", .echo "cry")]⟩)

/-- An empty word counts, and is kept in the rest of the line.  Words that do
not convert end in help. -/
theorem converts_by_position_crier :
    let sender := Sender.ofGrants .player []
    let values := [Value.int 3, .string "oyez  oyez"]
    (∀ p ∈ crierParameters.dropLast, p.takesRest = false) ∧ crier.Reachable ∧
    (crier.execute 0 sender ["3", "oyez", "", "oyez"]).actions =
      [.answered 0 "cry" values ((Handler.echo "cry").respond sender values)] ∧
    (crier.execute 0 sender ["often", "oyez"]).actions = [.helped 0] := by
  intro sender values
  have hrest : ∀ p ∈ crierParameters.dropLast, p.takesRest = false := by decide
  have hreachable : crier.Reachable := .after _ (.after _ .empty)
  obtain ⟨hfilled, -, -, hrun⟩ := converts_by_position hrest {} ["3", "oyez", "", "oyez"]
  obtain ⟨hunfilled, -, -, hhelp⟩ := converts_by_position hrest {} ["often", "oyez"]
  have hcall := (hrun crier 0 _ _ sender hreachable rfl ⟨rfl, rfl, rfl, by decide⟩ rfl rfl rfl).1
    (hfilled.mp rfl)
  have hshow := (hhelp crier 0 _ _ sender hreachable rfl ⟨rfl, rfl, rfl, by decide⟩ rfl rfl rfl).2
    fun h => Bool.false_ne_true (hunfilled.mpr h)
  obtain ⟨_, hvalues, hactions⟩ := hcall
  cases hvalues
  exact ⟨hrest, hreachable, hactions, hshow.1⟩

end Forest

end CommandForest
