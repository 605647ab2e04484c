import CommandForest.Completion
import CommandForest.Dispatch
import CommandForest.Proofs.Change

/-!
# CommandForest.Proofs.Cells

The provider that a parameter keeps does not show as long as it is the one in
scope.  `forget` empties the cells of parameters, so that every provider is
looked up where it is needed; a command is faithful if that finds the same
providers (`Command.Faithful`).

Of a faithful command, conversion, binding, help and completion make the same
with full cells and with empty ones, and so do the walks through a branch of
faithful commands (`Branch.dispatch_forget`, `Branch.complete_forget`,
`Branch.helpLines_forget`).
-/

namespace CommandForest

/-! ## Parameters -/

namespace Parameter

/-- The parameter with an empty cell. -/
def forget (p : Parameter) : Parameter := { p with settled := none }

/-- What the parameter keeps is what it would find. -/
def Faithful (p : Parameter) (scope : Providers) : Prop :=
  p.forget.provider? scope = p.provider? scope

theorem forget_forget (p : Parameter) : p.forget.forget = p.forget := rfl

@[simp] theorem kind_forget (p : Parameter) : p.forget.kind = p.kind := rfl

theorem takesRest_forget (p : Parameter) : p.forget.takesRest = p.takesRest := rfl

theorem hidesType_forget (p : Parameter) : p.forget.hidesType = p.hidesType := rfl

theorem faithful_forget (p : Parameter) (scope : Providers) : p.forget.Faithful scope := rfl

theorem faithful_of_settled {p : Parameter} (h : p.settled = none) (scope : Providers) :
    p.Faithful scope := by
  have hsame : p.forget = p := by rw [forget, ← h]
  rw [Faithful, hsame]

theorem Faithful.settle {p : Parameter} {scope : Providers} (h : p.Faithful scope) :
    (p.settle scope).Faithful scope := by
  rw [Faithful, provider?_settle]
  exact h

/-- A provider of a new name does not come between a parameter and what it
keeps. -/
theorem Faithful.insert {p : Parameter} {scope : Providers} (h : p.Faithful scope) {q : Provider}
    (hq : scope.find? q.name = none) : p.Faithful (scope.insert q) := by
  rw [Faithful, provider?, provider?, kind_forget] at h ⊢
  cases hkind : p.kind with
  | string | int | double | multistring => rfl
  | custom name =>
      rw [hkind] at h
      dsimp only [forget] at h ⊢
      by_cases hname : q.name = name
      · subst hname
        rw [hq] at h
        cases hsettled : p.settled with
        | none => rfl
        | some kept => simp [hsettled] at h
      · rwa [Providers.find?_insert_of_ne scope hname]

section

variable {p : Parameter} {scope : Providers} (h : p.Faithful scope)

include h

theorem Faithful.convert (token : String) :
    p.forget.convert scope token = p.convert scope token := by
  rw [Parameter.convert, Parameter.convert, kind_forget, h]

theorem Faithful.yields : p.forget.yields scope = p.yields scope := by
  rw [Parameter.yields, Parameter.yields, kind_forget, h]

theorem Faithful.display : p.forget.display scope = p.display scope := by
  have htype : p.forget.shownType scope = p.shownType scope := by
    rw [shownType, shownType, kind_forget, h]
    rfl
  rw [Parameter.display, Parameter.display, hidesType_forget, htype]
  rfl

end

end Parameter

/-! ## Conversion -/

/-- Emptying the cells of faithful parameters does not change what words are
converted to, nor which providers are looked up. -/
theorem Conversion.run_forget {scope : Providers} {parameters : List Parameter}
    (h : ∀ p ∈ parameters, p.Faithful scope) (position : Nat) (tokens : List String) :
    run scope position (parameters.map Parameter.forget) tokens =
      run scope position parameters tokens := by
  induction parameters generalizing position tokens with
  | nil => rfl
  | cons p parameters ih =>
      obtain ⟨hp, hothers⟩ := List.forall_mem_cons.mp h
      cases tokens with
      | nil => rw [List.map_cons, run, run, Parameter.takesRest_forget]
      | cons token tokens =>
          rw [List.map_cons, run, run, Parameter.takesRest_forget, hp.convert, ih hothers]

theorem convertAll_forget {scope : Providers} {parameters : List Parameter}
    (h : ∀ p ∈ parameters, p.Faithful scope) (tokens : List String) :
    convertAll scope (parameters.map Parameter.forget) tokens =
      convertAll scope parameters tokens := by
  have hends : endsInRest (parameters.map Parameter.forget) = endsInRest parameters := by
    rw [endsInRest, endsInRest, List.getLast?_map]
    cases parameters.getLast? <;> rfl
  have hfits : fits (parameters.map Parameter.forget) tokens.length =
      fits parameters tokens.length := by
    rw [fits, fits, List.length_map, hends]
  rw [convertAll, convertAll, hfits, Conversion.run_forget h]

/-! ## Commands -/

namespace Command

/-- The command with empty cells. -/
def forget (c : Command) : Command := { c with parameters := c.parameters.map Parameter.forget }

/-- What the parameters keep is what they would find. -/
def Faithful (c : Command) : Prop := ∀ p ∈ c.parameters, p.Faithful c.providers

theorem forget_forget (c : Command) : c.forget.forget = c.forget := by
  simp [forget, Parameter.forget_forget]

theorem faithful_forget (c : Command) : c.forget.Faithful := by
  intro p hp
  obtain ⟨q, -, rfl⟩ := List.mem_map.mp hp
  exact q.faithful_forget _

/-- Parameters that settle are told apart by their cells only. -/
theorem forget_settle (c : Command) (positions : List Nat) :
    (c.settle positions).forget = c.forget := by
  simp only [forget, settle]
  congr 1
  apply List.ext_getElem?
  intro i
  rw [List.getElem?_map, List.getElem?_map, List.getElem?_mapIdx]
  cases c.parameters[i]? with
  | none => rfl
  | some p =>
      simp only [Option.map_some]
      split <;> rfl

theorem Faithful.settle {c : Command} (h : c.Faithful) (positions : List Nat) :
    (c.settle positions).Faithful := by
  intro p hp
  obtain ⟨i, hi, hsettled⟩ := List.mem_mapIdx.mp hp
  have hq := h _ (List.getElem_mem hi)
  rw [← hsettled]
  split
  · exact hq.settle
  · exact hq

/-- A command stays faithful unless a provider replaces one that it sees. -/
theorem Faithful.of_becomes {c d : Command} (h : c.Faithful) {provider : Option Provider}
    {handlers : Option Handlers} (hd : c.Becomes provider handlers d)
    (hnew : ∀ q, provider = some q → c.providers.find? q.name = none) : d.Faithful := by
  obtain ⟨positions, hpositions⟩ := hd.parameters
  intro p hp
  rw [hpositions] at hp
  have hkept : p.Faithful c.providers := h.settle positions p hp
  rw [hd.providers]
  cases provider with
  | none => exact hkept
  | some q => exact hkept.insert (hnew q rfl)

section

variable {c : Command} (h : c.Faithful)

include h

theorem Faithful.slots : c.forget.slots = c.slots := by
  simp only [Command.slots, forget, List.map_map]
  exact List.map_congr_left fun p hp => (h p hp).yields

theorem Faithful.resolve (handlers : Handlers) :
    c.forget.resolve handlers = c.resolve handlers := by
  rw [Command.resolve, Command.resolve, h.slots]
  rfl

theorem Faithful.bindReport (handlers : Handlers) :
    c.forget.bindReport handlers = c.bindReport handlers := by
  rw [Command.bindReport, Command.bindReport, h.resolve]
  rfl

/-- A faithful command is bound to the same with empty cells. -/
theorem Faithful.forget_bind (handlers : Handlers) :
    (c.forget.bind handlers).forget = (c.bind handlers).forget := by
  have hbind : ∀ d : Command, (d.bind handlers).forget =
      { d.forget with binding := d.resolve handlers } := by
    intro d
    rw [Command.bind]
    split
    · rw [settleAll_eq]
      exact congrArg (fun e : Command => { e with binding := d.resolve handlers })
        (d.forget_settle _)
    · rfl
  rw [hbind, hbind, h.resolve, c.forget_forget]

theorem Faithful.attempt (sender : Sender) (id : CommandId) (tokens : List String) :
    c.forget.attempt sender id tokens = c.attempt sender id tokens := by
  have hconversion : convertAll c.forget.providers c.forget.parameters tokens =
      convertAll c.providers c.parameters tokens := convertAll_forget h tokens
  rw [Command.attempt, Command.attempt, hconversion]
  rfl

theorem Faithful.parameterList : c.forget.parameterList = c.parameterList := by
  have hshown : (c.parameters.map Parameter.forget).map (fun p => p.display c.providers) =
      c.parameters.map fun p => p.display c.providers := by
    rw [List.map_map]
    exact List.map_congr_left fun p hp => (h p hp).display
  rw [Command.parameterList, Command.parameterList, ← hshown]
  rfl

theorem Faithful.helpLine? (m : Messages) (sender : Sender) (id : CommandId) (path : String)
    (top : Bool) : c.forget.helpLine? m sender id path top = c.helpLine? m sender id path top := by
  have hshown : c.forget.shownTypes = c.shownTypes := by
    simp only [shownTypes, forget, List.zipIdx_map, List.filter_map, List.map_map]
    rfl
  have husage : c.forget.usage path = c.usage path := by
    simp only [usage, synopsis, h.parameterList]
    rfl
  rw [Command.helpLine?, Command.helpLine?, hshown, husage]
  rfl

theorem Faithful.providerAt (position : Nat) :
    c.forget.providerAt position = c.providerAt position := by
  rw [Command.providerAt, Command.providerAt, forget, List.getElem?_map]
  cases hp : c.parameters[position]? with
  | none => rfl
  | some p => exact h p (List.mem_of_getElem? hp)

end

end Command

/-! ## Branches -/

namespace Branch

mutual

/-- The branch with empty cells. -/
def forget : Branch → Branch
  | mk id c bs => mk id c.forget (forgetAll bs)

/-- The branches with empty cells. -/
def forgetAll : List Branch → List Branch
  | [] => []
  | b :: bs => b.forget :: forgetAll bs

end

theorem id_forget (b : Branch) : b.forget.id = b.id := by
  cases b
  rfl

theorem command_forget (b : Branch) : b.forget.command = b.command.forget := by
  cases b
  rfl

theorem forgetAll_eq_map (bs : List Branch) : forgetAll bs = bs.map forget := by
  induction bs with
  | nil => rfl
  | cons b bs ih => rw [forgetAll, ih, List.map_cons]

/-- All commands of the branch are faithful. -/
def Faithful (b : Branch) : Prop := ∀ e ∈ b.entries, e.2.Faithful

theorem faithful_mk_iff {id : CommandId} {c : Command} {bs : List Branch} :
    (mk id c bs).Faithful ↔ c.Faithful ∧ ∀ b ∈ bs, b.Faithful := by
  rw [Faithful, entries, List.forall_mem_cons]
  constructor
  · rintro ⟨hc, hbs⟩
    exact ⟨hc, fun b hb e he => hbs e (mem_entriesOfAll.mpr ⟨b, hb, he⟩)⟩
  · rintro ⟨hc, hbs⟩
    refine ⟨hc, fun e he => ?_⟩
    obtain ⟨b, hb, heb⟩ := mem_entriesOfAll.mp he
    exact hbs b hb e heb

/-! ### Help -/

mutual

theorem helpLinesFrom_forget (m : Messages) (sender : Sender) (path : String) (top : Bool) :
    (b : Branch) → b.Faithful →
    b.forget.helpLinesFrom m sender path top = b.helpLinesFrom m sender path top
  | mk id c bs, h => by
      obtain ⟨hc, hbs⟩ := faithful_mk_iff.mp h
      have hbelow := helpLinesOfAll_forget m sender (c.extendPath path) bs hbs
      rw [forget, helpLinesFrom, helpLinesFrom, hc.helpLine?]
      show (if c.hidesSubcommands && !top then _ else
        _ ++ helpLinesOfAll m sender (c.extendPath path) (forgetAll bs)) = _
      rw [hbelow]

theorem helpLinesOfAll_forget (m : Messages) (sender : Sender) (path : String) :
    (bs : List Branch) → (∀ b ∈ bs, b.Faithful) →
    helpLinesOfAll m sender path (forgetAll bs) = helpLinesOfAll m sender path bs
  | [], _ => rfl
  | b :: bs, h => by
      obtain ⟨hb, hbs⟩ := List.forall_mem_cons.mp h
      rw [forgetAll, helpLinesOfAll, helpLinesOfAll, helpLinesFrom_forget m sender path false b hb,
        helpLinesOfAll_forget m sender path bs hbs]

end

/-- **Help** shows the same with empty cells. -/
theorem helpLines_forget {b : Branch} (h : b.Faithful) (m : Messages) (sender : Sender) :
    b.forget.helpLines m sender = b.helpLines m sender :=
  helpLinesFrom_forget m sender "" true b h

/-! ### Completion -/

theorem candidates_forget {c : Command} (h : c.Faithful) (children : List Command)
    (sender : Sender) (count : Nat) (typed start : String) :
    c.forget.candidates (children.map Command.forget) sender count typed start =
      c.candidates children sender count typed start := by
  have hnames : (children.map Command.forget).flatMap (fun d => d.offeredNames typed start) =
      children.flatMap fun child => child.offeredNames typed start := by
    rw [List.flatMap_map]
    rfl
  rw [Command.candidates, Command.candidates, h.providerAt, hnames]
  rfl

mutual

/-- **Completion** offers the same with empty cells. -/
theorem complete_forget (sender : Sender) :
    (b : Branch) → b.Faithful → (tokens : List String) →
    b.forget.complete sender tokens = b.complete sender tokens
  | mk id c bs, h, tokens => by
      obtain ⟨hc, hbs⟩ := faithful_mk_iff.mp h
      cases tokens with
      | nil => rw [forget, complete, complete]
      | cons first rest =>
          have hbelow := completeAmong_forget sender bs hbs (Text.lowered (Text.trimmed first)) rest
          have hchildren : (forgetAll bs).map command = (bs.map command).map Command.forget := by
            rw [forgetAll_eq_map, List.map_map, List.map_map]
            exact List.map_congr_left fun b _ => b.command_forget
          have hdenial : c.forget.denial sender = c.denial sender := rfl
          rw [forget, complete, complete, hchildren, hbelow, hdenial, hc.providerAt]
          dsimp only
          rw [candidates_forget hc]

theorem completeAmong_forget (sender : Sender) :
    (bs : List Branch) → (∀ b ∈ bs, b.Faithful) → (name : String) → (rest : List String) →
    completeAmong sender (forgetAll bs) name rest = completeAmong sender bs name rest
  | [], _, _, _ => rfl
  | b :: bs, h, name, rest => by
      obtain ⟨hb, hbs⟩ := List.forall_mem_cons.mp h
      have hanonymous : b.forget.command.isAnonymous = b.command.isAnonymous := by
        rw [command_forget]
        rfl
      have hnamed : b.forget.command.answersTo name = b.command.answersTo name := by
        rw [command_forget]
        rfl
      rw [forgetAll, completeAmong, completeAmong, hanonymous, hnamed,
        complete_forget sender b hb rest, completeAmong_forget sender bs hbs name rest]

end

/-! ### Dispatch -/

theorem helpEvents_forget {f g : Forest} (hmessages : g.messages = f.messages)
    (hnames : ∀ id, g.shownName id = f.shownName id) {b : Branch} (h : b.Faithful)
    (sender : Sender) : g.helpEvents b.forget sender = f.helpEvents b sender := by
  rw [Forest.helpEvents, Forest.helpEvents, id_forget, hnames, hmessages, helpLines_forget h]

mutual

/-- **Dispatch** takes the same way with empty cells. -/
theorem dispatch_forget {f g : Forest} (hmessages : g.messages = f.messages)
    (hnames : ∀ id, g.shownName id = f.shownName id) (sender : Sender) :
    (b : Branch) → b.Faithful → (tokens : List String) →
    b.forget.dispatch g sender tokens = b.dispatch f sender tokens
  | mk id c bs, h, tokens => by
      obtain ⟨hc, hbs⟩ := faithful_mk_iff.mp h
      have hhelp := helpEvents_forget hmessages hnames h sender
      have hdenial : c.forget.denial sender = c.denial sender := rfl
      have hanonymous : c.forget.isAnonymous = c.isAnonymous := rfl
      rw [forget] at hhelp ⊢
      cases tokens with
      | nil => rw [dispatch, dispatch, hdenial, hc.attempt, hhelp]
      | cons first rest =>
          rw [dispatch, dispatch, hdenial, hc.attempt, hhelp, hanonymous]
          dsimp only
          rw [dispatchAmong_forget hmessages hnames sender bs hbs first rest]

theorem dispatchAmong_forget {f g : Forest} (hmessages : g.messages = f.messages)
    (hnames : ∀ id, g.shownName id = f.shownName id) (sender : Sender) :
    (bs : List Branch) → (∀ b ∈ bs, b.Faithful) → (first : String) → (rest : List String) →
    dispatchAmong g sender (forgetAll bs) first rest = dispatchAmong f sender bs first rest
  | [], _, _, _ => by rw [forgetAll, dispatchAmong, dispatchAmong]
  | b :: bs, h, first, rest => by
      obtain ⟨hb, hbs⟩ := List.forall_mem_cons.mp h
      have hanonymous : b.forget.command.isAnonymous = b.command.isAnonymous := by
        rw [command_forget]
        rfl
      have hnamed : b.forget.command.answersTo first = b.command.answersTo first := by
        rw [command_forget]
        rfl
      rw [forgetAll, dispatchAmong, dispatchAmong, hanonymous, hnamed,
        dispatch_forget hmessages hnames sender b hb (first :: rest),
        dispatch_forget hmessages hnames sender b hb rest,
        dispatchAmong_forget hmessages hnames sender bs hbs first rest]

end

end Branch

end CommandForest
