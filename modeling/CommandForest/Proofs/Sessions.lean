import CommandForest.Proofs.Afresh
import CommandForest.Terminal.Setup

/-!
# CommandForest.Proofs.Sessions

Terminal sessions: what a session is set up with (`Setup.exists_of_load`), and
that its lines do not depend on each other.  Setting a session up looks no
provider up, since echoing handlers take any values, so all cells are empty
(`Setup.unsettled_of_load`); and lines only ever fill them.
-/

namespace CommandForest

/-! ## Attempts one after the other -/

theorem bind_eq_ok_iff {ε α β : Type} {x : Except ε α} {k : α → Except ε β} {b : β} :
    x >>= k = .ok b ↔ ∃ a, x = .ok a ∧ k a = .ok b := by
  cases x with
  | error e => simp [Bind.bind, Except.bind]
  | ok a => simp [Bind.bind, Except.bind]

theorem mapError_eq_ok_iff {ε ε' α : Type} {x : Except ε α} {k : ε → ε'} {a : α} :
    x.mapError k = .ok a ↔ x = .ok a := by
  cases x <;> simp [Except.mapError]

/-- What holds at first and is kept by every step holds in the end. -/
theorem foldlM_induction {ε α β : Type} {P : β → Prop} {act : β → α → Except ε β}
    (hact : ∀ b a b', act b a = .ok b' → P b → P b') {as : List α} {b b' : β}
    (h : as.foldlM act b = .ok b') (hb : P b) : P b' := by
  induction as generalizing b with
  | nil => cases h; exact hb
  | cons a as ih =>
      rw [List.foldlM_cons, bind_eq_ok_iff] at h
      obtain ⟨c, hc, hrest⟩ := h
      exact ih hrest (hact b a c hc hb)

/-! ## Forests without a provider kept -/

namespace Forest

/-- No parameter of the forest has settled. -/
def Unsettled (f : Forest) : Prop :=
  ∀ n c, f.find? n = some c → ∀ p ∈ c.parameters, p.settled = none

theorem Unsettled.faithful {f : Forest} (h : f.Unsettled) : f.Faithful :=
  fun n c hc p hp => Parameter.faithful_of_settled (h n c hc p hp) _

theorem Unsettled.of_provide {f g : Forest} (h : f.Unsettled) (hf : f.WellFormed) {id : CommandId}
    {p : Provider} (hg : f.provide id p = .ok g) : g.Unsettled := by
  intro n d hd
  rw [hf.find?_of_provide hg] at hd
  obtain ⟨c, hc, rfl⟩ := Option.map_eq_some_iff.mp hd
  split
  · exact h n c hc
  · exact h n c hc

/-- Handlers that take any values leave the parameters alone. -/
theorem Unsettled.of_registerRoots {f : Forest} (h : f.Unsettled) (hf : f.WellFormed)
    {labels : Labels} {qualifier : String} {handlers : Handlers} {r : Registration}
    (hhandlers : ∀ hook handler, handlers.find? hook = some handler → handler.signature = none)
    (hr : f.registerRoots labels qualifier handlers = .ok r) : r.forest.Unsettled := by
  intro n d hd
  have hchecks : ∀ c : Command, c.checksSignature handlers = false := by
    intro c
    rw [Command.checksSignature]
    cases hfound : c.hook.bind handlers.find? with
    | none => rfl
    | some handler =>
        obtain ⟨hook, -, hhook⟩ := Option.bind_eq_some_iff.mp hfound
        rw [Option.bind_some, hhandlers hook handler hhook]
        rfl
  rw [hf.find?_of_registerEach hf.nodup_flatMap_descendants hr] at hd
  obtain ⟨c, hc, rfl⟩ := Option.map_eq_some_iff.mp hd
  split
  · rw [Command.bind, hchecks]
    exact h n c hc
  · exact h n c hc

end Forest

namespace Terminal

/-! ## Setting up -/

namespace Setup

/-- What a session that was set up was made of. -/
theorem exists_of_load {s : Setup} {session : Session} {reports : List Diagnostic}
    (h : s.load = .ok (session, reports)) :
    ∃ source definition messages furnished handlers r,
      Definition.read source = .ok definition ∧
      let bare : Forest := { Forest.ofDefinition definition with messages := messages }
      bare.roots.foldlM (addChoices s.choices) bare = .ok furnished ∧
      Handlers.echoing furnished.hooks = .ok handlers ∧
      furnished.registerRoots {} s.qualifier handlers = .ok r ∧
      session = ⟨r.forest, r.labels⟩ ∧ reports = definition.report.toList ++ r.reports := by
  rw [load] at h
  obtain ⟨definition, hdefinition, h⟩ := bind_eq_ok_iff.mp h
  obtain ⟨messages, -, h⟩ := bind_eq_ok_iff.mp h
  obtain ⟨furnished, hfurnished, h⟩ := bind_eq_ok_iff.mp h
  obtain ⟨handlers, hhandlers, h⟩ := bind_eq_ok_iff.mp h
  obtain ⟨r, hr, h⟩ := bind_eq_ok_iff.mp h
  have hread : ∃ source, Definition.read source = .ok definition := by
    rw [readDefinition, mapError_eq_ok_iff] at hdefinition
    split at hdefinition
    · contradiction
    · next source _ => exact ⟨source, hdefinition⟩
  obtain ⟨source, hsource⟩ := hread
  cases h
  exact ⟨source, definition, messages, furnished, handlers, r, hsource,
    mapError_eq_ok_iff.mp hfurnished, mapError_eq_ok_iff.mp hhandlers, mapError_eq_ok_iff.mp hr,
    rfl, rfl⟩

theorem signature_of_echoing {hooks : List String} {handlers : Handlers}
    (h : Handlers.echoing hooks = .ok handlers) {hook : String} {handler : Handler}
    (hfind : handlers.find? hook = some handler) : handler.signature = none := by
  have hall : ∀ e ∈ handlers.entries, e.2.signature = none := by
    refine foldlM_induction (P := fun hs => ∀ e ∈ hs.entries, e.2.signature = none) ?_ h
      fun e he => absurd he List.not_mem_nil
    intro hs name hs' hinsert hkept
    rw [Handlers.insert] at hinsert
    split at hinsert
    · contradiction
    · cases hinsert
      intro e he
      rcases List.mem_cons.mp he with rfl | he
      · rfl
      · exact hkept e he
  rw [Handlers.find?, Option.map_eq_some_iff] at hfind
  obtain ⟨e, he, rfl⟩ := hfind
  exact hall e (List.mem_of_find?_eq_some he)

theorem unsettled_bare {source : String} {definition : Definition}
    (h : Definition.read source = .ok definition) (messages : Messages) :
    let bare : Forest := { Forest.ofDefinition definition with messages := messages }
    bare.WellFormed ∧ bare.Unsettled := by
  have hwf : (Forest.ofDefinition definition).WellFormed :=
    Forest.wellFormed_empty.plantAll none (by simp) definition.commands
  refine ⟨hwf.of_sameLinks ⟨rfl, fun _ => rfl⟩, fun n d hd => ?_⟩
  have hcell : (Declaration.cellsOfAll 0 none definition.commands)[n]? = some d := by
    rw [← Forest.find?_plantAll_empty]
    exact hd
  obtain ⟨c, hc, parent, children, rfl⟩ :=
    Declaration.mem_cellsOfAll 0 none _ (List.mem_of_getElem? hcell)
  exact (Declaration.isDeclared_of_read h c hc).unsettled

/-- **A session that was set up** has looked no provider up. -/
theorem unsettled_of_load {s : Setup} {session : Session} {reports : List Diagnostic}
    (h : s.load = .ok (session, reports)) :
    session.forest.WellFormed ∧ session.forest.Unsettled := by
  obtain ⟨source, definition, messages, furnished, handlers, r, hread, hfurnished, hechoing, hr,
    rfl, -⟩ := exists_of_load h
  have hfurnish : furnished.WellFormed ∧ furnished.Unsettled := by
    refine foldlM_induction (P := fun f => f.WellFormed ∧ f.Unsettled) ?_ hfurnished
      (unsettled_bare hread messages)
    intro f root g hg hf
    refine foldlM_induction (P := fun f => f.WellFormed ∧ f.Unsettled) ?_ hg hf
    intro f choices g hg hf
    exact ⟨hf.1.of_sameLinks (Forest.sameLinks_of_provide hg), hf.2.of_provide hf.1 hg⟩
  obtain ⟨hwf, hunsettled⟩ := hfurnish
  exact ⟨hwf.of_sameLinks (Forest.sameLinks_of_registerEach hr),
    hunsettled.of_registerRoots hwf (fun _ _ hfind => signature_of_echoing hechoing hfind) hr⟩

end Setup

/-! ## Lines -/

/-- A line to a session, to be run or to be completed. -/
inductive Request
  | dispatch (sender : Sender) (line : String)
  | complete (sender : Sender) (line : String)

namespace Session

/-- The answer to a line. -/
def reply (s : Session) : Request → Answer
  | .dispatch sender line => .ofOutcome (s.dispatch sender line).1
  | .complete sender line => .completed (s.complete sender line).1

/-- The session after a line. -/
def next (s : Session) : Request → Session
  | .dispatch sender line => (s.dispatch sender line).2
  | .complete sender line => (s.complete sender line).2

end Session

/-- A line runs words at a command that the labels name, or does nothing. -/
theorem runLine_cases (ls : Labels) (sender : Sender) (line : String) :
    (∃ root tokens, ∀ f, ls.runLine f sender line = f.execute root sender tokens) ∨
      ∀ f, ls.runLine f sender line = { handled := false, forest := f } := by
  cases hwords : Labels.dropTrailingEmpty (Labels.lineWords line) with
  | nil => exact .inr fun f => by rw [Labels.runLine, hwords]
  | cons label tokens =>
      cases hroot : ls.resolve label with
      | none => exact .inr fun f => by simp only [Labels.runLine, hwords, Labels.dispatch, hroot]
      | some root =>
          refine .inl ⟨root, tokens, fun f => ?_⟩
          simp only [Labels.runLine, hwords, Labels.dispatch, hroot]

/-- A line is completed at a command that the labels name, or without looking
at the forest. -/
theorem continueLine_cases (ls : Labels) (sender : Sender) (line : String) :
    (∃ root tokens, ∀ f, ls.continueLine f sender line = f.complete root sender tokens) ∨
      ∃ candidates, ∀ f, ls.continueLine f sender line = (candidates, f) := by
  match hwords : Labels.lineWords line with
  | [] => exact .inr ⟨none, fun f => by rw [Labels.continueLine, hwords]⟩
  | [label] => exact .inr ⟨ls.completeLabel label, fun f => by rw [Labels.continueLine, hwords]⟩
  | label :: first :: rest =>
      cases hroot : ls.resolve label with
      | none =>
          refine .inr ⟨none, fun f => ?_⟩
          simp only [Labels.continueLine, hwords, Labels.complete, hroot]
      | some root =>
          refine .inl ⟨root, first :: rest, fun f => ?_⟩
          simp only [Labels.continueLine, hwords, Labels.complete, hroot]

/-- Sessions with the same labels whose forests differ in their cells alone. -/
structure Session.SameButCells (s t : Session) : Prop where
  labels : s.labels = t.labels
  forest : Forest.SameButCells s.forest t.forest

namespace Session.SameButCells

variable {s t : Session} (h : SameButCells s t)

include h

theorem reply (request : Request) : s.reply request = t.reply request := by
  cases request with
  | dispatch sender line =>
      simp only [Session.reply, Session.dispatch, h.labels]
      rcases runLine_cases t.labels sender line with ⟨root, tokens, hrun⟩ | hrun
      · rw [hrun, hrun]
        exact Option.some.inj (h.forest.reply (.operation (.execute root sender tokens)))
      · rw [hrun, hrun]
        rfl
  | complete sender line =>
      simp only [Session.reply, Session.complete, h.labels]
      rcases continueLine_cases t.labels sender line with ⟨root, tokens, hrun⟩ | ⟨candidates, hrun⟩
      · rw [hrun, hrun]
        exact Option.some.inj (h.forest.reply (.operation (.complete root sender tokens)))
      · rw [hrun, hrun]

theorem next (request : Request) : SameButCells (s.next request) t := by
  cases request with
  | dispatch sender line =>
      refine ⟨h.labels, ?_⟩
      show Forest.SameButCells (s.labels.runLine s.forest sender line).forest t.forest
      rcases runLine_cases s.labels sender line with ⟨root, tokens, hrun⟩ | hrun
      · have hreads : (Forest.Step.operation (.execute root sender tokens)).Reads := rfl
        rw [hrun]
        exact (h.forest.take_of_reads hreads).2
      · rw [hrun]
        exact h.forest
  | complete sender line =>
      refine ⟨h.labels, ?_⟩
      show Forest.SameButCells (s.labels.continueLine s.forest sender line).2 t.forest
      rcases continueLine_cases s.labels sender line with ⟨root, tokens, hrun⟩ | ⟨candidates, hrun⟩
      · have hreads : (Forest.Step.operation (.complete root sender tokens)).Reads := rfl
        rw [hrun]
        exact (h.forest.take_of_reads hreads).2
      · rw [hrun]
        exact h.forest

theorem foldl_next (requests : List Request) : SameButCells (requests.foldl Session.next s) t := by
  induction requests generalizing s with
  | nil => exact h
  | cons request requests ih => exact ih (h.next request)

end Session.SameButCells

/-! ## Cells do not show -/

/-- **The providers that parameters keep do not show** as long as none is
replaced: every step is answered as if all providers were looked up afresh,
and the forests are the same but for the cells.  So steps that only read can be
put in and left out without a change to the other answers, and no line of a
session depends on those before it. -/
theorem cells_do_not_show :
    (∀ steps, ({} : Forest).Undisturbed steps →
      ({} : Forest).replies steps = ({} : Forest).repliesAfresh steps ∧
      (steps.foldl Forest.take {}).forget = (steps.foldl Forest.takeAfresh {}).forget) ∧
    (∀ script : List (Bool × Forest.Step), (∀ s, (false, s) ∈ script → s.Reads) →
      (({} : Forest).Undisturbed (script.map Prod.snd) ↔
        ({} : Forest).Undisturbed (Forest.marked script)) ∧
      (({} : Forest).Undisturbed (Forest.marked script) →
        ({} : Forest).heard script = ({} : Forest).replies (Forest.marked script))) ∧
    (∀ (setup : Setup) (session : Session) (reports : List Diagnostic),
      setup.load = .ok (session, reports) → ∀ (before : List Request) (request : Request),
        (before.foldl Session.next session).reply request = session.reply request) := by
  have hempty : ({} : Forest).Faithful := fun n c hc => by contradiction
  have hsame : Forest.SameButCells {} {} :=
    ⟨rfl, Forest.wellFormed_empty, hempty, Forest.wellFormed_empty, hempty⟩
  refine ⟨fun steps hsteps => ?_, fun script hreads => hsame.heard_eq hreads, ?_⟩
  · obtain ⟨hreplies, hforest⟩ := hempty.repliesAfresh_eq Forest.wellFormed_empty rfl hsteps
    exact ⟨hreplies.symm, hforest.symm⟩
  · intro setup session reports hload before request
    obtain ⟨hwf, hunsettled⟩ := Setup.unsettled_of_load hload
    have hforest : Forest.SameButCells session.forest session.forest :=
      ⟨rfl, hwf, hunsettled.faithful, hwf, hunsettled.faithful⟩
    have hsession : Session.SameButCells session session := ⟨rfl, hforest⟩
    exact (hsession.foldl_next before).reply request

/-- A command with a custom parameter, its provider, a handler for it, a copy of
it after the provider was looked up, and a line for the copy. -/
def stall : List Forest.Step := [
  .operation (.appendRoot
    { aliases := ["give"], hook := some "give", parameters := [⟨"item", "what", none⟩] }),
  .operation (.provide 0 (.anyText "item" none)),
  .operation (.bind 0 ⟨[("give", .typed [.custom .text] fun _ _ => ⟨["given"], none⟩)]⟩),
  .copy 0 none,
  .operation (.execute 1 (.ofGrants .player []) ["sword"])]

/-- The copy keeps the provider that was looked up before, which does not
show. -/
theorem cells_do_not_show_stall :
    ((stall.foldl Forest.take {}).find? 1).map
      (fun c => c.parameters.map fun p => p.settled.isSome) = some [true] ∧
    ({} : Forest).replies stall = ({} : Forest).repliesAfresh stall := by
  have hundisturbed : ({} : Forest).Undisturbed stall := by
    refine ⟨fun p hp => ?_, fun n hn c hc => ?_, trivial, trivial, trivial, trivial⟩
    · obtain rfl := List.mem_singleton.mp hp
      rfl
    · obtain rfl : n = 0 := List.mem_singleton.mp hn
      cases hc
      rfl
  exact ⟨by rfl, (cells_do_not_show.1 stall hundisturbed).1⟩

end Terminal

end CommandForest
