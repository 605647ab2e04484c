import CommandForest.Proofs.Registration
import CommandForest.Proofs.Sessions
import Mathlib.Data.List.Destutter

/-!
# CommandForest.Proofs.Furnishing

A definition that can be read is set up completely.  Each step of the set-up
succeeds, and says what it makes of every command of the forest:

* the choices reach all commands below the roots, which are all there are
  (`Setup.exists_furnished`);
* the hooks of a forest are listed without repeats (`Forest.nodup_hooks`), so
  that each has its echoing handler (`Handlers.exists_echoing`);
* registering the roots binds all commands, and stores all their names
  (`Forest.WellFormed.exists_addAll_of_registerEach`).

`Setup.load_sets_up` puts these together.
-/

namespace CommandForest

/-! ## Hooks -/

/-- Dropping repeated neighbours one after the other. -/
theorem eraseReps_eq_destutter {α : Type} [DecidableEq α] (as : List α) :
    as.eraseReps = as.destutter (· ≠ ·) := by
  have hloop : ∀ (as : List α) (a : α) (acc : List α),
      List.eraseRepsBy.loop (· == ·) a as acc =
        acc.reverse ++ List.destutter' (· ≠ ·) a as := by
    intro as
    induction as with
    | nil => intro a acc; simp [List.eraseRepsBy.loop]
    | cons b as ih =>
        intro a acc
        rw [List.eraseRepsBy.loop, List.destutter']
        by_cases hab : a = b
        · subst hab
          simp [ih]
        · simp [beq_eq_false_iff_ne.mpr hab, hab, ih]
  cases as with
  | nil => rfl
  | cons a as => exact hloop as a []

namespace Forest

theorem hooks_eq_dedup (f : Forest) :
    f.hooks = ((f.commands.toList.filterMap Command.hook).mergeSort fun a b => a ≤ b).dedup := by
  have hdecided : ((f.commands.toList.filterMap Command.hook).mergeSort
      fun a b => decide (a ≤ b)).Pairwise fun a b => decide (a ≤ b) = true :=
    List.pairwise_mergeSort
      (fun a b c hab hbc => by
        simpa using String.le_trans (by simpa using hab) (by simpa using hbc))
      (fun a b => by simpa using String.le_total a b) _
  have hsorted : ((f.commands.toList.filterMap Command.hook).mergeSort fun a b => a ≤ b).Pairwise
      fun a b : String => a ≤ b := by
    simpa using hdecided
  have hantisymm : Std.Antisymm fun a b : String => a ≤ b := ⟨fun _ _ => String.le_antisymm⟩
  rw [hooks, eraseReps_eq_destutter]
  exact hsorted.destutter_eq_dedup

/-- No hook is listed twice. -/
theorem nodup_hooks (f : Forest) : f.hooks.Nodup := by
  rw [hooks_eq_dedup]
  exact List.nodup_dedup _

/-- The hooks of all commands are listed. -/
theorem mem_hooks {f : Forest} {n : CommandId} {c : Command} {hook : String}
    (hc : f.find? n = some c) (hhook : c.hook = some hook) : hook ∈ f.hooks := by
  have hmem : c ∈ f.commands.toList := Array.mem_toList_iff.mpr (Array.mem_of_getElem? hc)
  rw [hooks_eq_dedup, List.mem_dedup, List.mem_mergeSort]
  exact List.mem_filterMap.mpr ⟨c, hmem, hhook⟩

end Forest

namespace Handlers

theorem find?_of_insert_of_ne {hs grown : Handlers} {hook other : String} {handler : Handler}
    (h : hs.insert hook handler = .ok grown) (hne : other ≠ hook) :
    grown.find? other = hs.find? other := by
  rw [insert] at h
  split at h
  · contradiction
  · cases h
    have hkey : (hook == other) = false := by simpa using Ne.symm hne
    simp [find?, hkey]

/-- A hook without a handler can be given one. -/
theorem exists_insert {hs : Handlers} {hook : String} (h : hs.contains hook = false)
    (handler : Handler) : ∃ grown, hs.insert hook handler = .ok grown ∧
      ∀ other, grown.contains other = (hook == other || hs.contains other) :=
  ⟨⟨(hook, handler) :: hs.entries⟩, by rw [insert, h]; rfl, fun _ => List.any_cons⟩

/-- Echoing handlers can be added for hooks that are all different and have
none yet. -/
theorem exists_foldlM_insert {hooks : List String} (h : hooks.Nodup) {hs : Handlers}
    (hfree : ∀ hook ∈ hooks, hs.contains hook = false) :
    ∃ handlers, hooks.foldlM (fun hs hook => hs.insert hook (.echo hook)) hs = .ok handlers ∧
      ∀ hook, handlers.find? hook =
        if hook ∈ hooks then some (.echo hook) else hs.find? hook := by
  induction hooks generalizing hs with
  | nil => exact ⟨hs, rfl, fun _ => by simp⟩
  | cons first rest ih =>
      obtain ⟨hnot, hrest⟩ := List.nodup_cons.mp h
      obtain ⟨hfirst, hlater⟩ := List.forall_mem_cons.mp hfree
      obtain ⟨grown, hgrown, hcontains⟩ := exists_insert hfirst (.echo first)
      have hstillFree : ∀ hook ∈ rest, grown.contains hook = false := by
        intro hook hhook
        have hne : first ≠ hook := by
          rintro rfl
          exact hnot hhook
        rw [hcontains, beq_eq_false_iff_ne.mpr hne, hlater hook hhook]
        rfl
      obtain ⟨handlers, hhandlers, hfind⟩ := ih hrest hstillFree
      refine ⟨handlers, ?_, fun hook => ?_⟩
      · rw [List.foldlM_cons, bind_eq_ok_iff]
        exact ⟨grown, hgrown, hhandlers⟩
      · rw [hfind]
        by_cases hhere : hook = first
        · subst hhere
          rw [if_neg hnot, if_pos List.mem_cons_self, find?_of_insert hgrown]
        · simp [hhere, find?_of_insert_of_ne hgrown hhere]

/-- **Hooks that are all different** have their echoing handlers, and no other
hook has one. -/
theorem exists_echoing {hooks : List String} (h : hooks.Nodup) :
    ∃ handlers, echoing hooks = .ok handlers ∧ ∀ hook,
      handlers.find? hook = if hook ∈ hooks then some (.echo hook) else none :=
  exists_foldlM_insert h fun _ _ => rfl

end Handlers

/-! ## Choices -/

/-- The providers of all choices added one after the other. -/
def Providers.addChoices (ps : Providers) (choices : List Choices) : Providers :=
  choices.foldl (fun ps k => ps.insert k.provider) ps

/-- Of choices with the same name, the last one counts. -/
theorem Providers.find?_addChoices (ps : Providers) (choices : List Choices) (name : String) :
    (ps.addChoices choices).find? name =
      ((choices.reverse.find? fun k => k.name == name).map Choices.provider).or
        (ps.find? name) := by
  induction choices generalizing ps with
  | nil => rfl
  | cons k choices ih =>
      have hstep : ps.addChoices (k :: choices) = (ps.insert k.provider).addChoices choices := rfl
      rw [hstep, ih, List.reverse_cons, List.find?_append, List.find?_singleton]
      cases choices.reverse.find? fun k => k.name == name with
      | some last => rfl
      | none =>
          by_cases hname : k.name = name
          · subst hname
            have hself : (ps.insert k.provider).find? k.name = some k.provider :=
              ps.find?_insert_self k.provider
            simp [hself]
          · have hother : (ps.insert k.provider).find? name = ps.find? name :=
              ps.find?_insert_of_ne hname
            simp [hname, hother]

namespace Forest

/-- Every known command can be given a provider. -/
theorem exists_provide {f : Forest} {id : CommandId} (p : Provider) (h : f.has id = true) :
    ∃ g, f.provide id p = .ok g := by
  cases hg : f.provide id p with
  | error e => exact absurd h (not_has_of_provide hg)
  | ok g => exact ⟨g, rfl⟩

theorem messages_of_provide {f g : Forest} {id : CommandId} {p : Provider}
    (h : f.provide id p = .ok g) : g.messages = f.messages := by
  rw [provide] at h
  split at h
  · cases h
    exact (roots_foldl_modify _ f _).2
  · contradiction

theorem messages_of_bind {f g : Forest} {id : CommandId} {handlers : Handlers}
    {reports : List Diagnostic} (h : f.bind id handlers = .ok (g, reports)) :
    g.messages = f.messages := by
  rw [bind] at h
  split at h
  · cases h
    exact (roots_foldl_modify _ f _).2
  · contradiction

end Forest

namespace Terminal.Setup

/-- What choices make of a forest, at the commands of a list. -/
structure Furnishes (choices : List Choices) (f : Forest) (ids : List CommandId) (g : Forest) :
    Prop where
  links : f.SameLinks g
  messages : g.messages = f.messages
  find? : ∀ n, g.find? n = (f.find? n).map fun c =>
    if n ∈ ids then { c with providers := c.providers.addChoices choices } else c

/-- Choices reach everything below a known command. -/
theorem exists_addChoices {f : Forest} (hf : f.WellFormed) (choices : List Choices)
    {root : CommandId} (h : f.has root = true) :
    ∃ g, addChoices choices f root = .ok g ∧ Furnishes choices f (f.descendants root) g := by
  induction choices generalizing f with
  | nil => exact ⟨f, rfl, .refl f, rfl, fun n => by simp [Providers.addChoices]⟩
  | cons k choices ih =>
      obtain ⟨first, hfirst⟩ := Forest.exists_provide k.provider h
      have hlinks := Forest.sameLinks_of_provide hfirst
      obtain ⟨g, hg, hrest⟩ := ih (hf.of_sameLinks hlinks) (hlinks.has h)
      refine ⟨g, ?_, hlinks.trans hrest.links,
        hrest.messages.trans (Forest.messages_of_provide hfirst), fun n => ?_⟩
      · rw [addChoices, List.foldlM_cons, bind_eq_ok_iff]
        exact ⟨first, hfirst, hg⟩
      · rw [hrest.find?, hlinks.descendants, hf.find?_of_provide hfirst, Option.map_map]
        congr 1
        funext c
        by_cases hn : n ∈ f.descendants root
        · simp only [Function.comp_apply, if_pos hn]
          rfl
        · simp only [Function.comp_apply, if_neg hn]

/-- **Choices reach every command** below the roots of a list, if no two of
these have a command in common. -/
theorem exists_furnished {f : Forest} (hf : f.WellFormed) (choices : List Choices)
    {roots : List CommandId} (h : ∀ root ∈ roots, f.has root = true)
    (hnodup : (roots.flatMap f.descendants).Nodup) :
    ∃ g, roots.foldlM (addChoices choices) f = .ok g ∧
      Furnishes choices f (roots.flatMap f.descendants) g := by
  induction roots generalizing f with
  | nil => exact ⟨f, rfl, .refl f, rfl, fun n => by simp⟩
  | cons root rest ih =>
      obtain ⟨hroot, hrest⟩ := List.forall_mem_cons.mp h
      rw [List.flatMap_cons, List.nodup_append] at hnodup
      obtain ⟨-, hlater, hdisjoint⟩ := hnodup
      obtain ⟨first, hfirst, hhere⟩ := exists_addChoices hf choices hroot
      have hsame : rest.flatMap first.descendants = rest.flatMap f.descendants :=
        List.flatMap_congr fun id _ => hhere.links.descendants id
      obtain ⟨g, hg, hthere⟩ := ih (hf.of_sameLinks hhere.links)
        (fun id hid => hhere.links.has (hrest id hid)) (hsame ▸ hlater)
      refine ⟨g, ?_, hhere.links.trans hthere.links, hthere.messages.trans hhere.messages,
        fun n => ?_⟩
      · rw [List.foldlM_cons, bind_eq_ok_iff]
        exact ⟨first, hfirst, hg⟩
      · rw [hthere.find?, hsame, hhere.find?, Option.map_map, List.flatMap_cons]
        congr 1
        funext c
        by_cases hn : n ∈ f.descendants root
        · have hnot : n ∉ rest.flatMap f.descendants := fun hmem => hdisjoint n hn n hmem rfl
          simp only [Function.comp_apply, if_pos hn, if_neg hnot,
            if_pos (List.mem_append_left _ hn)]
        · simp [hn]

end Terminal.Setup

/-! ## Registering -/

namespace Forest

/-- The names of a command. -/
def namesOf (f : Forest) (id : CommandId) : List String :=
  ((f.find? id).map Command.aliases).getD []

theorem namesOf_of_find? {f : Forest} {id : CommandId} {c : Command} (h : f.find? id = some c) :
    f.namesOf id = c.aliases := by
  rw [namesOf, h]
  rfl

/-- The registrations of all names of some roots, and no others. -/
structure Registers (f : Forest) (qualifier : String) (roots : List CommandId)
    (calls : List Labels.Call) : Prop where
  sound : ∀ k ∈ calls, k.qualifier = qualifier ∧ k.root ∈ roots ∧ k.label ∈ f.namesOf k.root
  complete : ∀ root ∈ roots, ∀ a ∈ f.namesOf root,
    ∃ k ∈ calls, k.qualifier = qualifier ∧ k.root = root ∧ k.label = a

/-- Binding leaves the names as they are. -/
theorem WellFormed.namesOf_of_bind {f g : Forest} (hf : f.WellFormed) {id : CommandId}
    {handlers : Handlers} {reports : List Diagnostic}
    (h : f.bind id handlers = .ok (g, reports)) : g.namesOf = f.namesOf := by
  funext n
  rw [namesOf, namesOf, hf.find?_of_bind h, Option.map_map]
  congr 2
  funext c
  simp only [Function.comp_apply]
  split
  · exact c.aliases_bind handlers
  · rfl

/-- **The names of the roots** are registered, one root after the other. -/
theorem WellFormed.exists_addAll_of_registerEach {f : Forest} (hf : f.WellFormed)
    {labels : Labels} {qualifier : String} {handlers : Handlers} {ids : List CommandId}
    {r : Registration} (h : f.registerEach labels qualifier handlers ids = .ok r) :
    r.forest.messages = f.messages ∧ r.forest.namesOf = f.namesOf ∧
      ∃ calls, f.Registers qualifier ids calls ∧ r.labels = labels.addAll calls := by
  induction ids generalizing f labels r with
  | nil => cases h; exact ⟨rfl, rfl, [], ⟨by simp, by simp⟩, rfl⟩
  | cons root rest ih =>
      rw [registerEach] at h
      cases hfirst : f.register labels root qualifier handlers with
      | error e => rw [hfirst] at h; contradiction
      | ok first =>
          rw [hfirst] at h
          obtain ⟨later, hlater, rfl⟩ := map_eq_ok_iff.mp h
          have hbind := exists_bind_of_register hfirst
          obtain ⟨c, description, hc, hlabels⟩ := hf.exists_addAll_of_register hfirst
          obtain ⟨hmessages, hlaterNames, calls, hcalls, hall⟩ :=
            ih (hf.of_sameLinks (sameLinks_of_bind hbind)) hlater
          have hnames := hf.namesOf_of_bind hbind
          have hhere : f.namesOf root = c.aliases := namesOf_of_find? hc
          refine ⟨hmessages.trans (messages_of_bind hbind), hlaterNames.trans hnames,
            (c.aliases.map fun a => ⟨qualifier, a, description, root⟩) ++ calls, ⟨?_, ?_⟩, ?_⟩
          · intro k hk
            rcases List.mem_append.mp hk with hk | hk
            · obtain ⟨a, ha, rfl⟩ := List.mem_map.mp hk
              exact ⟨rfl, List.mem_cons_self, hhere ▸ ha⟩
            · obtain ⟨hqualifier, hroot, hlabel⟩ := hcalls.sound k hk
              exact ⟨hqualifier, List.mem_cons_of_mem root hroot, hnames ▸ hlabel⟩
          · intro other hother a ha
            rcases List.mem_cons.mp hother with rfl | hother
            · rw [hhere] at ha
              exact ⟨_, List.mem_append_left _ (List.mem_map_of_mem ha), rfl, rfl, rfl⟩
            · obtain ⟨k, hk, hcall⟩ := hcalls.complete other hother a (hnames ▸ ha)
              exact ⟨k, List.mem_append_right _ hk, hcall⟩
          · show later.labels = _
            rw [hall, hlabels, Labels.addAll, Labels.addAll, Labels.addAll, List.foldl_append]

/-- Handlers that take any values are never reported at binding. -/
theorem reports_of_registerEach {f : Forest} {labels : Labels} {qualifier : String}
    {handlers : Handlers} {ids : List CommandId} {r : Registration}
    (hhandlers : ∀ hook handler, handlers.find? hook = some handler → handler.signature = none)
    (h : f.registerEach labels qualifier handlers ids = .ok r) : r.reports = [] := by
  have hnone : ∀ c : Command, c.bindReport handlers = none := by
    intro c
    rw [Command.bindReport, Command.resolve]
    cases hfound : c.hook.bind handlers.find? with
    | none => rfl
    | some handler =>
        obtain ⟨hook, -, hhook⟩ := Option.bind_eq_some_iff.mp hfound
        simp only [hhandlers hook handler hhook]
  induction ids generalizing f labels r with
  | nil => cases h; rfl
  | cons root rest ih =>
      rw [registerEach] at h
      cases hfirst : f.register labels root qualifier handlers with
      | error e => rw [hfirst] at h; contradiction
      | ok first =>
          rw [hfirst] at h
          obtain ⟨later, hlater, rfl⟩ := map_eq_ok_iff.mp h
          have hbind := exists_bind_of_register hfirst
          have hreports : first.reports = [] := by
            rw [bind] at hbind
            split at hbind
            · simp only [Except.ok.injEq, Prod.mk.injEq] at hbind
              rw [← hbind.2]
              simp [hnone]
            · contradiction
          rw [hreports, ih hlater]
          rfl

end Forest

/-! ## Keys -/

namespace Labels

theorem get?_addAll_empty (calls : List Call) (key : String) :
    (({} : Labels).addAll calls).get? key = (owner? calls key).map Call.entry := by
  have hempty : ({} : Labels).get? key = none := rfl
  rw [get?_addAll, hempty, Option.none_or, owner?, Option.map_or]

/-- Under the qualified key of a registration stands the last one with it. -/
theorem exists_owner?_qualified {calls : List Call} {k : Call} (hk : k ∈ calls) :
    ∃ d ∈ calls, owner? calls k.qualified = some d ∧ d.qualified = k.qualified := by
  have hfound : (calls.reverse.find? fun d => d.qualified == k.qualified).isSome = true :=
    List.find?_isSome.mpr ⟨k, List.mem_reverse.mpr hk, beq_self_eq_true _⟩
  obtain ⟨d, hd⟩ := Option.isSome_iff_exists.mp hfound
  refine ⟨d, List.mem_reverse.mp (List.mem_of_find?_eq_some hd), by rw [owner?, hd]; rfl, ?_⟩
  simpa using List.find?_some hd

/-- Under the plain key of a registration stands one that has it, be it as its
qualified key. -/
theorem exists_owner?_plain {calls : List Call} {k : Call} (hk : k ∈ calls) :
    ∃ d ∈ calls, owner? calls k.plain = some d ∧ (d.plain = k.plain ∨ d.qualified = k.plain) := by
  rw [owner?]
  cases hlast : calls.reverse.find? fun d => d.qualified == k.plain with
  | some d =>
      refine ⟨d, List.mem_reverse.mp (List.mem_of_find?_eq_some hlast), rfl, .inr ?_⟩
      simpa using List.find?_some hlast
  | none =>
      have hfound : (calls.find? fun d => d.plain == k.plain).isSome = true :=
        List.find?_isSome.mpr ⟨k, hk, beq_self_eq_true _⟩
      obtain ⟨d, hd⟩ := Option.isSome_iff_exists.mp hfound
      refine ⟨d, List.mem_of_find?_eq_some hd, hd, .inl ?_⟩
      simpa using List.find?_some hd

theorem qualifiedKey_inj {qualifier label other : String} :
    qualifiedKey qualifier label = qualifiedKey qualifier other ↔
      Text.lowered label = Text.lowered other :=
  String.append_right_inj _

end Labels

/-! ## The whole set-up -/

/-- A command that was read, with its choices and its echoing handler. -/
def Command.furnish (choices : List Choices) (c : Command) : Command :=
  { c with
    providers := c.providers.addChoices choices
    binding := (c.hook.map fun hook => Binding.bound (.echo hook)).getD .unbound }

/-- Binding to the echoing handlers of some hooks. -/
theorem Command.bind_echoing {handlers : Handlers} {hooks : List String}
    (h : ∀ hook, handlers.find? hook = if hook ∈ hooks then some (.echo hook) else none)
    {c : Command} (hc : ∀ hook, c.hook = some hook → hook ∈ hooks) :
    c.bind handlers =
      { c with binding := (c.hook.map fun hook => Binding.bound (.echo hook)).getD .unbound } := by
  cases hhook : c.hook with
  | none => simp [bind, checksSignature, resolve, hhook]
  | some hook =>
      have hfind : handlers.find? hook = some (.echo hook) := by rw [h, if_pos (hc hook hhook)]
      simp [bind, checksSignature, resolve, hhook, hfind, Handler.echo, Handler.untyped]

namespace Forest

section

variable {f : Forest} {qualifier : String} {roots : List CommandId} {calls : List Labels.Call}
  (h : f.Registers qualifier roots calls) {root : CommandId} (hroot : root ∈ roots) {a : String}
  (ha : a ∈ f.namesOf root)

include h hroot ha

/-- Under each name of a registered root, a root is found that has it, or for
which it is a qualified label. -/
theorem Registers.resolve_name :
    ∃ other ∈ roots, (({} : Labels).addAll calls).resolve a = some other ∧
      ∃ b ∈ f.namesOf other, Text.lowered b = Text.lowered a ∨
        Labels.qualifiedKey qualifier b = Text.lowered a := by
  obtain ⟨k, hk, rfl, rfl, rfl⟩ := h.complete root hroot a ha
  obtain ⟨d, hd, howner, hkey⟩ := Labels.exists_owner?_plain hk
  obtain ⟨hqualifier, hother, hlabel⟩ := h.sound d hd
  refine ⟨d.root, hother, ?_, d.label, hlabel, ?_⟩
  · rw [Labels.resolve]
    show Option.map _ (Labels.get? _ k.plain) = _
    rw [Labels.get?_addAll_empty, howner]
    rfl
  · rw [Labels.Call.qualified, hqualifier] at hkey
    exact hkey

/-- Under each qualified label of a registered root, a root is found that has
the name. -/
theorem Registers.get?_qualified :
    ∃ other ∈ roots, ((({} : Labels).addAll calls).get? (Labels.qualifiedKey qualifier a)).map
        LabelEntry.root = some other ∧
      ∃ b ∈ f.namesOf other, Text.lowered b = Text.lowered a := by
  obtain ⟨k, hk, rfl, rfl, rfl⟩ := h.complete root hroot a ha
  obtain ⟨d, hd, howner, hkey⟩ := Labels.exists_owner?_qualified hk
  obtain ⟨hqualifier, hother, hlabel⟩ := h.sound d hd
  refine ⟨d.root, hother, ?_, d.label, hlabel, ?_⟩
  · show Option.map _ (Labels.get? _ k.qualified) = _
    rw [Labels.get?_addAll_empty, howner]
    rfl
  · rw [Labels.Call.qualified, Labels.Call.qualified, hqualifier] at hkey
    exact Labels.qualifiedKey_inj.mp hkey

end

end Forest

namespace Terminal.Setup

/-- Commands that were read have no providers yet. -/
theorem providers_of_readDefinition {s : Setup} {definition : Definition}
    (h : s.readDefinition = .ok definition) {n : CommandId} {c : Command}
    (hc : (Forest.ofDefinition definition).find? n = some c) : c.providers = {} := by
  rw [readDefinition, mapError_eq_ok_iff] at h
  split at h
  · contradiction
  · rw [Forest.ofDefinition, Forest.find?_plantAll_empty] at hc
    obtain ⟨d, hd, parent, children, rfl⟩ :=
      Declaration.mem_cellsOfAll 0 none _ (List.mem_of_getElem? hc)
    exact (Declaration.isDeclared_of_read h d hd).providers

/-- Reads a definition from the bytes of a text. -/
theorem readDefinition_of_read {s : Setup} {source : String} {definition : Definition}
    (hcontent : s.definition.content = .ok source.toUTF8)
    (h : Definition.read source = .ok definition) : s.readDefinition = .ok definition := by
  have hdecode : String.fromUTF8? source.toUTF8 = some source := dif_pos source.isValidUTF8
  have htext : s.definition.text = .ok source := by
    simp only [File.text, hcontent, hdecode]
  simp only [readDefinition, htext, h]
  rfl

/-- What a definition is set up to. -/
theorem exists_load_eq {s : Setup} {definition : Definition} {messages : Messages}
    (hdefinition : s.readDefinition = .ok definition) (hmessages : s.readMessages = .ok messages) :
    ∃ session, s.load = .ok (session, definition.report.toList) ∧
      session.forest.roots = (Forest.ofDefinition definition).roots ∧
      session.forest.messages = messages ∧
      (∀ n, session.forest.find? n =
        ((Forest.ofDefinition definition).find? n).map (Command.furnish s.choices)) ∧
      ∃ calls, session.forest.Registers s.qualifier session.forest.roots calls ∧
        session.labels = ({} : Labels).addAll calls := by
  let bare : Forest := { Forest.ofDefinition definition with messages := messages }
  have hparsed : (Forest.ofDefinition definition).WellFormed :=
    Forest.wellFormed_empty.plantAll none (by simp) definition.commands
  have hbare : bare.WellFormed := hparsed.of_sameLinks ⟨rfl, fun _ => rfl⟩
  have hknown : ∀ f : Forest, f.WellFormed → ∀ root ∈ f.roots, f.has root = true := by
    intro f hf root hroot
    obtain ⟨c, hc, -⟩ := (hf.mem_roots root).mp hroot
    exact Forest.has_iff.mpr ⟨c, hc⟩
  -- each step succeeds, and what it finds known is known from the one before
  obtain ⟨furnished, hfurnished, hchoices⟩ :=
    exists_furnished hbare s.choices (hknown bare hbare) hbare.nodup_flatMap_descendants
  have hwf : furnished.WellFormed := hbare.of_sameLinks hchoices.links
  obtain ⟨handlers, hechoing, hfind⟩ := Handlers.exists_echoing furnished.nodup_hooks
  obtain ⟨r, hr⟩ := Forest.exists_registerEach {} s.qualifier handlers (hknown furnished hwf)
  have hlinks := Forest.sameLinks_of_registerEach hr
  obtain ⟨hsame, hnames, calls, hcalls, hlabels⟩ := hwf.exists_addAll_of_registerEach hr
  have hreports : r.reports = [] := by
    refine Forest.reports_of_registerEach (fun hook handler hhandler => ?_) hr
    exact signature_of_echoing hechoing hhandler
  have hforest : ∀ n, r.forest.find? n = (bare.find? n).map (Command.furnish s.choices) := by
    intro n
    rw [hwf.find?_of_registerEach hwf.nodup_flatMap_descendants hr, hchoices.find?]
    cases hc : bare.find? n with
    | none => rfl
    | some c =>
        -- the choices and the binding reach it below one of the roots
        have hn : n ∈ bare.roots.flatMap bare.descendants :=
          hbare.mem_flatMap_descendants_iff.mpr ⟨c, hc⟩
        have hd := hchoices.find? n
        rw [hc, Option.map_some, if_pos hn] at hd
        have hn' : n ∈ furnished.roots.flatMap furnished.descendants :=
          hwf.mem_flatMap_descendants_iff.mpr ⟨_, hd⟩
        rw [Option.map_some, Option.map_some, Option.map_some, if_pos hn, if_pos hn',
          Command.bind_echoing hfind fun hook hhook => Forest.mem_hooks hd hhook]
        rfl
  refine ⟨⟨r.forest, r.labels⟩, ?_, hlinks.1.trans hchoices.links.1,
    hsame.trans hchoices.messages, hforest, calls, ?_, hlabels⟩
  · refine bind_eq_ok_iff.mpr ⟨definition, hdefinition, ?_⟩
    refine bind_eq_ok_iff.mpr ⟨messages, hmessages, ?_⟩
    refine bind_eq_ok_iff.mpr ⟨furnished, mapError_eq_ok_iff.mpr hfurnished, ?_⟩
    refine bind_eq_ok_iff.mpr ⟨handlers, mapError_eq_ok_iff.mpr hechoing, ?_⟩
    refine bind_eq_ok_iff.mpr ⟨r, mapError_eq_ok_iff.mpr hr, ?_⟩
    rw [hreports, List.append_nil]
    rfl
  · show r.forest.Registers s.qualifier r.forest.roots calls
    rw [hlinks.1]
    exact ⟨fun k hk => hnames ▸ hcalls.sound k hk,
      fun root hroot => hnames ▸ hcalls.complete root hroot⟩

/-- A session that has all of a definition, its messages and the choices. -/
structure SetsUp (s : Setup) (definition : Definition) (messages : Messages)
    (session : Session) : Prop where
  roots : session.forest.roots = (Forest.ofDefinition definition).roots
  messages : session.forest.messages = messages
  find? : ∀ n, session.forest.find? n =
    ((Forest.ofDefinition definition).find? n).map (Command.furnish s.choices)
  bound : ∀ n c, session.forest.find? n = some c → ∀ hook, c.hook = some hook →
    c.binding = .bound (.echo hook)
  unbound : ∀ n c, session.forest.find? n = some c → c.hook = none → c.binding = .unbound
  /-- Of the choices with a name, the last ones count. -/
  choices : ∀ n c, session.forest.find? n = some c → ∀ name, c.providers.find? name =
    (s.choices.reverse.find? fun k => k.name == name).map Choices.provider
  /-- A name leads to a root that has it, or for which it is a qualified label. -/
  resolve_name : ∀ root ∈ session.forest.roots, ∀ a ∈ session.forest.namesOf root,
    ∃ other ∈ session.forest.roots, session.labels.resolve a = some other ∧
      ∃ b ∈ session.forest.namesOf other, Text.lowered b = Text.lowered a ∨
        Labels.qualifiedKey s.qualifier b = Text.lowered a
  /-- A qualified label leads to a root that has the name, and it can be written
  as it is unless a sigma turns at the colon. -/
  resolve_qualified : ∀ root ∈ session.forest.roots, ∀ a ∈ session.forest.namesOf root,
    ∃ other ∈ session.forest.roots,
      (session.labels.get? (Labels.qualifiedKey s.qualifier a)).map LabelEntry.root =
        some other ∧
      (∃ b ∈ session.forest.namesOf other, Text.lowered b = Text.lowered a) ∧
      (¬ Text.TurnsAtColon s.qualifier.toList a.toList →
        session.labels.resolve (s.qualifier ++ ":" ++ a) = some other)

/-- **Every definition that can be read is set up completely**, with messages
that can be read: no hook is met twice and no root is missing, and nothing is
reported but a command that is never closed.  The session has all commands of
the definition, each with the last choices of every name and bound to the echo
of its hook if it has one; and all names of the roots are found. -/
theorem load_sets_up {s : Setup} {definition : Definition} {messages : Messages}
    (hdefinition : s.readDefinition = .ok definition) (hmessages : s.readMessages = .ok messages) :
    ∃ session, s.load = .ok (session, definition.report.toList) ∧
      s.SetsUp definition messages session := by
  obtain ⟨session, hload, hroots, hsame, hfind, calls, hcalls, hlabels⟩ :=
    exists_load_eq hdefinition hmessages
  have hread : ∀ {n d}, session.forest.find? n = some d →
      ∃ c, (Forest.ofDefinition definition).find? n = some c ∧ c.furnish s.choices = d := by
    intro n d hd
    rw [hfind] at hd
    exact Option.map_eq_some_iff.mp hd
  refine ⟨session, hload, hroots, hsame, hfind, ?_, ?_, ?_, ?_, ?_⟩
  · intro n d hd hook hhook
    obtain ⟨c, -, rfl⟩ := hread hd
    have hsome : c.hook = some hook := hhook
    rw [Command.furnish, hsome]
    rfl
  · intro n d hd hhook
    obtain ⟨c, -, rfl⟩ := hread hd
    have hnone : c.hook = none := hhook
    rw [Command.furnish, hnone]
    rfl
  · intro n d hd name
    obtain ⟨c, hc, rfl⟩ := hread hd
    show (c.providers.addChoices s.choices).find? name = _
    rw [Providers.find?_addChoices, providers_of_readDefinition hdefinition hc]
    exact Option.or_none
  · intro root hroot a ha
    rw [hlabels]
    exact hcalls.resolve_name hroot ha
  · intro root hroot a ha
    obtain ⟨other, hother, hkey, hname⟩ := hcalls.get?_qualified hroot ha
    rw [← hlabels] at hkey
    refine ⟨other, hother, hkey, hname, fun hturns => ?_⟩
    rw [Labels.resolve, (Labels.lowered_qualified_iff s.qualifier a).mpr hturns]
    exact hkey

/-- Two roots with a name in common, and one hook on two commands. -/
def innSource : String := "room \x7b
hook stay
\x7d
bed,Room <size:bed> \x7b
make \x7b
hook stay
\x7d
\x7d"

/-- Choices of one name given twice. -/
def inn : Setup where
  definition := ⟨"inn.cmd", .ok innSource.toUTF8⟩
  qualifier := "Inn"
  choices := [⟨"size", ["twin"]⟩, ⟨"size", ["single", "double"]⟩]

/-- The command below the second root has the later choices and echoes its
hook, and the common name of the roots is found with the qualifier and without
it. -/
theorem load_sets_up_inn :
    ∃ session, inn.load = .ok (session, []) ∧ session.forest.roots = [0, 1] ∧
      (∃ make, session.forest.find? 2 = some make ∧ make.binding = .bound (.echo "stay") ∧
        make.providers.find? "size" = some (.choiceOf "size" ["single", "double"])) ∧
      (∃ root ∈ session.forest.roots, session.labels.resolve "Room" = some root) ∧
      ∃ root ∈ session.forest.roots, session.labels.resolve "Inn:Room" = some root := by
  have hread : (Definition.read innSource).toOption.map (fun d =>
      let f := Forest.ofDefinition d
      (d.report.isNone, f.roots, (f.find? 1).map Command.aliases, (f.find? 2).map Command.hook)) =
      some (true, [0, 1], some ["bed", "Room"], some (some "stay")) := by
    decide +kernel
  cases hdefinition : Definition.read innSource with
  | error e => rw [hdefinition] at hread; contradiction
  | ok definition =>
      rw [hdefinition] at hread
      simp only [Except.toOption, Option.map_some, Option.some.injEq, Prod.mk.injEq,
        Option.isNone_iff_eq_none, Option.map_eq_some_iff] at hread
      obtain ⟨hreport, hroots, ⟨bed, hbed, halias⟩, make, hmake, hhook⟩ := hread
      have hcontent : inn.definition.content = .ok innSource.toUTF8 := rfl
      have hmessages : inn.readMessages = .ok {} := rfl
      obtain ⟨session, hload, hsetup⟩ :=
        load_sets_up (readDefinition_of_read hcontent hdefinition) hmessages
      rw [hreport] at hload
      have hsame : session.forest.roots = [0, 1] := hsetup.roots.trans hroots
      have hset : session.forest.find? 2 = some (make.furnish inn.choices) := by
        rw [hsetup.find?, hmake]
        rfl
      have hname : "Room" ∈ session.forest.namesOf 1 := by
        rw [Forest.namesOf, hsetup.find?, hbed]
        show "Room" ∈ bed.aliases
        simp [halias]
      have hone : 1 ∈ session.forest.roots := by simp [hsame]
      obtain ⟨root, hroot, hplain, -⟩ := hsetup.resolve_name 1 hone "Room" hname
      obtain ⟨other, hother, -, -, hqualified⟩ :=
        hsetup.resolve_qualified 1 hone "Room" hname
      exact ⟨session, hload, hsame,
        ⟨_, hset, hsetup.bound 2 _ hset "stay" hhook, hsetup.choices 2 _ hset "size"⟩,
        ⟨root, hroot, hplain⟩, other, hother,
        hqualified (Text.not_turnsAtColon (by decide) (by decide))⟩

end Terminal.Setup

end CommandForest
