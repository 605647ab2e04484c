import CommandForest.Proofs.Declared
import CommandForest.Proofs.Preorder

/-!
# CommandForest.Proofs.Change

What one operation makes of a command that is there already, and which
commands it brings:

* newcomers are listed behind the children it has;
* the provider that is given to it, if any, comes before those it sees
  (`Operation.provides`);
* a command that is bound to some handlers (`Operation.binds`) resolves its
  hook among them, and no other changes its binding;
* parameters settle on what is in scope, and all else stays
  (`WellFormed.becomes_perform`);
* every newcomer was declared in a definition or is the command that was
  appended (`exists_brings_of_find?_perform`).

The properties of commands that a program relies on are followed through a
whole run with these two facts.
-/

namespace CommandForest

/-! ## Settling -/

namespace Command

theorem settle_nil (c : Command) : c.settle [] = c := by
  have hsame : c.parameters.mapIdx (fun _ p => p) = c.parameters := by
    apply List.ext_getElem?
    intro i
    rw [List.getElem?_mapIdx, Option.map_id']
  simp [settle, hsame]

/-- Parameters settle once. -/
theorem settle_settle (c : Command) (xs ys : List Nat) :
    (c.settle xs).settle ys = c.settle (xs ++ ys) := by
  simp only [settle, List.mapIdx_mapIdx]
  congr 2
  funext i p
  by_cases hx : i ∈ xs
  · by_cases hy : i ∈ ys
    · simp [hx, hy, Parameter.settle_settle]
    · simp [hx, hy]
  · simp [hx]

theorem settleAll_eq (c : Command) : c.settleAll = c.settle (List.range c.parameters.length) := by
  simp only [settleAll, settle]
  congr 1
  apply List.ext_getElem?
  intro i
  rw [List.getElem?_map, List.getElem?_mapIdx]
  cases hi : c.parameters[i]? with
  | none => rfl
  | some p =>
      obtain ⟨hlt, -⟩ := List.getElem?_eq_some_iff.mp hi
      simp [hlt]

end Command

/-- The parameters of a command that an event settles. -/
def Event.positions (n : CommandId) : Event → List Nat
  | settled id positions => if id = n then positions else []
  | _ => []

/-- After a walk, the parameters have settled that it looked at. -/
theorem Forest.find?_settle (f : Forest) (log : List Event) (n : CommandId) :
    (f.settle log).find? n =
      (f.find? n).map fun c => c.settle (log.flatMap (Event.positions n)) := by
  rw [settle]
  induction log generalizing f with
  | nil => simp [Command.settle_nil]
  | cons e log ih =>
      rw [List.foldl_cons, ih, List.flatMap_cons]
      cases e with
      | settled id positions =>
          by_cases hn : n = id
          · subst hn
            simp [Event.applyTo, Event.positions, find?_modify_self, Function.comp_def,
              Command.settle_settle]
          · simp [Event.applyTo, Event.positions, find?_modify_of_ne _ _ hn, Ne.symm hn]
      | unresolved | unknown | denied | answered | mismatched | helped => rfl

/-! ## Binding several subtrees -/

namespace Forest

/-- A subtree has the same list when all links are the same. -/
theorem SameLinks.descendants {f g : Forest} (h : SameLinks f g) (id : CommandId) :
    g.descendants id = f.descendants id := by
  have hnone : ∀ n, g.find? n = none ↔ f.find? n = none := by
    intro n
    rw [← Option.map_eq_none_iff (f := Command.links), h.2 n, Option.map_eq_none_iff]
  have hsize : g.size = f.size := by
    have hf := (hnone f.size).mpr (find?_eq_none_iff.mpr (Nat.le_refl _))
    have hg := (hnone g.size).mp (find?_eq_none_iff.mpr (Nat.le_refl _))
    exact Nat.le_antisymm (find?_eq_none_iff.mp hf) (find?_eq_none_iff.mp hg)
  have hfrom : ∀ fuel pending, g.preorderFrom fuel pending = f.preorderFrom fuel pending := by
    intro fuel
    induction fuel with
    | zero => intro pending; cases pending <;> rfl
    | succ fuel ih =>
        intro pending
        cases pending with
        | nil => rfl
        | cons n pending =>
            rw [preorderFrom, preorderFrom]
            cases hn : g.find? n with
            | none => rw [(hnone n).mp hn]; exact ih pending
            | some d =>
                obtain ⟨c, hc, -, hchildren⟩ := h.find? hn
                rw [hc]
                dsimp only
                rw [hchildren, ih]
  rw [Forest.descendants, Forest.descendants, hsize, hfrom]

/-- Registering a command binds it. -/
theorem exists_bind_of_register {f : Forest} {labels : Labels} {root : CommandId}
    {qualifier : String} {handlers : Handlers} {r : Registration}
    (h : f.register labels root qualifier handlers = .ok r) :
    f.bind root handlers = .ok (r.forest, r.reports) := by
  rw [register] at h
  cases hbind : f.bind root handlers with
  | error e => rw [hbind] at h; contradiction
  | ok answer =>
      obtain ⟨bound, reports⟩ := answer
      rw [hbind] at h
      dsimp only at h
      split at h
      · contradiction
      · cases h
        rfl

theorem descendants_eq_nil_of_not_has {f : Forest} {id : CommandId} (h : ¬ f.has id = true) :
    f.descendants id = [] := by
  refine descendants_eq_nil (Option.eq_none_iff_forall_ne_some.mpr fun c hc => ?_)
  exact h (has_iff.mpr ⟨c, hc⟩)

/-- A provider is refused for an unknown command only. -/
theorem not_has_of_provide {f : Forest} {id : CommandId} {p : Provider} {e : UnknownCommand}
    (h : f.provide id p = .error e) : ¬ f.has id = true := by
  intro hid
  rw [provide, if_pos hid] at h
  contradiction

/-- Only an unknown command cannot be bound. -/
theorem not_has_of_bind {f : Forest} {id : CommandId} {handlers : Handlers} {e : UnknownCommand}
    (h : f.bind id handlers = .error e) : ¬ f.has id = true := by
  intro hid
  rw [bind, if_pos hid] at h
  contradiction

/-- Every known command can be registered. -/
theorem exists_register {f : Forest} {root : CommandId} (labels : Labels) (qualifier : String)
    (handlers : Handlers) (h : f.has root = true) :
    ∃ r, f.register labels root qualifier handlers = .ok r := by
  cases hbind : f.bind root handlers with
  | error e => exact absurd h (not_has_of_bind hbind)
  | ok answer =>
      obtain ⟨bound, reports⟩ := answer
      obtain ⟨c, hc⟩ := has_iff.mp h
      obtain ⟨d, hd, -⟩ := (sameLinks_of_bind hbind).symm.find? hc
      rw [register, hbind]
      dsimp only
      rw [hd]
      exact ⟨_, rfl⟩

theorem SameLinks.has {f g : Forest} (h : SameLinks f g) {id : CommandId} (hid : f.has id = true) :
    g.has id = true := by
  obtain ⟨c, hc⟩ := has_iff.mp hid
  obtain ⟨d, hd, -⟩ := h.symm.find? hc
  exact has_iff.mpr ⟨d, hd⟩

theorem exists_registerEach {f : Forest} {ids : List CommandId} (labels : Labels)
    (qualifier : String) (handlers : Handlers) (h : ∀ id ∈ ids, f.has id = true) :
    ∃ r, f.registerEach labels qualifier handlers ids = .ok r := by
  induction ids generalizing f labels with
  | nil => exact ⟨_, rfl⟩
  | cons root rest ih =>
      obtain ⟨hroot, hrest⟩ := List.forall_mem_cons.mp h
      obtain ⟨first, hfirst⟩ := exists_register labels qualifier handlers hroot
      have hknown : ∀ id ∈ rest, first.forest.has id = true :=
        fun id hid => (sameLinks_of_register hfirst).has (hrest id hid)
      obtain ⟨later, hlater⟩ := ih first.labels hknown
      rw [registerEach, hfirst]
      dsimp only
      rw [hlater]
      exact ⟨_, rfl⟩

/-- Commands whose subtrees have no command in common are bound one after the
other with everything below them. -/
theorem WellFormed.find?_of_registerEach {f : Forest} (hf : f.WellFormed) {labels : Labels}
    {qualifier : String} {handlers : Handlers} {ids : List CommandId} {r : Registration}
    (hids : (ids.flatMap f.descendants).Nodup)
    (h : f.registerEach labels qualifier handlers ids = .ok r) (n : CommandId) :
    r.forest.find? n = (f.find? n).map fun c =>
      if n ∈ ids.flatMap f.descendants then c.bind handlers else c := by
  induction ids generalizing f labels r with
  | nil => cases h; simp
  | cons root rest ih =>
      rw [List.flatMap_cons, List.nodup_append] at hids
      obtain ⟨-, hrest, hdisjoint⟩ := hids
      rw [registerEach] at h
      cases hfirst : f.register labels root qualifier handlers with
      | error e => rw [hfirst] at h; contradiction
      | ok first =>
          rw [hfirst] at h
          obtain ⟨later, hlater, rfl⟩ := map_eq_ok_iff.mp h
          have hlinks := sameLinks_of_register hfirst
          have hsame : rest.flatMap first.forest.descendants = rest.flatMap f.descendants :=
            List.flatMap_congr fun id _ => hlinks.descendants id
          have hbound := ih (hf.of_sameLinks hlinks) (hsame ▸ hrest) hlater
          rw [hsame, hf.find?_of_bind (exists_bind_of_register hfirst), Option.map_map] at hbound
          rw [hbound, List.flatMap_cons]
          congr 1
          funext c
          by_cases hroot : n ∈ f.descendants root
          · have hnot : n ∉ rest.flatMap f.descendants := fun hmem => hdisjoint n hroot n hmem rfl
            simp only [Function.comp_apply, if_neg hnot, if_pos hroot,
              if_pos (List.mem_append_left _ hroot)]
          · simp [hroot]

end Forest

/-! ## What an operation does to a command -/

namespace Forest

/-- The provider that an operation gives to a command. -/
def Operation.provides (f : Forest) (n : CommandId) : Operation → Option Provider
  | .provide id p => if n ∈ f.descendants id then some p else none
  | _ => none

/-- The handlers that an operation binds a command to. -/
def Operation.binds (f : Forest) (n : CommandId) : Operation → Option Handlers
  | .bind id handlers => if n ∈ f.descendants id then some handlers else none
  | .register _ root _ handlers => if n ∈ f.descendants root then some handlers else none
  | .registerRoots _ _ handlers =>
    if n ∈ f.roots.flatMap f.descendants then some handlers else none
  | _ => none

end Forest

/-- The command `d` is `c` after an operation that gave it this provider and
bound it to these handlers. -/
structure Command.Becomes (c : Command) (provider : Option Provider) (handlers : Option Handlers)
    (d : Command) : Prop where
  rest : d = { c with
    children := d.children, parameters := d.parameters, providers := d.providers,
    binding := d.binding }
  children : c.children <+: d.children
  parameters : ∃ positions, d.parameters = (c.settle positions).parameters
  providers : d.providers = provider.elim c.providers c.providers.insert
  binding : handlers = none → d.binding = c.binding
  bound : ∀ hs, handlers = some hs → d = c.bind hs

namespace Command

theorem becomes_adopt (c : Command) (ids : List CommandId) :
    c.Becomes none none { c with children := c.children ++ ids } where
  rest := rfl
  children := List.prefix_append _ _
  parameters := ⟨[], by rw [settle_nil]⟩
  providers := rfl
  binding _ := rfl
  bound _ h := by contradiction

theorem becomes_self (c : Command) : c.Becomes none none c := by
  have h := c.becomes_adopt []
  rwa [List.append_nil] at h

theorem becomes_settle (c : Command) (positions : List Nat) :
    c.Becomes none none (c.settle positions) where
  rest := rfl
  children := List.prefix_refl _
  parameters := ⟨positions, rfl⟩
  providers := rfl
  binding _ := rfl
  bound _ h := by contradiction

theorem becomes_provide (c : Command) (p : Provider) :
    c.Becomes (some p) none { c with providers := c.providers.insert p } where
  rest := rfl
  children := List.prefix_refl _
  parameters := ⟨[], by rw [settle_nil]⟩
  providers := rfl
  binding _ := rfl
  bound _ h := by contradiction

theorem becomes_bind (c : Command) (handlers : Handlers) :
    c.Becomes none (some handlers) (c.bind handlers) := by
  have hbind : ∃ positions, c.bind handlers =
      { c.settle positions with binding := c.resolve handlers } := by
    rw [bind]
    split
    · exact ⟨_, by rw [settleAll_eq]⟩
    · exact ⟨[], by rw [settle_nil]⟩
  obtain ⟨positions, hpositions⟩ := hbind
  refine ⟨?_, ?_, ⟨positions, ?_⟩, ?_, fun h => by contradiction, ?_⟩
  · rw [hpositions]; rfl
  · rw [hpositions]; exact List.prefix_refl _
  · rw [hpositions]
  · rw [hpositions]; rfl
  · rintro hs h
    cases h
    rfl

end Command

namespace Forest

/-- Planting roots leaves the commands that are there alone. -/
theorem find?_plantAll_of_lt (f : Forest) (ds : List Declaration) {n : Nat} (h : n < f.size) :
    (f.plantAll none ds).find? n = f.find? n := by
  rw [plantAll_eq f none (by simp)]
  simp only [find?, extend, adopt, Array.getElem?_append]
  exact if_pos h

/-- The commands after a load. -/
theorem perform_load_cases (f : Forest) (source : String) :
    (∃ d, Definition.read source = .ok d ∧ f.perform (.load source) = f.plantAll none d.commands) ∨
      f.perform (.load source) = f := by
  rw [perform, load]
  cases hread : Definition.read source with
  | error e => exact .inr rfl
  | ok d =>
      refine .inl ⟨d, rfl, ?_⟩
      show (f.plantRoots d.commands).2 = _
      rw [plantRoots_eq]

/-- An insertion, seen from a command that is there already. -/
theorem becomes_insert {f : Forest} (c : Command) {parent : Option CommandId}
    (h : ∀ p : Nat, parent = some p → p < f.size) {n : CommandId} {e : Command}
    (he : f.find? n = some e) :
    ∃ d, (f.insert c parent).find? n = some d ∧ e.Becomes none none d := by
  rw [find?_insert f c h, if_neg (Nat.ne_of_lt (lt_size_of_find? he)), he, Option.map_some]
  refine ⟨_, rfl, ?_⟩
  split
  · exact e.becomes_adopt [f.size]
  · exact e.becomes_self

/-- A walk, seen from a command. -/
theorem becomes_of_eq_settle {f g : Forest} (hg : ∃ log, g = f.settle log) {n : CommandId}
    {c : Command} (hc : f.find? n = some c) :
    ∃ d, g.find? n = some d ∧ c.Becomes none none d := by
  obtain ⟨log, rfl⟩ := hg
  rw [find?_settle, hc]
  exact ⟨_, rfl, c.becomes_settle _⟩

/-- Binding some of the commands, seen from one of them. -/
theorem becomes_of_find?_bind {f g : Forest} {ids : List CommandId} {handlers : Handlers}
    {n : CommandId} {c : Command} (hc : f.find? n = some c)
    (hg : g.find? n = (f.find? n).map fun c => if n ∈ ids then c.bind handlers else c) :
    ∃ d, g.find? n = some d ∧ c.Becomes none (if n ∈ ids then some handlers else none) d := by
  rw [hg, hc, Option.map_some]
  refine ⟨_, rfl, ?_⟩
  split
  · exact c.becomes_bind handlers
  · exact c.becomes_self

/-- Whether an operation only reads, and lets parameters settle on the way. -/
def Operation.reads : Operation → Bool
  | .execute _ _ _ | .complete _ _ _ | .help _ _ | .helpLines _ _ => true
  | _ => false

/-- What reading does to a forest. -/
theorem exists_settle_perform (f : Forest) (op : Operation) (h : op.reads = true) :
    ∃ log, f.perform op = f.settle log := by
  cases op with
  | execute id sender tokens =>
      rw [perform, execute]
      split
      · exact ⟨[], rfl⟩
      · exact ⟨_, rfl⟩
  | complete id sender tokens =>
      rw [perform, complete]
      split
      · exact ⟨[], rfl⟩
      · exact ⟨_, rfl⟩
  | help id sender =>
      rw [perform, help]
      split
      · exact ⟨[], rfl⟩
      · exact ⟨_, rfl⟩
  | helpLines id sender =>
      rw [perform, helpLines]
      split
      · exact ⟨[], rfl⟩
      · exact ⟨_, rfl⟩
  | load | appendRoot | appendUnder | provide | bind | register | registerRoots | setMessages =>
      contradiction

/-- **One operation**, seen from a command that is there already. -/
theorem WellFormed.becomes_perform {f : Forest} (hf : f.WellFormed) (op : Operation)
    {n : CommandId} {c : Command} (hc : f.find? n = some c) :
    ∃ d, (f.perform op).find? n = some d ∧ c.Becomes (op.provides f n) (op.binds f n) d := by
  cases op with
  | load source =>
      rcases f.perform_load_cases source with ⟨d, -, hload⟩ | hload
      · rw [hload, find?_plantAll_of_lt f _ (lt_size_of_find? hc)]
        exact ⟨c, hc, c.becomes_self⟩
      · rw [hload]
        exact ⟨c, hc, c.becomes_self⟩
  | appendRoot e => exact becomes_insert e (by simp) hc
  | appendUnder parent e =>
      rw [Forest.perform, appendUnder]
      by_cases hp : f.has parent = true
      · rw [if_pos hp]
        obtain ⟨d, hd⟩ := has_iff.mp hp
        refine becomes_insert e (fun p hparent => ?_) hc
        cases hparent
        exact lt_size_of_find? hd
      · rw [if_neg hp]
        exact ⟨c, hc, c.becomes_self⟩
  | provide id p =>
      rw [Forest.perform, Operation.provides]
      cases h : f.provide id p with
      | ok g =>
          dsimp only
          rw [hf.find?_of_provide h, hc, Option.map_some]
          refine ⟨_, rfl, ?_⟩
          split
          · exact c.becomes_provide p
          · exact c.becomes_self
      | error e =>
          rw [descendants_eq_nil_of_not_has (not_has_of_provide h), if_neg List.not_mem_nil]
          exact ⟨c, hc, c.becomes_self⟩
  | bind id handlers =>
      rw [Forest.perform, Operation.binds]
      cases h : f.bind id handlers with
      | ok answer => exact becomes_of_find?_bind hc (hf.find?_of_bind h n)
      | error e =>
          rw [descendants_eq_nil_of_not_has (not_has_of_bind h), if_neg List.not_mem_nil]
          exact ⟨c, hc, c.becomes_self⟩
  | register labels root qualifier handlers =>
      rw [Forest.perform, Operation.binds]
      cases h : f.register labels root qualifier handlers with
      | ok r => exact becomes_of_find?_bind hc (hf.find?_of_bind (exists_bind_of_register h) n)
      | error e =>
          rw [descendants_eq_nil_of_not_has fun hroot => ?_, if_neg List.not_mem_nil]
          · exact ⟨c, hc, c.becomes_self⟩
          · obtain ⟨r, hr⟩ := exists_register labels qualifier handlers hroot
            rw [hr] at h
            contradiction
  | registerRoots labels qualifier handlers =>
      obtain ⟨r, hr⟩ : ∃ r, f.registerRoots labels qualifier handlers = .ok r := by
        refine exists_registerEach labels qualifier handlers fun id hid => has_iff.mpr ?_
        exact hf.exists_find?_of_mem_roots hid
      rw [Forest.perform, Operation.binds, hr]
      exact becomes_of_find?_bind hc (hf.find?_of_registerEach hf.nodup_flatMap_descendants hr n)
  | setMessages m => exact ⟨c, hc, c.becomes_self⟩
  | execute | complete | help | helpLines =>
      exact becomes_of_eq_settle (f.exists_settle_perform _ rfl) hc

/-! ## Runs -/

/-- The forest after some operations. -/
def run (f : Forest) (ops : List Operation) : Forest := ops.foldl perform f

theorem Reachable.run {f : Forest} (hf : f.Reachable) (ops : List Operation) :
    (f.run ops).Reachable := by
  induction ops generalizing f with
  | nil => exact hf
  | cons op ops ih => exact ih (.after op hf)

/-! ## Newcomers -/

/-- The commands that an operation adds: the declared ones, or the one that is
appended. -/
def Operation.Brings : Operation → Command → Prop
  | .load source, c =>
    ∃ d, Definition.read source = .ok d ∧ c ∈ Declaration.commandsOfAll d.commands
  | .appendRoot e, c => c = e
  | .appendUnder _ e, c => c = e
  | _, _ => False

/-- Whether an operation can add commands. -/
def Operation.adds : Operation → Bool
  | .load _ | .appendRoot _ | .appendUnder _ _ => true
  | _ => false

/-- All other operations leave every link as it is. -/
theorem sameLinks_perform (f : Forest) {op : Operation} (h : op.adds = false) :
    SameLinks f (f.perform op) := by
  cases op with
  | load | appendRoot | appendUnder => contradiction
  | provide id p =>
      rw [perform]
      split
      · next h => exact sameLinks_of_provide h
      · exact .refl f
  | bind id handlers =>
      rw [perform]
      split
      · next h => exact sameLinks_of_bind h
      · exact .refl f
  | register labels root qualifier handlers =>
      rw [perform]
      split
      · next h => exact sameLinks_of_register h
      · exact .refl f
  | registerRoots labels qualifier handlers =>
      rw [perform]
      split
      · next h => exact sameLinks_of_registerEach h
      · exact .refl f
  | setMessages m => exact ⟨rfl, fun _ => rfl⟩
  | execute id sender tokens => exact sameLinks_execute f id sender tokens
  | complete id sender tokens => exact sameLinks_complete f id sender tokens
  | help id sender => exact sameLinks_help f id sender
  | helpLines id sender => exact sameLinks_helpLines f id sender

/-- An insertion brings its command under the size before. -/
theorem isCellOf_of_find?_insert {f : Forest} (c : Command) {parent : Option CommandId}
    (h : ∀ p : Nat, parent = some p → p < f.size) {n : Nat} {d : Command} (hn : f.size ≤ n)
    (hd : (f.insert c parent).find? n = some d) : Declaration.IsCellOf d c := by
  have hlt := lt_size_of_find? hd
  rw [size_insert] at hlt
  obtain rfl : n = f.size := by omega
  rw [find?_insert_newcomer c h] at hd
  cases hd
  exact ⟨_, _, rfl⟩

/-- **Newcomers** were declared or are the command that was appended, but for
their links. -/
theorem exists_brings_of_find?_perform {f : Forest} (op : Operation) {n : CommandId} {d : Command}
    (hn : f.size ≤ n) (hd : (f.perform op).find? n = some d) :
    ∃ c, op.Brings c ∧ Declaration.IsCellOf d c := by
  have hold : ∀ {g : Forest}, SameLinks f g → g.find? n ≠ some d := by
    intro g h heq
    obtain ⟨c, hc, -⟩ := h.find? heq
    exact absurd (lt_size_of_find? hc) (Nat.not_lt.mpr hn)
  cases op with
  | load source =>
      rcases f.perform_load_cases source with ⟨e, he, hload⟩ | hload
      · have hnew : ¬ n < f.commands.size := Nat.not_lt.mpr hn
        rw [hload, plantAll_eq f none (by simp)] at hd
        simp only [find?, extend, adopt, Array.getElem?_append, if_neg hnew,
          List.getElem?_toArray] at hd
        obtain ⟨c, hc, hcell⟩ := Declaration.mem_cellsOfAll _ _ _ (List.mem_of_getElem? hd)
        exact ⟨c, ⟨e, he, hc⟩, hcell⟩
      · rw [hload] at hd
        exact absurd hd (hold (.refl f))
  | appendRoot e => exact ⟨e, rfl, isCellOf_of_find?_insert e (by simp) hn hd⟩
  | appendUnder parent e =>
      rw [perform, appendUnder] at hd
      by_cases hp : f.has parent = true
      · rw [if_pos hp] at hd
        obtain ⟨c, hc⟩ := has_iff.mp hp
        refine ⟨e, rfl, isCellOf_of_find?_insert e (fun p hparent => ?_) hn hd⟩
        cases hparent
        exact lt_size_of_find? hc
      · rw [if_neg hp] at hd
        exact absurd hd (hold (.refl f))
  | provide | bind | register | registerRoots | setMessages | execute | complete | help
  | helpLines => exact absurd hd (hold (sameLinks_perform f rfl))

/-- **A property of commands** that newcomers have and that the operation keeps
holds of all commands afterwards. -/
theorem WellFormed.forall_find?_perform {f : Forest} (hf : f.WellFormed) {op : Operation}
    {P : Command → Prop} (h : ∀ n c, f.find? n = some c → P c)
    (hkeep : ∀ n c d, f.find? n = some c → c.Becomes (op.provides f n) (op.binds f n) d →
      P c → P d)
    (hnew : ∀ c d, op.Brings c → Declaration.IsCellOf d c → P d) :
    ∀ n d, (f.perform op).find? n = some d → P d := by
  intro n d hd
  cases hc : f.find? n with
  | some c =>
      obtain ⟨d', hd', hbecomes⟩ := hf.becomes_perform op hc
      cases hd.symm.trans hd'
      exact hkeep n c d hc hbecomes (h n c hc)
  | none =>
      obtain ⟨c, hbrings, hcell⟩ :=
        exists_brings_of_find?_perform op (find?_eq_none_iff.mp hc) hd
      exact hnew c d hbrings hcell

end Forest

end CommandForest
