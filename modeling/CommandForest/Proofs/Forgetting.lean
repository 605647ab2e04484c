import CommandForest.Proofs.Action
import CommandForest.Proofs.Cells
import CommandForest.Proofs.Change

/-!
# CommandForest.Proofs.Forgetting

Everything a program can do to a forest, with empty cells.  If the commands of
the forest are faithful (`Forest.Faithful`), then emptying all cells beforehand
does not change, cells aside, the forest afterwards
(`Faithful.forget_perform_forget`).

Commands stay faithful as long as nobody is given a second provider of the same
name (`Operation.Undisturbing`, `Faithful.perform`).
-/

namespace CommandForest

namespace Forest

/-! ## Empty cells -/

/-- The forest with empty cells. -/
def forget (f : Forest) : Forest := { f with commands := f.commands.map Command.forget }

@[simp] theorem find?_forget (f : Forest) (n : CommandId) :
    f.forget.find? n = (f.find? n).map Command.forget := by
  simp [forget, find?]

@[simp] theorem size_forget (f : Forest) : f.forget.size = f.size := by
  simp [forget, size]

@[simp] theorem has_forget (f : Forest) (id : CommandId) : f.forget.has id = f.has id := by
  rw [has, has, size_forget]

@[simp] theorem messages_forget (f : Forest) : f.forget.messages = f.messages := rfl

@[simp] theorem forget_forget (f : Forest) : f.forget.forget = f.forget := by
  simp [forget, Command.forget_forget]

theorem sameLinks_forget (f : Forest) : SameLinks f f.forget := by
  refine ⟨rfl, fun id => ?_⟩
  rw [find?_forget, Option.map_map]
  rfl

/-- Forests are equal if the same commands are found in them. -/
theorem eq_of_find? {f g : Forest} (hroots : f.roots = g.roots)
    (hmessages : f.messages = g.messages) (h : ∀ n, f.find? n = g.find? n) : f = g := by
  have hcommands : f.commands = g.commands := Array.ext_getElem? h
  cases f
  cases g
  simp_all

theorem unfold_forget (f : Forest) (fuel : Nat) (id : CommandId) :
    f.forget.unfold fuel id = (f.unfold fuel id).map Branch.forget := by
  induction fuel generalizing id with
  | zero => rfl
  | succ fuel ih =>
      have hbelow : ∀ ks : List CommandId, ks.filterMap (f.forget.unfold fuel) =
          Branch.forgetAll (ks.filterMap (f.unfold fuel)) := by
        intro ks
        rw [Branch.forgetAll_eq_map, List.map_filterMap]
        exact List.filterMap_congr fun k _ => ih k
      rw [unfold, unfold, find?_forget, Option.map_map, Option.map_map]
      congr 1
      funext c
      simp only [Function.comp_apply, Branch.forget, ← hbelow]
      rfl

theorem branch?_forget (f : Forest) (id : CommandId) :
    f.forget.branch? id = (f.branch? id).map Branch.forget := by
  rw [branch?, branch?, size_forget, unfold_forget]

theorem shownName_forget (f : Forest) (id : CommandId) :
    f.forget.shownName id = f.shownName id := by
  have hfrom : ∀ fuel id, f.forget.shownNameFrom fuel id = f.shownNameFrom fuel id := by
    intro fuel
    induction fuel with
    | zero => exact fun _ => rfl
    | succ fuel ih =>
        intro id
        rw [shownNameFrom, shownNameFrom, find?_forget]
        cases f.find? id with
        | none => rfl
        | some c =>
            have hparent : c.forget.parent = c.parent := rfl
            have hanonymous : c.forget.isAnonymous = c.isAnonymous := rfl
            simp only [Option.map_some, hparent, hanonymous, ih]
            rfl
  rw [shownName, shownName, size_forget, hfrom]

/-- All commands of the forest are faithful. -/
def Faithful (f : Forest) : Prop := ∀ n c, f.find? n = some c → c.Faithful

theorem faithful_forget (f : Forest) : f.forget.Faithful := by
  intro n d hd
  rw [find?_forget] at hd
  obtain ⟨c, -, rfl⟩ := Option.map_eq_some_iff.mp hd
  exact c.faithful_forget

theorem Faithful.branch {f : Forest} (h : f.Faithful) (hf : f.WellFormed) {id : CommandId}
    {b : Branch} (hb : f.branch? id = some b) : b.Faithful := by
  rintro ⟨n, c⟩ hmem
  exact h n c ((hf.mem_entries_iff hb).mp hmem).2

/-! ## Walks -/

/-- Walks fill cells and do nothing else. -/
theorem forget_settle (f : Forest) (log : List Event) : (f.settle log).forget = f.forget := by
  refine eq_of_find? (sameLinks_settle f log).1 (messages_settle f log) fun n => ?_
  rw [find?_forget, find?_forget, find?_settle, Option.map_map]
  congr 1
  funext c
  exact c.forget_settle _

theorem forget_perform_of_reads (f : Forest) (op : Operation) (h : op.reads = true) :
    (f.perform op).forget = f.forget := by
  obtain ⟨log, hlog⟩ := f.exists_settle_perform op h
  rw [hlog, forget_settle]

section

variable {f : Forest} (hf : f.WellFormed) (h : f.Faithful)

include hf h

theorem Faithful.execute (id : CommandId) (sender : Sender) (tokens : List String) :
    (f.forget.execute id sender tokens).handled = (f.execute id sender tokens).handled ∧
      (f.forget.execute id sender tokens).log = (f.execute id sender tokens).log := by
  rw [Forest.execute, Forest.execute, branch?_forget]
  cases hb : f.branch? id with
  | none => exact ⟨rfl, rfl⟩
  | some b =>
      have hsame := Branch.dispatch_forget f.messages_forget f.shownName_forget sender b
        (h.branch hf hb) tokens
      simp only [Option.map_some, hsame, and_self]

theorem Faithful.complete (id : CommandId) (sender : Sender) (tokens : List String) :
    (f.forget.complete id sender tokens).1 = (f.complete id sender tokens).1 := by
  rw [Forest.complete, Forest.complete, branch?_forget]
  cases hb : f.branch? id with
  | none => rfl
  | some b => simp only [Option.map_some, Branch.complete_forget sender b (h.branch hf hb) tokens]

theorem Faithful.help (id : CommandId) (sender : Sender) :
    (f.forget.help id sender).1 = (f.help id sender).1 := by
  rw [Forest.help, Forest.help, branch?_forget]
  cases hb : f.branch? id with
  | none => rfl
  | some b =>
      have hsame := Branch.helpEvents_forget f.messages_forget f.shownName_forget
        (h.branch hf hb) sender
      simp only [Option.map_some, hsame, messages_forget]

theorem Faithful.helpLines (id : CommandId) (sender : Sender) :
    (f.forget.helpLines id sender).1 = (f.helpLines id sender).1 := by
  rw [Forest.helpLines, Forest.helpLines, branch?_forget]
  cases hb : f.branch? id with
  | none => rfl
  | some b => simp only [Option.map_some, Branch.helpLines_forget (h.branch hf hb), messages_forget]

end

/-! ## Insertions -/

theorem find?_of_forget_eq {f g : Forest} (h : f.forget = g.forget) {n : CommandId} {c : Command}
    (hc : f.find? n = some c) : ∃ d, g.find? n = some d ∧ d.forget = c.forget := by
  have hfind : (f.find? n).map Command.forget = (g.find? n).map Command.forget := by
    rw [← find?_forget, ← find?_forget, h]
  rw [hc, Option.map_some, eq_comm, Option.map_eq_some_iff] at hfind
  exact hfind

theorem messages_insert (f : Forest) (c : Command) (parent : Option CommandId) :
    (f.insert c parent).messages = f.messages := by
  cases parent <;> rfl

/-- Cells play no part in an insertion, neither those in the forest nor those
of the newcomer. -/
theorem forget_insert_forget (f : Forest) {c d : Command} (hcd : c.forget = d.forget)
    {parent : Option CommandId} (h : ∀ p : Nat, parent = some p → p < f.size) :
    (f.forget.insert c parent).forget = (f.insert d parent).forget := by
  have h' : ∀ p : Nat, parent = some p → p < f.forget.size := by simpa using h
  refine eq_of_find? ?_ ?_ fun n => ?_
  · show (f.forget.insert c parent).roots = (f.insert d parent).roots
    rw [roots_insert, roots_insert, size_forget]
    rfl
  · rw [messages_forget, messages_forget, messages_insert, messages_insert, messages_forget]
  · rw [find?_forget, find?_forget, find?_insert _ c h', find?_insert f d h, size_forget]
    by_cases hn : n = f.size
    · have hnew : ∀ e : Command, ({ e with parent := parent, children := [] } : Command).forget =
          { e.forget with parent := parent, children := [] } := fun _ => rfl
      simp only [if_pos hn, Option.map_some, hnew, hcd]
    · simp only [if_neg hn, find?_forget, Option.map_map]
      congr 1
      funext e
      simp only [Function.comp_apply]
      split
      · exact congrArg (fun e' : Command => { e' with children := e.children ++ [f.size] })
          e.forget_forget
      · exact e.forget_forget

/-- Cells play no part in planting. -/
theorem forget_plantAll_forget (f : Forest) (ds : List Declaration) :
    (f.forget.plantAll none ds).forget = (f.plantAll none ds).forget := by
  have htwice : Command.forget ∘ Command.forget = Command.forget := funext Command.forget_forget
  rw [plantAll_eq f.forget none (by simp), plantAll_eq f none (by simp), size_forget]
  simp [forget, adopt, extend, htwice]

/-! ## Changes along a list -/

theorem roots_foldl_modify (change : Command → Command) (f : Forest) (ids : List CommandId) :
    (ids.foldl (fun g id => g.modify id change) f).roots = f.roots ∧
      (ids.foldl (fun g id => g.modify id change) f).messages = f.messages := by
  induction ids generalizing f with
  | nil => exact ⟨rfl, rfl⟩
  | cons id ids ih => exact ih (f.modify id change)

/-- A change that does not depend on the cells of the commands it is made to. -/
theorem forget_foldl_modify {f : Forest} {ids : List CommandId} (hids : ids.Nodup)
    (change : Command → Command)
    (h : ∀ n c, f.find? n = some c → (change c.forget).forget = (change c).forget) :
    (ids.foldl (fun g id => g.modify id change) f.forget).forget =
      (ids.foldl (fun g id => g.modify id change) f).forget := by
  obtain ⟨hroots, hmessages⟩ := roots_foldl_modify change f ids
  obtain ⟨hroots', hmessages'⟩ := roots_foldl_modify change f.forget ids
  refine eq_of_find? (hroots'.trans hroots.symm) (hmessages'.trans hmessages.symm) fun n => ?_
  rw [find?_forget, find?_forget, find?_foldl_modify change hids, find?_foldl_modify change hids,
    find?_forget]
  cases hc : f.find? n with
  | none => rfl
  | some c =>
      simp only [Option.map_some]
      split
      · rw [h n c hc]
      · rw [c.forget_forget]

/-! ## Providers and bindings -/

theorem WellFormed.provide_forget {f : Forest} (hf : f.WellFormed) (id : CommandId)
    (p : Provider) : (f.forget.provide id p).map forget = (f.provide id p).map forget := by
  rw [provide, provide, has_forget, f.sameLinks_forget.descendants]
  by_cases hid : f.has id = true
  · rw [if_pos hid, if_pos hid]
    refine congrArg Except.ok (forget_foldl_modify (hf.nodup_descendants id) _ fun n c _ => ?_)
    exact congrArg (fun d : Command => { d with providers := c.providers.insert p }) c.forget_forget
  · rw [if_neg hid, if_neg hid]

section

variable {f : Forest} (hf : f.WellFormed) (h : f.Faithful)

include hf h

theorem Faithful.bind (id : CommandId) (handlers : Handlers) :
    (f.forget.bind id handlers).map (fun answer => (answer.1.forget, answer.2)) =
      (f.bind id handlers).map fun answer => (answer.1.forget, answer.2) := by
  rw [Forest.bind, Forest.bind, has_forget, f.sameLinks_forget.descendants]
  by_cases hid : f.has id = true
  · have hforest := forget_foldl_modify (hf.nodup_descendants id) (Command.bind · handlers)
      fun n c hc => (h n c hc).forget_bind handlers
    have hreport : ∀ n, ((f.forget.find? n).bind fun c => c.bindReport handlers) =
        (f.find? n).bind fun c => c.bindReport handlers := by
      intro n
      rw [find?_forget]
      cases hc : f.find? n with
      | none => rfl
      | some c => exact (h n c hc).bindReport handlers
    rw [if_pos hid, if_pos hid]
    simp only [Except.map, hforest, hreport]
  · rw [if_neg hid, if_neg hid]

end

/-! ## Undisturbed commands -/

/-- The operation gives no command a second provider of the same name, and
appends only faithful commands. -/
def Operation.Undisturbing (f : Forest) : Operation → Prop
  | .provide id p =>
    ∀ n ∈ f.descendants id, ∀ c, f.find? n = some c → c.providers.find? p.name = none
  | .appendRoot c | .appendUnder _ c => c.Faithful
  | _ => True

theorem Operation.Undisturbing.of_provides {f : Forest} {op : Operation} (h : op.Undisturbing f)
    {n : CommandId} {c : Command} (hc : f.find? n = some c) {q : Provider}
    (hq : op.provides f n = some q) : c.providers.find? q.name = none := by
  cases op with
  | provide id p =>
      rw [provides] at hq
      split at hq
      · next hn =>
          cases hq
          exact h n hn c hc
      · contradiction
  | load | appendRoot | appendUnder | bind | register | registerRoots | setMessages | execute
  | complete | help | helpLines => contradiction

theorem Operation.Undisturbing.of_brings {f : Forest} {op : Operation} (h : op.Undisturbing f)
    {c d : Command} (hbrings : op.Brings c) (hcell : Declaration.IsCellOf d c) : d.Faithful := by
  have hc : c.Faithful := by
    cases op with
    | load source =>
        obtain ⟨e, he, hmem⟩ := hbrings
        have hdeclared := Declaration.isDeclared_of_read he c hmem
        exact fun p hp => Parameter.faithful_of_settled (hdeclared.unsettled p hp) _
    | appendRoot e | appendUnder _ e =>
        obtain rfl : c = e := hbrings
        exact h
    | provide | bind | register | registerRoots | setMessages | execute | complete | help
    | helpLines => exact absurd hbrings id
  obtain ⟨parent, children, rfl⟩ := hcell
  exact hc

/-- **Undisturbed**, commands stay faithful. -/
theorem Faithful.perform {f : Forest} (h : f.Faithful) (hf : f.WellFormed) {op : Operation}
    (hop : op.Undisturbing f) : (f.perform op).Faithful :=
  hf.forall_find?_perform h
    (fun _ _ _ hc hbecomes hfaithful =>
      hfaithful.of_becomes hbecomes fun _ hq => hop.of_provides hc hq)
    fun _ _ => hop.of_brings

/-! ## Registering -/

/-- A registration with empty cells. -/
def Registration.forget (r : Registration) : Registration := { r with forest := r.forest.forget }

/-- Two attempts come to the same: the same error, or answers that are alike. -/
theorem map_eq_map_cases {ε α β : Type} {k : α → β} {a b : Except ε α} (h : a.map k = b.map k) :
    (∃ e, a = .error e ∧ b = .error e) ∨ ∃ x y, a = .ok x ∧ b = .ok y ∧ k x = k y := by
  cases a with
  | error e =>
      cases b with
      | error e' => cases h; exact .inl ⟨e, rfl, rfl⟩
      | ok y => contradiction
  | ok x =>
      cases b with
      | error e => contradiction
      | ok y => injection h with hsame; exact .inr ⟨x, y, rfl, rfl, hsame⟩

theorem Faithful.register {f : Forest} (h : f.Faithful) (hf : f.WellFormed) (labels : Labels)
    (root : CommandId) (qualifier : String) (handlers : Handlers) :
    (f.forget.register labels root qualifier handlers).map Registration.forget =
      (f.register labels root qualifier handlers).map Registration.forget := by
  rw [Forest.register, Forest.register]
  rcases map_eq_map_cases (h.bind hf root handlers) with
    ⟨e, hempty, hreal⟩ | ⟨⟨g', reports'⟩, ⟨g, reports⟩, hempty, hreal, hsame⟩
  · rw [hempty, hreal]
  · have hforget : g'.forget = g.forget := congrArg Prod.fst hsame
    have hreports : reports' = reports := congrArg Prod.snd hsame
    have hmessages : g'.messages = g.messages := (congrArg Forest.messages hforget :)
    rw [hempty, hreal]
    dsimp only
    cases hc : g.find? root with
    | none =>
        have hnone : g'.find? root = none := by
          rw [← Option.map_eq_none_iff (f := Command.forget), ← find?_forget, hforget, find?_forget,
            hc, Option.map_none]
        rw [hnone]
    | some c =>
        obtain ⟨d, hd, hdc⟩ := find?_of_forget_eq hforget.symm hc
        have haliases : d.aliases = c.aliases := (congrArg Command.aliases hdc :)
        have hhelp : d.help = c.help := (congrArg Command.help hdc :)
        rw [hd]
        simp only [Except.map, Registration.forget, description, haliases, hhelp, hmessages,
          hforget, hreports]

/-- Registers commands one after the other, each in a forest with empty
cells. -/
def registerEachAfresh (f : Forest) (labels : Labels) (qualifier : String) (handlers : Handlers) :
    List CommandId → Except UnknownCommand Registration
  | [] => .ok { forest := f, labels := labels }
  | root :: rest =>
    match f.forget.register labels root qualifier handlers with
    | .error e => .error e
    | .ok first =>
      (registerEachAfresh first.forest first.labels qualifier handlers rest).map fun later =>
        { later with reports := first.reports ++ later.reports }

/-- **Registering** does not depend on the cells, at any root. -/
theorem Faithful.registerEach {f g : Forest} (h : f.Faithful) (hf : f.WellFormed)
    (hg : g.forget = f.forget) (labels : Labels) (qualifier : String) (handlers : Handlers)
    (ids : List CommandId) :
    (g.registerEachAfresh labels qualifier handlers ids).map Registration.forget =
      (f.registerEach labels qualifier handlers ids).map Registration.forget := by
  induction ids generalizing f g labels with
  | nil => simp only [registerEachAfresh, Forest.registerEach, Except.map, Registration.forget, hg]
  | cons root rest ih =>
      rw [registerEachAfresh, Forest.registerEach, hg]
      rcases map_eq_map_cases (h.register hf labels root qualifier handlers) with
        ⟨e, hempty, hreal⟩ | ⟨first', first, hempty, hreal, hsame⟩
      · rw [hempty, hreal]
      · have hforest : first'.forest.forget = first.forest.forget :=
          congrArg Registration.forest hsame
        have hlabels : first'.labels = first.labels := (congrArg Registration.labels hsame :)
        have hreports : first'.reports = first.reports := (congrArg Registration.reports hsame :)
        have hperform : f.perform (.register labels root qualifier handlers) = first.forest := by
          rw [Forest.perform, hreal]
        have hfaithful : first.forest.Faithful := hperform ▸ h.perform hf trivial
        have hwf : first.forest.WellFormed := hf.of_sameLinks (sameLinks_of_register hreal)
        rw [hempty, hreal]
        dsimp only
        rw [hlabels, hreports]
        rcases map_eq_map_cases (ih hfaithful hwf hforest first.labels) with
          ⟨e, hempty', hreal'⟩ | ⟨later', later, hempty', hreal', hlater⟩
        · rw [hempty', hreal']
        · rw [hempty', hreal']
          exact congrArg (fun r : Registration =>
            Except.ok { r with reports := first.reports ++ r.reports }) hlater

/-! ## Operations -/

section

variable {f : Forest} (h : f.Faithful) (hf : f.WellFormed)

include h hf

/-- Registering every root does not depend on the cells either, whether or not
they are emptied again in between. -/
theorem Faithful.registerRoots (labels : Labels) (qualifier : String) (handlers : Handlers) :
    (f.forget.registerRoots labels qualifier handlers).map Registration.forget =
      (f.registerRoots labels qualifier handlers).map Registration.forget := by
  have hreal := h.registerEach hf rfl labels qualifier handlers f.roots
  have hempty := f.faithful_forget.registerEach (hf.of_sameLinks f.sameLinks_forget)
    f.forget_forget.symm labels qualifier handlers f.roots
  exact hempty.symm.trans hreal

/-- **An operation** leaves the same forest behind, but for the cells, if all
cells are emptied before it. -/
theorem Faithful.forget_perform_forget (op : Operation) :
    (f.forget.perform op).forget = (f.perform op).forget := by
  cases op with
  | load source =>
      rw [Forest.perform, Forest.perform, Forest.load, Forest.load]
      cases Definition.read source with
      | error e => exact f.forget_forget
      | ok d =>
          simp only [Except.map, plantRoots_eq]
          exact f.forget_plantAll_forget d.commands
  | appendRoot c => exact f.forget_insert_forget rfl (by simp)
  | appendUnder parent c =>
      rw [Forest.perform, Forest.perform, appendUnder, appendUnder, has_forget]
      by_cases hp : f.has parent = true
      · rw [if_pos hp, if_pos hp]
        refine f.forget_insert_forget rfl fun p hparent => ?_
        cases hparent
        simpa [has] using hp
      · rw [if_neg hp, if_neg hp]
        exact f.forget_forget
  | provide id p =>
      rw [Forest.perform, Forest.perform]
      rcases map_eq_map_cases (hf.provide_forget id p) with
        ⟨e, hempty, hreal⟩ | ⟨x, y, hempty, hreal, hsame⟩
      · rw [hempty, hreal]
        exact f.forget_forget
      · rw [hempty, hreal]
        exact hsame
  | bind id handlers =>
      rw [Forest.perform, Forest.perform]
      rcases map_eq_map_cases (h.bind hf id handlers) with
        ⟨e, hempty, hreal⟩ | ⟨x, y, hempty, hreal, hsame⟩
      · rw [hempty, hreal]
        exact f.forget_forget
      · rw [hempty, hreal]
        exact congrArg Prod.fst hsame
  | register labels root qualifier handlers =>
      rw [Forest.perform, Forest.perform]
      rcases map_eq_map_cases (h.register hf labels root qualifier handlers) with
        ⟨e, hempty, hreal⟩ | ⟨x, y, hempty, hreal, hsame⟩
      · rw [hempty, hreal]
        exact f.forget_forget
      · rw [hempty, hreal]
        exact congrArg Registration.forest hsame
  | registerRoots labels qualifier handlers =>
      rw [Forest.perform, Forest.perform]
      rcases map_eq_map_cases (h.registerRoots hf labels qualifier handlers) with
        ⟨e, hempty, hreal⟩ | ⟨x, y, hempty, hreal, hsame⟩
      · rw [hempty, hreal]
        exact f.forget_forget
      · rw [hempty, hreal]
        exact congrArg Registration.forest hsame
  | setMessages m => exact congrArg (fun k : Forest => { k with messages := m }) f.forget_forget
  | execute | complete | help | helpLines =>
      rw [forget_perform_of_reads _ _ rfl, forget_perform_of_reads _ _ rfl, f.forget_forget]

end

end Forest

end CommandForest
