import CommandForest.Proofs.Action
import CommandForest.Proofs.Kinds

/-!
# CommandForest.Proofs.Signature

The comparison of signatures at binding is good for every later dispatch.
`Forest.Keeps` follows a command, and the copies that are made of it, through
everything that is done to a forest except binding them again.  All along,

* a typed handler that was bound while every provider was there gets values of
  exactly the kinds that it declares, and so finds its arguments in them
  (`answersTyped_of_bound`), although providers may have been replaced by
  others with products of another kind;
* a recorded mismatch keeps the handler from being called
  (`answersMismatch_of_mismatch`).
-/

namespace CommandForest

/-! ## Commands as headers declare them -/

theorem Command.takesRest_settle (c : Command) (positions : List Nat) :
    (c.settle positions).parameters.map Parameter.takesRest =
      c.parameters.map Parameter.takesRest := by
  apply List.ext_getElem?
  intro i
  rw [settle, List.getElem?_map, List.getElem?_map, List.getElem?_mapIdx]
  cases c.parameters[i]? with
  | none => rfl
  | some p =>
      simp only [Option.map_some]
      split <;> rfl

theorem Command.restIsLast_iff {c : Command} :
    c.RestIsLast ↔ ∀ takes ∈ (c.parameters.map Parameter.takesRest).dropLast, takes = false := by
  rw [← List.map_dropLast, List.forall_mem_map]
  rfl

theorem Command.RestIsLast.of_becomes {c d : Command} {provider : Option Provider}
    {handlers : Option Handlers} (h : c.RestIsLast) (hd : c.Becomes provider handlers d) :
    d.RestIsLast := by
  obtain ⟨positions, hpositions⟩ := hd.parameters
  rw [restIsLast_iff] at h ⊢
  rw [hpositions, takesRest_settle]
  exact h

namespace Forest

/-- The operation appends no command but one as headers declare them: only the
last parameter may take the rest of the line. -/
def Operation.RestIsLast : Operation → Prop
  | .appendRoot c | .appendUnder _ c => c.RestIsLast
  | _ => True

theorem Operation.RestIsLast.of_brings {op : Operation} (h : op.RestIsLast) {c d : Command}
    (hbrings : op.Brings c) (hcell : Declaration.IsCellOf d c) : d.RestIsLast := by
  have hc : c.RestIsLast := by
    cases op with
    | load source =>
        obtain ⟨e, he, hmem⟩ := hbrings
        exact (Declaration.isDeclared_of_read he c hmem).restIsLast
    | appendRoot e | appendUnder _ e =>
        obtain rfl : c = e := hbrings
        exact h
    | provide | bind | register | registerRoots | setMessages | execute | complete | help
    | helpLines => exact absurd hbrings id
  obtain ⟨parent, children, rfl⟩ := hcell
  exact hc

/-- In every run that only appends such commands, all commands are so. -/
theorem restIsLast_of_run {ops : List Operation} (h : ∀ op ∈ ops, op.RestIsLast) :
    ∀ n c, (({} : Forest).run ops).find? n = some c → c.RestIsLast := by
  have hrun : ∀ (ops : List Operation) (f : Forest), (∀ op ∈ ops, op.RestIsLast) → f.WellFormed →
      (∀ n c, f.find? n = some c → c.RestIsLast) →
      ∀ n c, (f.run ops).find? n = some c → c.RestIsLast := by
    intro ops
    induction ops with
    | nil => exact fun f _ _ hall => hall
    | cons op ops ih =>
        intro f hops hf hall
        obtain ⟨hop, hlater⟩ := List.forall_mem_cons.mp hops
        refine ih (f.perform op) hlater (hf.perform op) ?_
        exact hf.forall_find?_perform hall (fun n c d _ hbecomes hc => hc.of_becomes hbecomes)
          fun c d => hop.of_brings
  exact hrun ops {} h wellFormed_empty fun n c hc => by contradiction

/-! ## A command until it is bound again -/

/-- The command `m` of the last forest is the command `n` of `g`, or a copy of
it, and was not bound again in between. -/
inductive Keeps (g : Forest) (n : CommandId) : Forest → CommandId → Prop
  | here : Keeps g n g n
  | after {h : Forest} {m : CommandId} (op : Operation) :
      Keeps g n h m → op.binds h m = none → Keeps g n (h.perform op) m
  | copied {h k : Forest} {m : CommandId} {c : Command} {parent : Option CommandId} :
      Keeps g n h m → h.find? m = some c → k.Reachable →
      (∀ p : Nat, parent = some p → p < k.size) → Keeps g n (k.insert c parent) k.size

/-- Commands that answer words in the same way. -/
structure SameAnswers (c d : Command) : Prop where
  hook : d.hook = c.hook
  binding : d.binding = c.binding
  restIsLast : c.RestIsLast → d.RestIsLast
  parameters : c.Fixed → d.parameters = c.parameters

/-- **A kept command** stays bound to what it was bound to, and its fixed
parameters stay as they were. -/
theorem Keeps.exists_sameAnswers {g h : Forest} {n m : CommandId} (hkeeps : g.Keeps n h m)
    (hg : g.WellFormed) {c : Command} (hc : g.find? n = some c) :
    h.WellFormed ∧ ∃ d, h.find? m = some d ∧ SameAnswers c d := by
  induction hkeeps with
  | here => exact ⟨hg, c, hc, rfl, rfl, fun h => h, fun _ => rfl⟩
  | after op _ hbinds ih =>
      obtain ⟨hwf, d, hd, hsame⟩ := ih
      obtain ⟨e, he, hbecomes⟩ := hwf.becomes_perform op hd
      refine ⟨hwf.perform op, e, he, ?_, ?_, ?_, ?_⟩
      · have hhook : e.hook = d.hook := by rw [hbecomes.rest]
        exact hhook.trans hsame.hook
      · exact (hbecomes.binding hbinds).trans hsame.binding
      · exact fun hrest => (hsame.restIsLast hrest).of_becomes hbecomes
      · intro hfixed
        have hparameters := hsame.parameters hfixed
        have hfixed' : d.Fixed := by rwa [Command.Fixed, hparameters]
        exact (hfixed'.parameters_of_becomes hbecomes).trans hparameters
  | @copied _ _ _ e _ _ hfind hk hparent ih =>
      obtain ⟨-, d, hd, hsame⟩ := ih
      cases hd.symm.trans hfind
      refine ⟨hk.wellFormed.insert e hparent, _, find?_insert_newcomer e hparent, ?_⟩
      exact ⟨hsame.hook, hsame.binding, hsame.restIsLast, hsame.parameters⟩

/-! ## What converted words lead to -/

section

variable {c : Command} {tokens : List String} {values : List Value}
  (hvalues : (convertAll c.providers c.parameters tokens).values = some values)
  (sender : Sender) (id : CommandId)

include hvalues

/-- Converted words go to the handler. -/
theorem actionsOf_attempt_of_bound {handler : Handler} (hbound : c.binding = .bound handler) :
    (c.attempt sender id tokens).handled = true ∧ actionsOf (c.attempt sender id tokens).log =
      [.answered id (c.hook.getD "") values (handler.respond sender values)] := by
  have hlookups := actionsOf_lookups id (convertAll c.providers c.parameters tokens)
  rw [Command.attempt, hbound]
  dsimp only
  rw [hvalues]
  dsimp only
  rw [actionsOf_append, hlookups]
  exact ⟨rfl, rfl⟩

/-- Converted words go nowhere if the signatures did not agree. -/
theorem actionsOf_attempt_of_mismatch {expected : List (Option ValueKind)}
    {found : List ValueKind} (hmismatch : c.binding = .mismatch expected found) :
    (c.attempt sender id tokens).handled = true ∧ actionsOf (c.attempt sender id tokens).log =
      [.mismatched id (c.hook.getD "") expected found] := by
  have hlookups := actionsOf_lookups id (convertAll c.providers c.parameters tokens)
  rw [Command.attempt, hmismatch]
  dsimp only
  rw [hvalues]
  dsimp only
  rw [actionsOf_append, hlookups]
  exact ⟨rfl, rfl⟩

end

/-- A command that admits the sender and whose words convert ends the walk. -/
theorem log_execute_of_attempt {f : Forest} (hf : f.WellFormed) {id : CommandId} {c : Command}
    (hc : f.find? id = some c) {sender : Sender} (hadmits : c.Admits sender) {tokens : List String}
    (h : (c.attempt sender id tokens).handled = true) :
    (f.execute id sender tokens).log = (c.attempt sender id tokens).log := by
  obtain ⟨bs, hb, -⟩ := hf.exists_branch hc
  have hdenial := Command.denial_eq_none_iff.mpr hadmits
  rw [execute, hb]
  dsimp only
  rw [Branch.dispatch, hdenial]
  dsimp only
  rw [if_pos h]

/-- The handler of the command is called for all words that convert, with
values of the declared kinds, in which it finds its arguments, and no dispatch
ends in a mismatch there. -/
structure AnswersTyped (f : Forest) (n : CommandId) (declared : List ValueKind)
    (body : Sender → List Value → Response) : Prop where
  converted : ∃ c, f.find? n = some c ∧ ∀ sender tokens values,
    (convertAll c.providers c.parameters tokens).values = some values →
      values.map Value.kind = declared ∧
      (Arguments.ofValues? declared values).isSome = true ∧
      (c.attempt sender n tokens).handled = true ∧
      actionsOf (c.attempt sender n tokens).log =
        [.answered n (c.hook.getD "") values (body sender values)] ∧
      (c.Admits sender → (f.execute n sender tokens).actions =
        [.answered n (c.hook.getD "") values (body sender values)])
  answered : ∀ id sender tokens hook values response,
    .answered n hook values response ∈ (f.execute id sender tokens).actions →
      values.map Value.kind = declared ∧ (Arguments.ofValues? declared values).isSome = true ∧
        response = body sender values
  not_mismatched : ∀ id sender tokens hook expected found,
    .mismatched n hook expected found ∉ (f.execute id sender tokens).actions

/-- The handler of the command is never called: whenever words convert there,
the sender reads the general failure message, once. -/
structure AnswersMismatch (f : Forest) (n : CommandId) (expected : List (Option ValueKind))
    (found : List ValueKind) : Prop where
  converted : ∃ c, f.find? n = some c ∧ ∀ sender tokens values,
    (convertAll c.providers c.parameters tokens).values = some values →
      (c.attempt sender n tokens).handled = true ∧
      actionsOf (c.attempt sender n tokens).log =
        [.mismatched n (c.hook.getD "") expected found] ∧
      (c.Admits sender →
        (f.execute n sender tokens).actions = [.mismatched n (c.hook.getD "") expected found])
  mismatched : ∀ id sender tokens hook slots kinds,
    .mismatched n hook slots kinds ∈ (f.execute id sender tokens).actions →
      (f.execute id sender tokens).messages = [f.messages.executionFailed]
  not_answered : ∀ id sender tokens hook values response,
    .answered n hook values response ∉ (f.execute id sender tokens).actions

/-- An action of a dispatch is its only one. -/
theorem WellFormed.actions_eq_of_mem {f : Forest} (hf : f.WellFormed) {id : CommandId}
    {sender : Sender} {tokens : List String} {a : Action}
    (h : a ∈ (f.execute id sender tokens).actions) :
    (f.execute id sender tokens).actions = [a] ∧ f.Performs sender a := by
  obtain ⟨b, hb⟩ : ∃ b, (f.execute id sender tokens).actions = [b] := by
    rw [← (handled_execute_iff hf id sender tokens).1, ← Bool.not_eq_false,
      (handled_execute_iff hf id sender tokens).2]
    exact List.ne_nil_of_mem h
  rw [hb] at h
  obtain rfl := List.mem_singleton.mp h
  exact ⟨hb, (performs_of_actions_execute hf hb).1⟩

section

variable {f : Forest} (hf : f.WellFormed) {n : CommandId} {c : Command} (hc : f.find? n = some c)

include hf hc

/-- A typed handler whose signature is what the parameters yield is called with
values of these kinds. -/
theorem answersTyped_of_bound (hrest : c.RestIsLast) {declared : List ValueKind}
    {body : Sender → List Value → Response} (hbound : c.binding = .bound (.typed declared body))
    (hslots : c.slots = declared.map some) : f.AnswersTyped n declared body := by
  have hkinds : ∀ {tokens values},
      (convertAll c.providers c.parameters tokens).values = some values →
      values.map Value.kind = declared := by
    intro tokens values hvalues
    have hsame : (values.map Value.kind).map some = declared.map some := by
      rw [List.map_map, ← hslots]
      exact (Command.kinds_of_convertAll hrest hvalues).symm
    exact List.map_injective_iff.mpr (fun _ _ => Option.some.inj) hsame
  have harguments : ∀ {tokens values},
      (convertAll c.providers c.parameters tokens).values = some values →
      (Arguments.ofValues? declared values).isSome = true := fun hvalues =>
    Arguments.isSome_ofValues?_iff.mpr (hkinds hvalues)
  have hrespond : ∀ {values} sender, values.map Value.kind = declared →
      (Handler.typed declared body).respond sender values = body sender values :=
    fun sender h => by rw [Handler.respond_typed, if_pos h]
  constructor
  case converted =>
      refine ⟨c, hc, fun sender tokens values hvalues => ?_⟩
      obtain ⟨hhandled, hactions⟩ := actionsOf_attempt_of_bound hvalues sender n hbound
      rw [hrespond sender (hkinds hvalues)] at hactions
      refine ⟨hkinds hvalues, harguments hvalues, hhandled, hactions, fun hadmits => ?_⟩
      rw [Outcome.actions, log_execute_of_attempt hf hc hadmits hhandled, hactions]
  case answered =>
      intro id sender tokens hook values response h
      obtain ⟨-, d, handler, words, hd, -, hbinding, -, hvalues, rfl⟩ := hf.actions_eq_of_mem h
      cases hc.symm.trans hd
      cases hbound.symm.trans hbinding
      exact ⟨hkinds hvalues, harguments hvalues, hrespond sender (hkinds hvalues)⟩
  case not_mismatched =>
      intro id sender tokens hook expected found h
      obtain ⟨-, d, hd, -, hbinding, -⟩ := hf.actions_eq_of_mem h
      cases hc.symm.trans hd
      cases hbound.symm.trans hbinding

/-- The handler of a recorded mismatch is not called. -/
theorem answersMismatch_of_mismatch {expected : List (Option ValueKind)} {found : List ValueKind}
    (hmismatch : c.binding = .mismatch expected found) : f.AnswersMismatch n expected found := by
  constructor
  case converted =>
      refine ⟨c, hc, fun sender tokens values hvalues => ?_⟩
      obtain ⟨hhandled, hactions⟩ := actionsOf_attempt_of_mismatch hvalues sender n hmismatch
      refine ⟨hhandled, hactions, fun hadmits => ?_⟩
      rw [Outcome.actions, log_execute_of_attempt hf hc hadmits hhandled, hactions]
  case mismatched =>
      intro id sender tokens hook slots kinds h
      obtain ⟨honly, -⟩ := hf.actions_eq_of_mem h
      have hmessages := messages_execute_eq_sent hf id sender tokens
      rw [hmessages, honly]
      rfl
  case not_answered =>
      intro id sender tokens hook values response h
      obtain ⟨-, d, handler, words, hd, -, hbinding, -⟩ := hf.actions_eq_of_mem h
      cases hc.symm.trans hd
      cases hmismatch.symm.trans hbinding

end

/-! ## Binding and what comes after -/

/-- **Signatures are checked once**: take any run and an operation that binds a
command.  If it leaves a typed handler there, and every custom parameter had a
provider, then the command and its copies call this handler with values of the
declared kinds until they are bound again, whatever happens to the providers.
If it leaves a mismatch, no handler is called until then. -/
theorem binding_checked {ops : List Operation} (hops : ∀ op ∈ ops, op.RestIsLast) (op : Operation)
    {n : CommandId} {c : Command} {handlers : Handlers}
    (hc : (({} : Forest).run ops).find? n = some c)
    (hbinds : op.binds (({} : Forest).run ops) n = some handlers) :
    let g := (({} : Forest).run ops).perform op
    ∃ d, g.find? n = some d ∧
      (∀ declared body, d.binding = .bound (.typed declared body) → c.FindsProviders →
        ∀ h m, g.Keeps n h m → h.AnswersTyped m declared body) ∧
      (∀ expected found, d.binding = .mismatch expected found →
        ∀ h m, g.Keeps n h m → h.AnswersMismatch m expected found) := by
  intro g
  have hwf : (({} : Forest).run ops).WellFormed := (Reachable.empty.run ops).wellFormed
  have hg : g.WellFormed := hwf.perform op
  obtain ⟨d, hd, hbecomes⟩ := hwf.becomes_perform op hc
  obtain rfl : d = c.bind handlers := hbecomes.bound handlers hbinds
  refine ⟨_, hd, ?_, ?_⟩
  · intro declared body hbound hfinds h m hkeeps
    have hrest := (restIsLast_of_run hops n c hc).of_becomes hbecomes
    obtain ⟨hfixed, hslots⟩ := Command.fixed_of_bind hfinds hbound rfl
    obtain ⟨hh, e, he, hsame⟩ := hkeeps.exists_sameAnswers hg hd
    have hslots' : e.slots = declared.map some := by
      rw [← hslots, Command.slots, Command.slots, hsame.parameters hfixed]
      exact List.map_congr_left fun p hp => (hfixed p hp).yields_eq _ _
    exact answersTyped_of_bound hh he (hsame.restIsLast hrest) (hsame.binding.trans hbound) hslots'
  · intro expected found hmismatch h m hkeeps
    obtain ⟨hh, e, he, hsame⟩ := hkeeps.exists_sameAnswers hg hd
    exact answersMismatch_of_mismatch hh he (hsame.binding.trans hmismatch)

/-- A command with a parameter of a custom type, for which there is a provider
of even numbers. -/
def store : List Operation := [
  .appendRoot { aliases := ["give"], hook := some "give", parameters := [⟨"item", "what", none⟩] },
  .provide 0 (.evenWord "item" none)]

/-- Shows the values that are given. -/
def storeBody : Sender → List Value → Response :=
  fun _ values => Handler.revealed PayloadKind.describe "give" values

/-- A handler for even numbers. -/
def storeHandlers : Handlers := ⟨[("give", .typed [.custom .word] storeBody)]⟩

/-- After binding, the provider is replaced by one of texts, and the command is
copied.  The copy still calls its handler with numbers. -/
theorem binding_checked_store :
    let f := ({} : Forest).run store
    let g := f.perform (.bind 0 storeHandlers)
    let h := g.perform (.provide 0 (.anyText "item" none))
    ∃ c, h.find? 0 = some c ∧
      ((c.providers.find? "item").map Provider.kind) = some .text ∧
      (h.insert c none).AnswersTyped 1 [.custom .word] storeBody := by
  intro f g h
  have hops : ∀ op ∈ store, op.RestIsLast := by
    intro op hop
    rcases List.mem_cons.mp hop with rfl | hop
    · show Command.RestIsLast _
      decide
    · rcases List.mem_cons.mp hop with rfl | hop
      · exact trivial
      · exact absurd hop List.not_mem_nil
  obtain ⟨d, hd, htyped, -⟩ := binding_checked hops (.bind 0 storeHandlers) (n := 0) rfl rfl
  cases hd
  have hkept : g.Keeps 0 h 0 := .after _ .here rfl
  have hreachable : h.Reachable := .after _ (.after _ (Reachable.empty.run store))
  have hcopied : ∀ c, h.find? 0 = some c → g.Keeps 0 (h.insert c none) 1 :=
    fun c hc => .copied hkept hc hreachable (by simp)
  refine ⟨_, rfl, rfl, ?_⟩
  refine htyped [.custom .word] storeBody rfl ?_ _ 1 (hcopied _ rfl)
  intro p hp name hkind
  obtain rfl := List.mem_singleton.mp hp
  cases hkind
  rfl

end Forest

end CommandForest
