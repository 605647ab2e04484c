import CommandForest.Proofs.Subtree

/-!
# CommandForest.Proofs.Action

What a dispatch comes to.  Of the events on its log, those that tell the
sender something or call a handler are its actions:

* a refusal;
* a call of a handler;
* a report that the handler could not be called;
* a help text.

`Branch.dispatch_concludes` follows the walk: a handled line has exactly one
action, the commands above it on the trail from the start admit the sender,
and an unhandled line has none.
-/

namespace CommandForest

/-! ## Actions -/

/-- What ends a dispatch, at which command.  The text of help is left out. -/
inductive Action
  | denied (id : CommandId) (denial : Denial)
  | answered (id : CommandId) (hook : String) (values : List Value) (response : Response)
  | mismatched (id : CommandId) (hook : String) (expected : List (Option ValueKind))
      (found : List ValueKind)
  | helped (id : CommandId)

namespace Action

/-- The command that acts. -/
def id : Action → CommandId
  | denied id _ => id
  | answered id _ _ _ => id
  | mismatched id _ _ _ => id
  | helped id => id

/-- Whether the action is a refusal. -/
def isDenial : Action → Bool
  | denied .. => true
  | _ => false

/-- What the sender reads. -/
def sent (f : Forest) (sender : Sender) : Action → List String
  | denied _ denial => [f.messages.denial denial]
  | answered _ _ _ response =>
    response.messages ++ if response.failure.isSome then [f.messages.executionFailed] else []
  | mismatched .. => [f.messages.executionFailed]
  | helped id => (f.help id sender).1.toList

end Action

/-- The action that an event is, if it is one. -/
def Event.action? : Event → Option Action
  | denied id denial => some (.denied id denial)
  | answered id hook values response => some (.answered id hook values response)
  | mismatched id hook expected found => some (.mismatched id hook expected found)
  | helped id _ => some (.helped id)
  | settled .. | unresolved .. | unknown _ => none

/-- The actions on a log. -/
def actionsOf (log : List Event) : List Action := log.filterMap Event.action?

/-- The actions of a dispatch. -/
def Outcome.actions (o : Outcome) : List Action := actionsOf o.log

@[simp] theorem actionsOf_append (xs ys : List Event) :
    actionsOf (xs ++ ys) = actionsOf xs ++ actionsOf ys := List.filterMap_append

/-- Looking up providers is no action. -/
theorem actionsOf_lookups (id : CommandId) (conversion : Conversion) :
    actionsOf (Event.settled id conversion.consulted ::
      (conversion.unresolved.map (Event.unresolved id)).toList) = [] := by
  cases conversion.unresolved <;> rfl

/-- Without an action the sender reads nothing. -/
theorem messages_of_actionsOf_nil {log : List Event} (h : actionsOf log = []) (m : Messages) :
    log.flatMap (Event.messages m) = [] := by
  rw [List.flatMap_eq_nil_iff]
  intro e he
  have hnone := List.filterMap_eq_nil_iff.mp h e he
  cases e with
  | settled | unresolved | unknown => rfl
  | denied | answered | mismatched | helped => simp [Event.action?] at hnone

/-! ## Gates -/

/-- The sender holds the permission of the command and belongs to its
audience. -/
def Command.Admits (c : Command) (sender : Sender) : Prop :=
  (∀ p, c.permission = some p → sender.holds p = true) ∧ c.audience.admits sender.kind = true

/-- A command refuses exactly those it does not admit. -/
theorem Command.denial_eq_none_iff {c : Command} {sender : Sender} :
    c.denial sender = none ↔ c.Admits sender := by
  have houtside : ∀ o : Option Denial, o = (if c.audience.admits sender.kind = true then none
      else if c.audience = .console then some .consoleOnly else some .playerOnly) →
      (o = none ↔ c.audience.admits sender.kind = true) := by
    rintro o rfl
    split
    · next hin => simp [hin]
    · next hout => split <;> simp [hout]
  rw [denial, Admits]
  cases hp : c.permission with
  | none => simp [houtside _ rfl]
  | some p =>
      cases hholds : sender.holds p with
      | true => simp [hholds, houtside _ rfl]
      | false => simp [hholds]

namespace Forest

/-- The action is the doing of its command: the refusal the command has for
the sender, the answer of its handler to values that its parameters yield, the
mismatch recorded at its binding, or its help. -/
def Performs (f : Forest) (sender : Sender) : Action → Prop
  | .denied n denial => ∃ c, f.find? n = some c ∧ c.denial sender = some denial
  | .answered n hook values response =>
      ∃ c handler tokens, f.find? n = some c ∧ c.Admits sender ∧ c.binding = .bound handler ∧
        hook = c.hook.getD "" ∧ (convertAll c.providers c.parameters tokens).values = some values ∧
        response = handler.respond sender values
  | .mismatched n hook expected found =>
      ∃ c, f.find? n = some c ∧ c.Admits sender ∧ c.binding = .mismatch expected found ∧
        hook = c.hook.getD ""
  | .helped n => ∃ c text, f.find? n = some c ∧ c.Admits sender ∧ (f.help n sender).1 = some text

/-- Only a refusal is the doing of a command that does not admit the sender. -/
theorem Performs.admits {f : Forest} {sender : Sender} {a : Action} (h : f.Performs sender a)
    (ha : a.isDenial = false) {c : Command} (hc : f.find? a.id = some c) : c.Admits sender := by
  cases a with
  | denied => contradiction
  | answered n hook values response =>
      obtain ⟨d, _, _, hd, hadmits, -⟩ := h
      cases hd.symm.trans hc
      exact hadmits
  | mismatched n hook expected found =>
      obtain ⟨d, hd, hadmits, -⟩ := h
      cases hd.symm.trans hc
      exact hadmits
  | helped n =>
      obtain ⟨d, _, hd, hadmits, -⟩ := h
      cases hd.symm.trans hc
      exact hadmits

/-- The commands of a trail admit the sender. -/
def Admit (f : Forest) (sender : Sender) (above : List CommandId) : Prop :=
  ∀ p ∈ above, ∀ c, f.find? p = some c → c.Admits sender

/-- One action was taken at a command below `top`, behind the gates above it,
and the sender reads what this action sends. -/
def Concluded (f : Forest) (sender : Sender) (top : CommandId) (log : List Event) : Prop :=
  ∃ a above, actionsOf log = [a] ∧ f.Trail top above a.id ∧ f.Admit sender above ∧
    f.Performs sender a ∧ log.flatMap (Event.messages f.messages) = a.sent f sender

/-- What happened before without an action does not count. -/
theorem Concluded.append_left {f : Forest} {sender : Sender} {top : CommandId}
    {log before : List Event} (h : f.Concluded sender top log) (hb : actionsOf before = []) :
    f.Concluded sender top (before ++ log) := by
  obtain ⟨a, above, hactions, htrail, hgates, hperforms, hsent⟩ := h
  refine ⟨a, above, ?_, htrail, hgates, hperforms, ?_⟩
  · rw [actionsOf_append, hb, hactions, List.nil_append]
  · rw [List.flatMap_append, messages_of_actionsOf_nil hb, hsent, List.nil_append]

/-- The conclusion of a child is one of its parent, if that admits the
sender. -/
theorem Concluded.of_child {f : Forest} {sender : Sender} {id k : CommandId} {c : Command}
    {log : List Event} (h : f.Concluded sender k log) (hc : f.find? id = some c)
    (hk : k ∈ c.children) (hadmits : c.Admits sender) : f.Concluded sender id log := by
  obtain ⟨a, above, hactions, htrail, hgates, hperforms, hsent⟩ := h
  refine ⟨a, id :: above, hactions, .down hc hk htrail, ?_, hperforms, hsent⟩
  intro p hp d hd
  rcases List.mem_cons.mp hp with rfl | hp
  · cases hc.symm.trans hd
    exact hadmits
  · exact hgates p hp d hd

/-! ## Help -/

/-- There is a name to show for every command: climbing ends at a root. -/
theorem WellFormed.exists_shownName {f : Forest} (hf : f.WellFormed) {id : CommandId} {c : Command}
    (hc : f.find? id = some c) : ∃ name, f.shownName id = some name := by
  have hclimb : ∀ (fuel id : Nat) (c : Command), f.find? id = some c → id < fuel →
      ∃ name, f.shownNameFrom fuel id = some name := by
    intro fuel
    induction fuel with
    | zero => intro id c _ hlt; exact absurd hlt (Nat.not_lt_zero id)
    | succ fuel ih =>
        intro id c hc hlt
        rw [shownNameFrom, hc]
        dsimp only
        cases hparent : c.parent with
        | none => exact ⟨_, rfl⟩
        | some p =>
            cases c.isAnonymous with
            | false => exact ⟨_, rfl⟩
            | true =>
                have hp := hf.parent_lt id p c hc hparent
                obtain ⟨d, hd⟩ := exists_find?_of_lt (Nat.lt_trans hp (lt_size_of_find? hc))
                exact ih p d hd (by omega)
  exact hclimb f.size id c hc (lt_size_of_find? hc)

theorem actionsOf_helpEvents {f : Forest} (hf : f.WellFormed) {b : Branch} (hb : f.Holds b)
    (sender : Sender) : actionsOf (f.helpEvents b sender) = [.helped b.id] := by
  obtain ⟨name, hname⟩ := hf.exists_shownName (hb.find?_id hf)
  have hlines : ∀ lines : List HelpLine,
      actionsOf (lines.map fun l => Event.settled l.id l.shown) = [] := by
    intro lines
    rw [actionsOf, List.filterMap_map, List.filterMap_eq_nil_iff]
    intro _ _
    rfl
  rw [helpEvents, hname]
  dsimp only
  rw [Event.ofHelp, actionsOf_append, hlines]
  rfl

/-- Showing help concludes a dispatch. -/
theorem concluded_helpEvents {f : Forest} (hf : f.WellFormed) {id : CommandId} {c : Command}
    {bs : List Branch} (hb : f.Holds (.mk id c bs)) {sender : Sender} (hadmits : c.Admits sender) :
    f.Concluded sender id (f.helpEvents (.mk id c bs) sender) := by
  have hactions := actionsOf_helpEvents hf hb sender
  obtain ⟨name, hname⟩ := hf.exists_shownName (hb.find?_id hf)
  -- the only event with a message is the last one
  have hmessages : ∃ text, (f.helpEvents (.mk id c bs) sender).flatMap
      (Event.messages f.messages) = [text] := by
    rw [helpEvents, hname]
    dsimp only
    rw [Event.ofHelp, List.flatMap_append, List.flatMap_eq_nil_iff.mpr]
    · exact ⟨_, rfl⟩
    · intro e he
      obtain ⟨l, -, rfl⟩ := List.mem_map.mp he
      rfl
  obtain ⟨text, htext⟩ := hmessages
  have hhelp : (f.help id sender).1 = some text := by
    rw [help, show f.branch? id = some (.mk id c bs) from hb]
    dsimp only
    rw [htext, List.head?_cons]
  refine ⟨.helped id, [], hactions, .here id, ?_, ⟨c, text, (hb.find? hf).1, hadmits, hhelp⟩, ?_⟩
  · intro p hp
    exact absurd hp List.not_mem_nil
  · rw [htext, Action.sent, hhelp, Option.toList_some]

/-! ## Bindings -/

/-- An attempt concludes a dispatch when the words convert, and leaves no
trace otherwise. -/
theorem attempt_concludes {f : Forest} {sender : Sender} {id : CommandId} {c : Command}
    (hc : f.find? id = some c) (hadmits : c.Admits sender) (tokens : List String) :
    ((c.attempt sender id tokens).handled = true ∧
      f.Concluded sender id (c.attempt sender id tokens).log) ∨
    ((c.attempt sender id tokens).handled = false ∧
      actionsOf (c.attempt sender id tokens).log = []) := by
  have hlookups := actionsOf_lookups id (convertAll c.providers c.parameters tokens)
  have hnone : f.Admit sender [] := fun p hp => absurd hp List.not_mem_nil
  rw [Command.attempt]
  cases hbinding : c.binding with
  | unbound => exact .inr ⟨rfl, rfl⟩
  | bound handler =>
      dsimp only
      cases hvalues : (convertAll c.providers c.parameters tokens).values with
      | none => exact .inr ⟨rfl, hlookups⟩
      | some values =>
          refine .inl ⟨rfl, Concluded.append_left ?_ hlookups⟩
          exact ⟨.answered id _ values _, [], rfl, .here id, hnone,
            ⟨c, handler, tokens, hc, hadmits, hbinding, rfl, hvalues, rfl⟩, List.append_nil _⟩
  | mismatch expected found =>
      dsimp only
      cases hvalues : (convertAll c.providers c.parameters tokens).values with
      | none => exact .inr ⟨rfl, hlookups⟩
      | some values =>
          refine .inl ⟨rfl, Concluded.append_left ?_ hlookups⟩
          exact ⟨.mismatched id _ expected found, [], rfl, .here id, hnone,
            ⟨c, hc, hadmits, hbinding, rfl⟩, rfl⟩

end Forest

/-! ## The walk -/

namespace Branch

/-- What one of several branches makes of the words; nothing happens if they
do not lead into it. -/
def offered (f : Forest) (sender : Sender) (b : Branch) (first : String) (rest : List String) :
    Route :=
  if b.command.isAnonymous then b.dispatch f sender (first :: rest)
  else if b.command.answersTo first then b.dispatch f sender rest
  else ⟨false, []⟩

theorem offered_cases (f : Forest) (sender : Sender) (b : Branch) (first : String)
    (rest : List String) :
    (∃ tokens, b.offered f sender first rest = b.dispatch f sender tokens) ∨
      b.offered f sender first rest = ⟨false, []⟩ := by
  rw [offered]
  split
  · exact .inl ⟨_, rfl⟩
  · split
    · exact .inl ⟨_, rfl⟩
    · exact .inr rfl

theorem dispatchAmong_cons (f : Forest) (sender : Sender) (b : Branch) (bs : List Branch)
    (first : String) (rest : List String) :
    dispatchAmong f sender (b :: bs) first rest =
      if (b.offered f sender first rest).handled then b.offered f sender first rest
      else ⟨(dispatchAmong f sender bs first rest).handled,
        (b.offered f sender first rest).log ++ (dispatchAmong f sender bs first rest).log⟩ := by
  rw [dispatchAmong]
  rfl

open Forest

mutual

/-- **The walk**: a handled line has one action behind open gates.  Only an
anonymous command leaves a line unhandled, and then without a trace. -/
theorem dispatch_concludes {f : Forest} (hf : f.WellFormed) (sender : Sender) :
    (b : Branch) → f.Holds b → (tokens : List String) →
    ((b.dispatch f sender tokens).handled = true ∧
      f.Concluded sender b.id (b.dispatch f sender tokens).log) ∨
    ((b.dispatch f sender tokens).handled = false ∧
      actionsOf (b.dispatch f sender tokens).log = [] ∧ b.command.isAnonymous = true)
  | mk id c bs, hb, tokens => by
      have hc := (hb.find? hf).1
      rw [dispatch]
      cases hdenial : c.denial sender with
      | some denial =>
          refine .inl ⟨rfl, .denied id denial, [], rfl, .here id, ?_, ⟨c, hc, hdenial⟩, rfl⟩
          intro p hp
          exact absurd hp List.not_mem_nil
      | none =>
          have hadmits := Command.denial_eq_none_iff.mp hdenial
          have hhelp := concluded_helpEvents hf hb hadmits
          dsimp only
          rcases attempt_concludes hc hadmits tokens with ⟨htried, hlog⟩ | ⟨htried, hlog⟩
          · rw [if_pos htried]
            exact .inl ⟨htried, hlog⟩
          · rw [htried, if_neg Bool.false_ne_true]
            cases tokens with
            | nil => exact .inl ⟨rfl, hhelp.append_left hlog⟩
            | cons first rest =>
                have hchildren := fun b hmem => hb.of_mem hf (b := b) hmem
                have hbelow := dispatchAmong_concludes hf sender bs
                  (fun b hmem => (hchildren b hmem).1) first rest
                dsimp only
                rcases hbelow with ⟨hhandled, b, hmem, hconcluded⟩ | ⟨hhandled, hsilent⟩
                · rw [if_pos hhandled]
                  exact .inl ⟨rfl,
                    (hconcluded.of_child hc (hchildren b hmem).2 hadmits).append_left hlog⟩
                · have hboth : actionsOf ((c.attempt sender id (first :: rest)).log ++
                      (dispatchAmong f sender bs first rest).log) = [] := by
                    rw [actionsOf_append, hlog, hsilent]
                    rfl
                  rw [hhandled, if_neg Bool.false_ne_true]
                  cases hanonymous : c.isAnonymous with
                  | true => exact .inr ⟨rfl, hboth, hanonymous⟩
                  | false => exact .inl ⟨rfl, hhelp.append_left hboth⟩

/-- Among several branches, those before the one that handles the line leave
no trace, and those after it are not tried. -/
theorem dispatchAmong_concludes {f : Forest} (hf : f.WellFormed) (sender : Sender) :
    (bs : List Branch) → (∀ b ∈ bs, f.Holds b) → (first : String) → (rest : List String) →
    ((dispatchAmong f sender bs first rest).handled = true ∧
      ∃ b ∈ bs, f.Concluded sender b.id (dispatchAmong f sender bs first rest).log) ∨
    ((dispatchAmong f sender bs first rest).handled = false ∧
      actionsOf (dispatchAmong f sender bs first rest).log = [])
  | [], _, _, _ => by rw [dispatchAmong]; exact .inr ⟨rfl, rfl⟩
  | b :: bs, h, first, rest => by
      have hlater := dispatchAmong_concludes hf sender bs
        (fun b' hmem => h b' (List.mem_cons_of_mem b hmem)) first rest
      have hb := h b List.mem_cons_self
      have hhere : ((b.offered f sender first rest).handled = true ∧
          f.Concluded sender b.id (b.offered f sender first rest).log) ∨
          ((b.offered f sender first rest).handled = false ∧
            actionsOf (b.offered f sender first rest).log = []) := by
        rcases b.offered_cases f sender first rest with ⟨tokens, htokens⟩ | hnone
        · rw [htokens]
          rcases dispatch_concludes hf sender b hb tokens with hdone | ⟨hhandled, hlog, -⟩
          · exact .inl hdone
          · exact .inr ⟨hhandled, hlog⟩
        · rw [hnone]
          exact .inr ⟨rfl, rfl⟩
      rw [dispatchAmong_cons]
      rcases hhere with ⟨hhandled, hconcluded⟩ | ⟨hhandled, hsilent⟩
      · rw [if_pos hhandled]
        exact .inl ⟨hhandled, b, List.mem_cons_self, hconcluded⟩
      · rw [hhandled, if_neg Bool.false_ne_true]
        rcases hlater with ⟨hdone, b', hmem, hconcluded⟩ | ⟨hnot, hlog⟩
        · exact .inl ⟨hdone, b', List.mem_cons_of_mem b hmem, hconcluded.append_left hsilent⟩
        · refine .inr ⟨hnot, ?_⟩
          rw [actionsOf_append, hsilent, hlog]
          rfl

end

end Branch

namespace Forest

theorem messages_settle (f : Forest) (log : List Event) : (f.settle log).messages = f.messages := by
  rw [settle]
  induction log generalizing f with
  | nil => rfl
  | cons e rest ih =>
      rw [List.foldl_cons, ih]
      cases e <;> rfl

/-- What a dispatch comes to, from the command it starts at. -/
theorem execute_concludes {f : Forest} (hf : f.WellFormed) (id : CommandId) (sender : Sender)
    (tokens : List String) :
    ((f.execute id sender tokens).handled = true ∧
      f.Concluded sender id (f.execute id sender tokens).log) ∨
    ((f.execute id sender tokens).handled = false ∧ (f.execute id sender tokens).actions = [] ∧
      (f.find? id = none ∨ ∃ c, f.find? id = some c ∧ c.isAnonymous = true)) := by
  rw [execute, Outcome.actions]
  cases hbranch : f.branch? id with
  | none =>
      rw [hf.branch?_eq, Option.map_eq_none_iff] at hbranch
      exact .inr ⟨rfl, rfl, .inl hbranch⟩
  | some b =>
      obtain ⟨hb, rfl⟩ := holds_of_branch? hf hbranch
      rcases b.dispatch_concludes hf sender hb tokens with hdone | ⟨hhandled, hlog, hanonymous⟩
      · exact .inl hdone
      · exact .inr ⟨hhandled, hlog, .inr ⟨b.command, hb.find?_id hf, hanonymous⟩⟩

theorem messages_execute (f : Forest) (id : CommandId) (sender : Sender) (tokens : List String) :
    (f.execute id sender tokens).messages =
      (f.execute id sender tokens).log.flatMap (Event.messages f.messages) := by
  rw [Outcome.messages, execute]
  cases f.branch? id with
  | none => rfl
  | some b => dsimp only; rw [messages_settle]

/-- The sender reads what the actions send. -/
theorem messages_execute_eq_sent {f : Forest} (hf : f.WellFormed) (id : CommandId)
    (sender : Sender) (tokens : List String) :
    (f.execute id sender tokens).messages =
      (f.execute id sender tokens).actions.flatMap (Action.sent f sender) := by
  rw [messages_execute]
  rcases execute_concludes hf id sender tokens with ⟨-, a, _, ha, -, -, -, hsent⟩ | ⟨-, hnone, -⟩
  · rw [hsent, Outcome.actions, ha, List.flatMap_singleton]
  · rw [messages_of_actionsOf_nil hnone, hnone, List.flatMap_nil]

/-- A line is handled by one action, and left unhandled by none. -/
theorem handled_execute_iff {f : Forest} (hf : f.WellFormed) (id : CommandId) (sender : Sender)
    (tokens : List String) :
    ((f.execute id sender tokens).handled = true ↔
      ∃ a, (f.execute id sender tokens).actions = [a]) ∧
    ((f.execute id sender tokens).handled = false ↔
      (f.execute id sender tokens).actions = []) := by
  rcases execute_concludes hf id sender tokens with ⟨hhandled, a, _, ha, -⟩ | ⟨hhandled, hnone, -⟩
  · simp [hhandled, Outcome.actions, ha]
  · simp [hhandled, hnone]

/-- What is known of the action of a dispatch: it is the doing of its command,
and there is a trail to it whose commands admit the sender. -/
theorem performs_of_actions_execute {f : Forest} (hf : f.WellFormed) {id : CommandId}
    {sender : Sender} {tokens : List String} {a : Action}
    (ha : (f.execute id sender tokens).actions = [a]) :
    f.Performs sender a ∧ ∃ above, f.Trail id above a.id ∧ f.Admit sender above := by
  rcases execute_concludes hf id sender tokens with
    ⟨-, b, above, hb, htrail, hgates, hperforms, -⟩ | ⟨-, hnone, -⟩
  · obtain rfl : b = a := List.head_eq_of_cons_eq (hb.symm.trans ha)
    exact ⟨hperforms, above, htrail, hgates⟩
  · rw [hnone] at ha
    contradiction

/-- Wherever a trail to the action passes or ends, the sender is admitted,
unless the action is the refusal at its end. -/
theorem admit_of_actions_execute {f : Forest} (hf : f.WellFormed) {id : CommandId}
    {sender : Sender} {tokens : List String} {a : Action}
    (ha : (f.execute id sender tokens).actions = [a]) :
    (∀ above, f.Trail id above a.id → f.Admit sender above) ∧
      (a.isDenial = false → f.Admit sender [a.id]) := by
  obtain ⟨hperforms, above, htrail, hgates⟩ := performs_of_actions_execute hf ha
  constructor
  · intro other hother
    rw [hother.unique hf htrail]
    exact hgates
  · intro hdenial p hp c hc
    rw [List.mem_singleton.mp hp] at hc
    exact hperforms.admits hdenial hc

/-- No handler at or below a command that refuses is called. -/
theorem not_answered_behind_refusal {f : Forest} (hf : f.WellFormed) {id d n : CommandId}
    {c : Command} {sender : Sender} (tokens : List String) {hook : String} {values : List Value}
    {response : Response} (hd : f.Below id d) (hc : f.find? d = some c)
    (hrefuses : ¬ c.Admits sender) (hn : f.Below d n) :
    .answered n hook values response ∉ (f.execute id sender tokens).actions := by
  intro hmem
  obtain ⟨a, ha⟩ : ∃ a, (f.execute id sender tokens).actions = [a] := by
    rw [← (handled_execute_iff hf id sender tokens).1, ← Bool.not_eq_false,
      (handled_execute_iff hf id sender tokens).2]
    exact List.ne_nil_of_mem hmem
  rw [ha] at hmem
  obtain rfl := List.mem_singleton.mp hmem
  obtain ⟨habove, hself⟩ := admit_of_actions_execute hf ha
  obtain ⟨xs, hx⟩ := hd
  obtain ⟨ys, hy⟩ := hn
  -- the trail to the action ends at `d` or passes it
  cases hy with
  | here => exact hrefuses (hself rfl d List.mem_cons_self c hc)
  | down hd hk hbelow =>
      have hgates := habove _ (hx.append (.down hd hk hbelow))
      exact hrefuses (hgates d (List.mem_append_right xs List.mem_cons_self) c hc)

/-- **One action behind every gate**: a dispatch handles its line by exactly
one action, or leaves it unhandled without any, which takes an anonymous or
unknown command to start from.  The action is the doing of the command it is
taken at, the sender reads what it sends and nothing else, and all commands
above on the way from the start admit the sender, as does the command itself
unless it refuses.  So no handler at or below a command that refuses is
called. -/
theorem execute_one_action {f : Forest} (hf : f.Reachable) (id : CommandId) (sender : Sender)
    (tokens : List String) :
    let o := f.execute id sender tokens
    (o.handled = true ↔ ∃ a, o.actions = [a]) ∧
    (o.handled = false ↔ o.actions = []) ∧
    (o.handled = false → o.messages = [] ∧
      (f.find? id = none ∨ ∃ c, f.find? id = some c ∧ c.isAnonymous = true)) ∧
    (∀ a, o.actions = [a] →
      f.Performs sender a ∧ o.messages = a.sent f sender ∧
      (∃ above, f.Trail id above a.id) ∧
      (∀ above, f.Trail id above a.id → f.Admit sender above) ∧
      (a.isDenial = false → f.Admit sender [a.id])) ∧
    (∀ d n c hook values response, f.Below id d → f.find? d = some c → ¬ c.Admits sender →
      f.Below d n → .answered n hook values response ∉ o.actions) := by
  intro o
  have hwf := hf.wellFormed
  have hhandled := handled_execute_iff hwf id sender tokens
  have hmessages : o.messages = o.actions.flatMap (Action.sent f sender) :=
    messages_execute_eq_sent hwf id sender tokens
  refine ⟨hhandled.1, hhandled.2, ?_, ?_, ?_⟩
  · intro hnot
    rcases execute_concludes hwf id sender tokens with ⟨hdone, -⟩ | ⟨-, hnone, hstart⟩
    · rw [hnot] at hdone
      contradiction
    · exact ⟨by rw [hmessages, hnone, List.flatMap_nil], hstart⟩
  · intro a ha
    obtain ⟨hperforms, above, htrail, -⟩ := performs_of_actions_execute hwf ha
    refine ⟨hperforms, ?_, ⟨above, htrail⟩, admit_of_actions_execute hwf ha⟩
    rw [hmessages, ha, List.flatMap_singleton]
  · intro d n c hook values response hd hc hrefuses hn
    exact not_answered_behind_refusal hwf tokens hd hc hrefuses hn

/-- A root with an anonymous child behind a permission, and a command below
that. -/
def slots : Forest :=
  ((({} : Forest).perform (.appendRoot { aliases := ["home"] })).perform
    (.appendUnder 0 { aliases := ["_"], permission := some "slot" })).perform
    (.appendUnder 1 { aliases := ["set"], hook := some "set" })

theorem reachable_slots : slots.Reachable := .after _ (.after _ (.after _ .empty))

/-- Without the permission, the anonymous child refuses, behind a root that
admits everyone. -/
theorem execute_one_action_slots :
    slots.Reachable ∧
    (slots.execute 0 (.ofGrants .player []) ["set"]).actions = [.denied 1 (.permission "slot")] ∧
    slots.Admit (.ofGrants .player []) [0] := by
  have hactions : (slots.execute 0 (.ofGrants .player []) ["set"]).actions =
      [.denied 1 (.permission "slot")] := by rfl
  have htrail : slots.Trail 0 [0] 1 := .down rfl List.mem_cons_self (.here 1)
  obtain ⟨-, -, -, hall, -⟩ := execute_one_action reachable_slots 0 (.ofGrants .player []) ["set"]
  obtain ⟨-, -, -, habove, -⟩ := hall _ hactions
  exact ⟨reachable_slots, hactions, habove [0] htrail⟩

end Forest

end CommandForest
