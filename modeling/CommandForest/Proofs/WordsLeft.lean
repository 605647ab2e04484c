import CommandForest.Proofs.ChildOrder
import CommandForest.Proofs.Preorder
import CommandForest.Proofs.Signature

/-!
# CommandForest.Proofs.WordsLeft

The words that are left when a walk gets to a command.  On its way down a walk
hands each command its share of the words (`Forest.HandsDown`).

* There is one way down to a command, and so one list of words that can be
  left there (`HandsDown.unique`): whether some are left does not depend on the
  way (`HandsDown.helpsWithWords_iff`).
* The command at which a walk takes its action was handed the words for which
  it is taken (`Branch.exists_handsDown`), by the turns the walk takes at one
  command after the other (`Branch.dispatch_of_below` and the lemmas around it).
-/

namespace CommandForest

namespace Forest

/-! ## Handing words down -/

/-- The words that a walk has left when it gets to a command, if it does: at
each command on the way down, the share of the next one. -/
inductive HandsDown (f : Forest) : CommandId → List String → CommandId → List String → Prop
  | here (id : CommandId) (words : List String) : HandsDown f id words id words
  | down {id k n : CommandId} {c d : Command} {first : String} {rest words left : List String} :
      f.find? id = some c → k ∈ c.children → f.find? k = some d →
      d.share first rest = some words → HandsDown f k words n left →
      HandsDown f id (first :: rest) n left

/-- The action is taken for these words: if it calls a handler, then with the
values to which they convert. -/
def TakenFor (f : Forest) (words : List String) : Action → Prop
  | .answered n _ values _ => ∃ c, f.find? n = some c ∧
      (convertAll c.providers c.parameters words).values = some values
  | _ => True

theorem HandsDown.isBelow {f : Forest} {id n : CommandId} {words left : List String}
    (h : f.HandsDown id words n left) : f.Below id n := by
  induction h with
  | here id => exact .refl f id
  | down hc hk _ _ _ ih => exact (Below.child hc hk).trans ih

/-- A command hands down to a branch below it what the branch gets. -/
theorem Holds.handsDown {f : Forest} (hf : f.WellFormed) {id n : CommandId} {c : Command}
    {bs : List Branch} {b : Branch} (hb : f.Holds (.mk id c bs)) (hmem : b ∈ bs) {first : String}
    {rest words left : List String} (hshare : b.command.share first rest = some words)
    (hway : f.HandsDown b.id words n left) : f.HandsDown id (first :: rest) n left := by
  obtain ⟨hbelow, hchild⟩ := hb.of_mem hf hmem
  exact .down (hb.find? hf).1 hchild (hbelow.find?_id hf) hshare hway

/-- **There is one way down**, so a walk gets to a command with the same words
or not at all. -/
theorem HandsDown.unique {f : Forest} (hf : f.WellFormed) {id n : CommandId}
    {words left left' : List String} (h : f.HandsDown id words n left)
    (h' : f.HandsDown id words n left') : left = left' := by
  -- no way leads back to a command from one of its children
  have hback : ∀ {id k : CommandId} {c : Command}, f.find? id = some c → k ∈ c.children →
      ¬ f.Below k id := fun hc hk hbelow =>
    absurd (hbelow.le hf) (Nat.not_le_of_lt (hf.lt_of_mem_children hc hk))
  induction h with
  | here id words =>
      cases h' with
      | here => rfl
      | down hc hk _ _ hway => exact absurd hway.isBelow (hback hc hk)
  | @down id k n c d first rest words left hc hk hd hshare hway ih =>
      cases h' with
      | here => exact absurd hway.isBelow (hback hc hk)
      | @down _ k' _ c' d' _ _ words' _ hc' hk' hd' hshare' hway' =>
          cases hc.symm.trans hc'
          obtain ⟨e, he, hparent⟩ := (hf.mem_children id c hc k).mp hk
          obtain ⟨e', he', hparent'⟩ := (hf.mem_children id c hc k').mp hk'
          obtain rfl :=
            hf.eq_of_below he he' (hparent.trans hparent'.symm) hway.isBelow hway'.isBelow
          cases hd.symm.trans hd'
          cases hshare.symm.trans hshare'
          exact ih hway'

end Forest

namespace Branch

/-! ## One command of a walk -/

section

variable {f : Forest} {sender : Sender} {id : CommandId} {c : Command} {bs : List Branch}
  (hdenial : c.denial sender = none)

include hdenial

theorem dispatch_of_attempt {tokens : List String}
    (htried : (c.attempt sender id tokens).handled = true) :
    (mk id c bs).dispatch f sender tokens = c.attempt sender id tokens := by
  rw [dispatch, hdenial]
  dsimp only
  rw [if_pos htried]

theorem dispatch_nil (htried : (c.attempt sender id []).handled = false) :
    (mk id c bs).dispatch f sender [] =
      ⟨true, (c.attempt sender id []).log ++ f.helpEvents (mk id c bs) sender⟩ := by
  rw [dispatch, hdenial]
  dsimp only
  rw [htried, if_neg Bool.false_ne_true]

variable {first : String} {rest : List String}
  (htried : (c.attempt sender id (first :: rest)).handled = false)

include htried

theorem dispatch_of_below (hbelow : (dispatchAmong f sender bs first rest).handled = true) :
    (mk id c bs).dispatch f sender (first :: rest) =
      ⟨true, (c.attempt sender id (first :: rest)).log ++
        (dispatchAmong f sender bs first rest).log⟩ := by
  rw [dispatch, hdenial]
  dsimp only
  rw [htried, if_neg Bool.false_ne_true, if_pos hbelow]

theorem dispatch_of_not_below (hbelow : (dispatchAmong f sender bs first rest).handled = false) :
    (mk id c bs).dispatch f sender (first :: rest) =
      ⟨!c.isAnonymous, (c.attempt sender id (first :: rest)).log ++
        (dispatchAmong f sender bs first rest).log ++
        if c.isAnonymous then [] else f.helpEvents (mk id c bs) sender⟩ := by
  rw [dispatch, hdenial]
  dsimp only
  rw [htried, hbelow]
  cases c.isAnonymous with
  | true => simp
  | false => simp

end

/-- Words that do not convert leave no trace. -/
theorem attempt_of_not_converted {c : Command} {tokens : List String}
    (h : (convertAll c.providers c.parameters tokens).values = none) (sender : Sender)
    (id : CommandId) :
    (c.attempt sender id tokens).handled = false ∧
      actionsOf (c.attempt sender id tokens).log = [] := by
  have hlookups := actionsOf_lookups id (convertAll c.providers c.parameters tokens)
  unfold Command.attempt
  cases c.binding with
  | unbound => exact ⟨rfl, rfl⟩
  | bound handler | mismatch expected found => simp [h, hlookups]

/-- The action of an attempt is taken at its command, for its words. -/
theorem takenFor_of_attempt {f : Forest} {id : CommandId} {c : Command} (hc : f.find? id = some c)
    {sender : Sender} {tokens : List String} {a : Action}
    (h : actionsOf (c.attempt sender id tokens).log = [a]) :
    a.id = id ∧ f.TakenFor tokens a := by
  cases hvalues : (convertAll c.providers c.parameters tokens).values with
  | none =>
      rw [(attempt_of_not_converted hvalues sender id).2] at h
      contradiction
  | some values =>
      cases hbinding : c.binding with
      | unbound => simp [Command.attempt, hbinding, actionsOf] at h
      | bound handler =>
          rw [(Forest.actionsOf_attempt_of_bound hvalues sender id hbinding).2] at h
          cases h
          exact ⟨rfl, c, hc, hvalues⟩
      | mismatch expected found =>
          rw [(Forest.actionsOf_attempt_of_mismatch hvalues sender id hbinding).2] at h
          cases h
          exact ⟨rfl, trivial⟩

mutual

/-- The command at which a walk takes its action was handed the words for
which it is taken. -/
theorem exists_handsDown {f : Forest} (hf : f.WellFormed) {sender : Sender} {a : Action} :
    (b : Branch) → f.Holds b → (tokens : List String) →
    actionsOf (b.dispatch f sender tokens).log = [a] →
    ∃ left, f.HandsDown b.id tokens a.id left ∧ f.TakenFor left a
  | mk id c bs, hb, tokens, hends => by
      have hc := (hb.find? hf).1
      have hhelp := Forest.actionsOf_helpEvents hf hb sender
      have hhere : ∀ log, actionsOf log = [] →
          actionsOf (log ++ f.helpEvents (mk id c bs) sender) = [a] →
          ∃ left, f.HandsDown id tokens a.id left ∧ f.TakenFor left a := by
        intro log hlog hends
        rw [actionsOf_append, hlog, hhelp, List.nil_append] at hends
        cases hends
        exact ⟨tokens, .here id tokens, trivial⟩
      cases hdenial : c.denial sender with
      | some denial =>
          rw [dispatch, hdenial] at hends
          cases hends
          exact ⟨tokens, .here id tokens, trivial⟩
      | none =>
          rcases Forest.attempt_concludes hc (Command.denial_eq_none_iff.mp hdenial) tokens with
            ⟨htried, -⟩ | ⟨htried, hsilent⟩
          · rw [dispatch_of_attempt hdenial htried] at hends
            obtain ⟨rfl, htaken⟩ := takenFor_of_attempt hc hends
            exact ⟨tokens, .here a.id tokens, htaken⟩
          cases tokens with
          | nil =>
              rw [dispatch_nil hdenial htried] at hends
              exact hhere _ hsilent hends
          | cons first rest =>
              have hholds := fun b hmem => (hb.of_mem hf (b := b) hmem).1
              rcases dispatchAmong_concludes hf sender bs hholds first rest with
                ⟨hdone, -⟩ | ⟨hundone, hnothing⟩
              · rw [dispatch_of_below hdenial htried hdone, actionsOf_append, hsilent,
                  List.nil_append] at hends
                obtain ⟨b, hmem, words, left, hshare, hway, htaken⟩ :=
                  exists_handsDown_among hf bs hholds first rest hends
                exact ⟨left, hb.handsDown hf hmem hshare hway, htaken⟩
              · rw [dispatch_of_not_below hdenial htried hundone] at hends
                have hboth : actionsOf ((c.attempt sender id (first :: rest)).log ++
                    (dispatchAmong f sender bs first rest).log) = [] := by
                  rw [actionsOf_append, hsilent, hnothing, List.nil_append]
                cases hanonymous : c.isAnonymous with
                | true =>
                    rw [hanonymous, if_pos rfl, List.append_nil, hboth] at hends
                    contradiction
                | false =>
                    rw [hanonymous, if_neg Bool.false_ne_true] at hends
                    exact hhere _ hboth hends

theorem exists_handsDown_among {f : Forest} (hf : f.WellFormed) {sender : Sender}
    {a : Action} : (bs : List Branch) → (∀ b ∈ bs, f.Holds b) → (first : String) →
    (rest : List String) → actionsOf (dispatchAmong f sender bs first rest).log = [a] →
    ∃ b ∈ bs, ∃ words left, b.command.share first rest = some words ∧
      f.HandsDown b.id words a.id left ∧ f.TakenFor left a
  | [], _, _, _, hends => by rw [dispatchAmong] at hends; contradiction
  | b :: bs, hbs, first, rest, hends => by
      obtain ⟨hb, hlater⟩ := List.forall_mem_cons.mp hbs
      rw [dispatchAmong_cons] at hends
      cases hdone : (b.offered f sender first rest).handled with
      | true =>
          rw [hdone, if_pos rfl, offered_eq] at hends
          cases hshare : b.command.share first rest with
          | none => rw [hshare] at hends; contradiction
          | some words =>
              rw [hshare] at hends
              obtain ⟨left, hway⟩ := exists_handsDown hf b hb words hends
              exact ⟨b, List.mem_cons_self, words, left, hshare, hway⟩
      | false =>
          rw [hdone, if_neg Bool.false_ne_true, actionsOf_append, actionsOf_offered hf hb hdone,
            List.nil_append] at hends
          obtain ⟨b', hmem, hway⟩ := exists_handsDown_among hf bs hlater first rest hends
          exact ⟨b', List.mem_cons_of_mem b hmem, hway⟩

end

end Branch

namespace Forest

/-- The action of a walk is taken for the words that its command is handed. -/
theorem exists_handsDown_of_actions {f : Forest} (hf : f.WellFormed) {id : CommandId}
    {sender : Sender} {tokens : List String} {a : Action}
    (h : (f.execute id sender tokens).actions = [a]) :
    ∃ left, f.HandsDown id tokens a.id left ∧ f.TakenFor left a := by
  cases hbranch : f.branch? id with
  | none =>
      rw [execute, hbranch] at h
      contradiction
  | some b =>
      obtain ⟨hb, rfl⟩ := holds_of_branch? hf hbranch
      exact Branch.exists_handsDown hf b hb tokens
        ((execute_eq_dispatch hb sender tokens).2.symm.trans h)

/-- The walk ends with the help of `p`, for words that are left there. -/
def HelpsWithWords (f : Forest) (id : CommandId) (sender : Sender) (tokens : List String)
    (p : CommandId) : Prop :=
  (f.execute id sender tokens).actions = [.helped p] ∧
    ∃ first rest, f.HandsDown id tokens p (first :: rest)

/-- A walk that ends with the help of a command does so for the words handed
down to it. -/
theorem HandsDown.helpsWithWords_iff {f : Forest} (hf : f.WellFormed) {id p : CommandId}
    {sender : Sender} {tokens left : List String} (hway : f.HandsDown id tokens p left)
    (hhelps : (f.execute id sender tokens).actions = [.helped p]) :
    f.HelpsWithWords id sender tokens p ↔ left ≠ [] := by
  constructor
  · rintro ⟨-, first, rest, hother⟩
    rw [hway.unique hf hother]
    exact List.cons_ne_nil first rest
  · intro hne
    obtain ⟨first, rest, rfl⟩ := List.exists_cons_of_ne_nil hne
    exact ⟨hhelps, first, rest, hway⟩

end Forest

end CommandForest
