import CommandForest.Proofs.Action
import CommandForest.Proofs.Change

/-!
# CommandForest.Proofs.ChildOrder

Which child answers the words that a command does not take itself.  The
children are tried in their order: one that is named by the first word with
the words behind it, and an anonymous one with all the words.  The first that
handles its share decides, and a named child handles any words
(`WellFormed.execute_of_taker`).

So a child that the first word names is passed over only for an anonymous one
that stands before it and handles the words (`execute_in_child_order`).  It
does not come first regardless (`not_forall_named_child_first`).
-/

namespace CommandForest

/-- Two answers to a line that come to the same: whether it was handled, the
actions, and what the sender reads. -/
structure Outcome.SameEnd (o o' : Outcome) : Prop where
  handled : o.handled = o'.handled
  actions : o.actions = o'.actions
  messages : o.messages = o'.messages

/-- The words that a command is tried with when its parent is given
`first :: rest`. -/
def Command.share (c : Command) (first : String) (rest : List String) : Option (List String) :=
  if c.isAnonymous then some (first :: rest) else if c.answersTo first then some rest else none

namespace Branch

/-- A branch makes of the words what it makes of its share. -/
theorem offered_eq (f : Forest) (sender : Sender) (b : Branch) (first : String)
    (rest : List String) :
    b.offered f sender first rest =
      ((b.command.share first rest).map (b.dispatch f sender)).getD ⟨false, []⟩ := by
  rw [offered, Command.share]
  split
  · rfl
  · split <;> rfl

/-- A branch that does not handle its share leaves no trace. -/
theorem actionsOf_offered {f : Forest} (hf : f.WellFormed) {sender : Sender} {b : Branch}
    (hb : f.Holds b) {first : String} {rest : List String}
    (h : (b.offered f sender first rest).handled = false) :
    actionsOf (b.offered f sender first rest).log = [] := by
  rcases b.offered_cases f sender first rest with ⟨words, hwords⟩ | hnone
  · rw [hwords] at h ⊢
    rcases dispatch_concludes hf sender b hb words with ⟨hhandled, -⟩ | ⟨-, hsilent, -⟩
    · rw [h] at hhandled
      contradiction
    · exact hsilent
  · rw [hnone]
    rfl

/-- Among several branches, the first that handles its share decides. -/
theorem dispatchAmong_of_taker {f : Forest} (hf : f.WellFormed) {sender : Sender}
    {before : List Branch} (after : List Branch) {b : Branch} {first : String} {rest : List String}
    (hholds : ∀ x ∈ before, f.Holds x)
    (hbefore : ∀ x ∈ before, (x.offered f sender first rest).handled = false)
    (hb : (b.offered f sender first rest).handled = true) :
    (dispatchAmong f sender (before ++ b :: after) first rest).handled = true ∧
      actionsOf (dispatchAmong f sender (before ++ b :: after) first rest).log =
        actionsOf (b.offered f sender first rest).log := by
  induction before with
  | nil =>
      rw [List.nil_append, dispatchAmong_cons, if_pos hb]
      exact ⟨hb, rfl⟩
  | cons x before ih =>
      have hx := hbefore x List.mem_cons_self
      have hsilent := actionsOf_offered hf (hholds x List.mem_cons_self) hx
      obtain ⟨hhandled, hactions⟩ := ih (fun y hy => hholds y (List.mem_cons_of_mem x hy))
        (fun y hy => hbefore y (List.mem_cons_of_mem x hy))
      rw [List.cons_append, dispatchAmong_cons, hx, if_neg Bool.false_ne_true]
      refine ⟨hhandled, ?_⟩
      rw [actionsOf_append, hsilent, hactions, List.nil_append]

end Branch

namespace Forest

/-- A command handles its share of the words. -/
def Takes (f : Forest) (sender : Sender) (first : String) (rest : List String) (k : CommandId) :
    Prop :=
  ∃ d words, f.find? k = some d ∧ d.share first rest = some words ∧
    (f.execute k sender words).handled = true

/-- Only an anonymous command can leave words unhandled. -/
theorem WellFormed.handled_execute_of_named {f : Forest} (hf : f.WellFormed) {k : CommandId}
    {d : Command} (hd : f.find? k = some d) (hnamed : d.isAnonymous = false) (sender : Sender)
    (words : List String) : (f.execute k sender words).handled = true := by
  rcases execute_concludes hf k sender words with
    ⟨hhandled, -⟩ | ⟨-, -, hnone | ⟨e, he, hanonymous⟩⟩
  · exact hhandled
  · rw [hd] at hnone
    contradiction
  · rw [hd] at he
    cases he
    rw [hnamed] at hanonymous
    contradiction

/-- Running words at a command is walking through its branch. -/
theorem execute_eq_dispatch {f : Forest} {b : Branch} (hb : f.Holds b) (sender : Sender)
    (words : List String) :
    (f.execute b.id sender words).handled = (b.dispatch f sender words).handled ∧
      (f.execute b.id sender words).actions = actionsOf (b.dispatch f sender words).log := by
  rw [execute, show f.branch? b.id = some b from hb]
  exact ⟨rfl, rfl⟩

theorem takes_iff_offered {f : Forest} (hf : f.WellFormed) {b : Branch} (hb : f.Holds b)
    {sender : Sender} {first : String} {rest : List String} :
    f.Takes sender first rest b.id ↔ (b.offered f sender first rest).handled = true := by
  have hd := hb.find?_id hf
  constructor
  · rintro ⟨d, words, hd', hshare, hhandled⟩
    cases hd.symm.trans hd'
    rw [Branch.offered_eq, hshare]
    exact (execute_eq_dispatch hb sender words).1.symm.trans hhandled
  · intro h
    cases hshare : b.command.share first rest with
    | none =>
        rw [Branch.offered_eq, hshare] at h
        contradiction
    | some words =>
        rw [Branch.offered_eq, hshare] at h
        exact ⟨b.command, words, hd, hshare, (execute_eq_dispatch hb sender words).1.trans h⟩

/-- A command does not handle its share if it leaves all the words unhandled,
for an anonymous one, or does not answer to the first. -/
theorem not_takes {f : Forest} {sender : Sender} {first : String} {rest : List String}
    {j : CommandId}
    (hanonymous : ∀ d, f.find? j = some d → d.isAnonymous = true →
      (f.execute j sender (first :: rest)).handled = false)
    (hnamed : ∀ d, f.find? j = some d → d.isAnonymous = false → d.answersTo first = false) :
    ¬ f.Takes sender first rest j := by
  rintro ⟨d, words, hd, hshare, hhandled⟩
  rw [Command.share] at hshare
  cases hkind : d.isAnonymous with
  | true =>
      rw [hkind, if_pos rfl] at hshare
      cases hshare
      rw [hanonymous d hd hkind] at hhandled
      contradiction
  | false =>
      rw [hkind, hnamed d hd hkind] at hshare
      contradiction

/-- The branches of the children, split where the children are. -/
theorem Holds.split_children {f : Forest} (hf : f.WellFormed) {n : CommandId} {c : Command}
    {bs : List Branch} (hb : f.Holds (.mk n c bs)) {before after : List CommandId} {k : CommandId}
    (hchildren : c.children = before ++ k :: after) :
    ∃ xs b ys, bs = xs ++ b :: ys ∧ b.id = k ∧ (∀ x ∈ xs, x.id ∈ before) := by
  obtain ⟨hc, hbs⟩ := hb.find? hf
  have hmap : c.children.map f.branch? = bs.map some := by
    rw [hbs]
    refine hf.map_branch? fun j hj => ?_
    obtain ⟨d, hd, -⟩ := (hf.mem_children n c hc j).mp hj
    exact ⟨d, hd⟩
  rw [hchildren, List.map_append, List.map_cons] at hmap
  obtain ⟨xs, others, rfl, hxs, hothers⟩ := List.map_eq_append_iff.mp hmap.symm
  obtain ⟨b, ys, rfl, hk, -⟩ := List.map_eq_cons_iff.mp hothers
  refine ⟨xs, b, ys, rfl, (holds_of_branch? hf hk.symm).2, fun x hx => ?_⟩
  have hmem : some x ∈ before.map f.branch? := hxs ▸ List.mem_map_of_mem hx
  obtain ⟨j, hj, hjx⟩ := List.mem_map.mp hmem
  rwa [(holds_of_branch? hf hjx).2]

/-- **Child order**: words that a command does not take itself end as in the
first of its children that handles its share of them. -/
theorem WellFormed.execute_of_taker {f : Forest} (hf : f.WellFormed) {n : CommandId} {c : Command}
    (hc : f.find? n = some c) {sender : Sender} (hadmits : c.Admits sender) {first : String}
    {rest : List String} (hown : (c.attempt sender n (first :: rest)).handled = false)
    {before after : List CommandId} {k : CommandId} (hchildren : c.children = before ++ k :: after)
    (hbefore : ∀ j ∈ before, ¬ f.Takes sender first rest j) {d : Command}
    (hd : f.find? k = some d) {words : List String} (hshare : d.share first rest = some words)
    (hhandled : (f.execute k sender words).handled = true) :
    (f.execute n sender (first :: rest)).SameEnd (f.execute k sender words) := by
  obtain ⟨bs, -, hb⟩ := hf.exists_branch hc
  obtain ⟨xs, b, ys, rfl, rfl, hxs⟩ := hb.split_children hf hchildren
  have hchild : f.Holds b := (hb.of_mem hf (by simp)).1
  have hoffered : b.offered f sender first rest = b.dispatch f sender words := by
    cases (hchild.find?_id hf).symm.trans hd
    rw [Branch.offered_eq, hshare]
    rfl
  have hrun := execute_eq_dispatch hchild sender words
  -- nothing comes of the children before, and this one handles its share
  obtain ⟨hbelow, hactions⟩ := Branch.dispatchAmong_of_taker hf ys
    (fun x hx => (hb.of_mem hf (List.mem_append_left _ hx)).1)
    (fun x hx => by
      rw [← Bool.not_eq_true, ← takes_iff_offered hf (hb.of_mem hf (List.mem_append_left _ hx)).1]
      exact hbefore x.id (hxs x hx))
    (hoffered ▸ hrun.1.symm.trans hhandled)
  have hsilent : actionsOf (c.attempt sender n (first :: rest)).log = [] := by
    rcases attempt_concludes hc hadmits (first :: rest) with ⟨hdone, -⟩ | ⟨-, hsilent⟩
    · rw [hown] at hdone
      contradiction
    · exact hsilent
  have hwalk : ((Branch.mk n c (xs ++ b :: ys)).dispatch f sender (first :: rest)) =
      ⟨true, (c.attempt sender n (first :: rest)).log ++
        (Branch.dispatchAmong f sender (xs ++ b :: ys) first rest).log⟩ := by
    rw [Branch.dispatch, Command.denial_eq_none_iff.mpr hadmits]
    dsimp only
    rw [hown, hbelow, if_neg Bool.false_ne_true, if_pos rfl]
  obtain ⟨htop, hlog⟩ := execute_eq_dispatch hb sender (first :: rest)
  rw [hwalk] at htop hlog
  have hsame : (f.execute n sender (first :: rest)).actions =
      (f.execute b.id sender words).actions := by
    rw [show (f.execute n sender (first :: rest)).actions = _ from hlog, actionsOf_append, hsilent,
      hactions, hoffered, hrun.2, List.nil_append]
  refine ⟨?_, hsame, ?_⟩
  · rw [hhandled]
    exact htop
  · rw [messages_execute_eq_sent hf, messages_execute_eq_sent hf, hsame]

/-- A child that the first word names is given the rest, unless one before it
handles its share. -/
theorem WellFormed.execute_of_named {f : Forest} (hf : f.WellFormed) {n : CommandId} {c : Command}
    (hc : f.find? n = some c) {sender : Sender} (hadmits : c.Admits sender) {first : String}
    {rest : List String} (hown : (c.attempt sender n (first :: rest)).handled = false)
    {before after : List CommandId} {k : CommandId} (hchildren : c.children = before ++ k :: after)
    (hbefore : ∀ j ∈ before, ¬ f.Takes sender first rest j) {d : Command}
    (hd : f.find? k = some d) (hnamed : d.isAnonymous = false)
    (hanswers : d.answersTo first = true) :
    (f.execute n sender (first :: rest)).SameEnd (f.execute k sender rest) := by
  have hshare : d.share first rest = some rest := by
    rw [Command.share, hnamed, hanswers]
    rfl
  exact hf.execute_of_taker hc hadmits hown hchildren hbefore hd hshare
    (hf.handled_execute_of_named hd hnamed sender rest)

/-- **A child by its name**: the words end as in the first child that answers
to the first of them and is given the rest, unless an anonymous child before
it handles all the words; then they end as in the first of those.  Anonymous
children after it are not asked. -/
theorem execute_in_child_order {f : Forest} (hf : f.Reachable) {n : CommandId} {c : Command}
    (hc : f.find? n = some c) {sender : Sender} (hadmits : c.Admits sender) (first : String)
    (rest : List String) (hown : (c.attempt sender n (first :: rest)).handled = false)
    {before after : List CommandId} {k : CommandId} (hchildren : c.children = before ++ k :: after)
    {d : Command} (hd : f.find? k = some d) (hnamed : d.isAnonymous = false)
    (hanswers : d.answersTo first = true)
    (hfirst : ∀ j ∈ before, ∀ e, f.find? j = some e → e.isAnonymous = false →
      e.answersTo first = false) :
    ((∀ j ∈ before, ∀ e, f.find? j = some e → e.isAnonymous = true →
        (f.execute j sender (first :: rest)).handled = false) →
      (f.execute n sender (first :: rest)).SameEnd (f.execute k sender rest)) ∧
    (∀ early j late e, before = early ++ j :: late → f.find? j = some e → e.isAnonymous = true →
      (f.execute j sender (first :: rest)).handled = true →
      (∀ i ∈ early, ∀ e', f.find? i = some e' → e'.isAnonymous = true →
        (f.execute i sender (first :: rest)).handled = false) →
      (f.execute n sender (first :: rest)).SameEnd (f.execute j sender (first :: rest))) := by
  have hwf := hf.wellFormed
  constructor
  · intro hleft
    refine hwf.execute_of_named hc hadmits hown hchildren ?_ hd hnamed hanswers
    exact fun j hj => not_takes (hleft j hj) (hfirst j hj)
  · rintro early j late e rfl he hanonymous hhandled hleft
    have hshare : e.share first rest = some (first :: rest) := by
      rw [Command.share, hanonymous]
      rfl
    rw [List.append_assoc, List.cons_append] at hchildren
    refine hwf.execute_of_taker hc hadmits hown hchildren ?_ he hshare hhandled
    exact fun i hi => not_takes (hleft i hi) (hfirst i (List.mem_append_left _ hi))

/-- A root with an anonymous child that takes a number, and a child behind it
whose second alias is a number. -/
def slotted : Forest :=
  ({} : Forest).run [
    .appendRoot { aliases := ["home"] },
    .appendUnder 0
      { aliases := ["_"], hook := some "slot", parameters := [⟨"int", "slot", none⟩] },
    .appendUnder 0 { aliases := ["seven", "7"], hook := some "seven" },
    .bind 0 ⟨[("slot", .echo "slot"), ("seven", .echo "seven")]⟩]

theorem reachable_slotted : slotted.Reachable := Reachable.empty.run _

/-- The child in front is picked by no word. -/
theorem not_named_before_slotted (first : String) :
    ∀ j ∈ [1], ∀ e, slotted.find? j = some e → e.isAnonymous = false →
      e.answersTo first = false := by
  intro j hj e he hnamed
  rw [List.mem_singleton.mp hj] at he
  cases he
  exact absurd hnamed (by decide)

/-- The child answers to its name, and not to the number. -/
theorem execute_in_child_order_slotted :
    slotted.Reachable ∧
    (slotted.execute 0 (.ofGrants .player []) ["seven"]).SameEnd
      (slotted.execute 2 (.ofGrants .player []) []) ∧
    (slotted.execute 0 (.ofGrants .player []) ["7"]).SameEnd
      (slotted.execute 1 (.ofGrants .player []) ["7"]) := by
  obtain ⟨hname, -⟩ := execute_in_child_order reachable_slotted (n := 0) rfl
    (Command.denial_eq_none_iff.mp rfl) "seven" [] rfl (show _ = [1] ++ 2 :: [] from rfl)
    rfl rfl rfl (not_named_before_slotted "seven")
  obtain ⟨-, hnumber⟩ := execute_in_child_order reachable_slotted (n := 0) rfl
    (Command.denial_eq_none_iff.mp rfl) "7" [] rfl (show _ = [1] ++ 2 :: [] from rfl)
    rfl rfl rfl (not_named_before_slotted "7")
  refine ⟨reachable_slotted, hname fun j hj e he _ => ?_, ?_⟩
  · rw [List.mem_singleton.mp hj]
    rfl
  · exact hnumber [] 1 [] _ rfl rfl rfl rfl fun i hi => absurd hi List.not_mem_nil

/-- An anonymous child that stands before it takes the words from a child that
answers to the first of them. -/
theorem not_forall_named_child_first :
    ¬ ∀ (f : Forest), f.Reachable → ∀ (n : CommandId) (c : Command) (sender : Sender)
      (first : String) (rest : List String) (before after : List CommandId) (k : CommandId)
      (d : Command), f.find? n = some c → c.Admits sender →
      (c.attempt sender n (first :: rest)).handled = false →
      c.children = before ++ k :: after → f.find? k = some d → d.isAnonymous = false →
      d.answersTo first = true →
      (∀ j ∈ before, ∀ e, f.find? j = some e → e.isAnonymous = false → e.answersTo first = false) →
      (f.execute n sender (first :: rest)).SameEnd (f.execute k sender rest) := by
  intro h
  have hsame := h slotted reachable_slotted 0 _ (.ofGrants .player []) "7" [] [1] [] 2 _ rfl
    (Command.denial_eq_none_iff.mp rfl) rfl rfl rfl rfl rfl (not_named_before_slotted "7")
  have hids : [1] = [2] := congrArg (List.map Action.id) hsame.actions
  exact absurd hids (by decide)

end Forest

end CommandForest
