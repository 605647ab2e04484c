import CommandForest.Proofs.Action
import CommandForest.Proofs.Change

/-!
# CommandForest.Proofs.Listing

Which commands help lists (`listed_iff`).  The help of a command has a line for
each command in its subtree

* that has a help text and itself admits the sender;
* that is not kept out by a command strictly between the two that hides its
  subcommands, nor is the command itself hiding its own.

The gates above the listed command play no part, although a dispatch has to
pass all of them: help can list a command that a refusal further up puts out of
reach (`not_forall_listed_admit`).
-/

namespace CommandForest

/-- The command has something to show to a sender whom it admits. -/
def Command.Shows (c : Command) (m : Messages) (sender : Sender) : Prop :=
  (c.shownHelp m).isSome = true ∧ c.Admits sender

/-- The line of a command is about that command, and it is there if the
command shows itself, except on top of a help that is to list what is hidden. -/
theorem Command.exists_helpLine_iff (c : Command) (m : Messages) (sender : Sender)
    (id n : CommandId) (path : String) (top : Bool) :
    (∃ l ∈ (c.helpLine? m sender id path top).toList, l.id = n) ↔
      n = id ∧ c.Shows m sender ∧ (top && c.hidesSubcommands) = false := by
  have hdenial : (c.denial sender).isSome = false ↔ c.Admits sender := by
    rw [← c.denial_eq_none_iff, Option.isSome_eq_false_iff, Option.isNone_iff_eq_none]
  rw [helpLine?, Shows, ← hdenial]
  cases c.shownHelp m with
  | none => simp
  | some help =>
      cases (c.denial sender).isSome <;> cases (top && c.hidesSubcommands) <;> simp [eq_comm]

namespace Forest

/-- No command of a trail hides its subcommands. -/
def Open (f : Forest) (above : List CommandId) : Prop :=
  ∀ p ∈ above, ∀ c, f.find? p = some c → c.hidesSubcommands = false

/-- A command can be seen from `top`: the way down to it, and that it shows
itself. -/
def Seen (f : Forest) (sender : Sender) (top n : CommandId) : Prop :=
  ∃ above c, f.Trail top above n ∧ f.Open above ∧ f.find? n = some c ∧ c.Shows f.messages sender

theorem Seen.of_child {f : Forest} {sender : Sender} {id k n : CommandId} {c : Command}
    (h : f.Seen sender k n) (hc : f.find? id = some c) (hk : k ∈ c.children)
    (hopen : c.hidesSubcommands = false) : f.Seen sender id n := by
  obtain ⟨above, d, htrail, habove, hd, hshows⟩ := h
  refine ⟨id :: above, d, .down hc hk htrail, ?_, hd, hshows⟩
  intro p hp e he
  rcases List.mem_cons.mp hp with rfl | hp
  · cases hc.symm.trans he
    exact hopen
  · exact habove p hp e he

/-- What is seen is the command itself, or seen from a child. -/
theorem seen_iff {f : Forest} {sender : Sender} {id n : CommandId} {c : Command}
    (hc : f.find? id = some c) :
    f.Seen sender id n ↔ (n = id ∧ c.Shows f.messages sender) ∨
      (c.hidesSubcommands = false ∧ ∃ k ∈ c.children, f.Seen sender k n) := by
  constructor
  · rintro ⟨above, d, htrail, habove, hd, hshows⟩
    cases htrail with
    | here =>
        cases hc.symm.trans hd
        exact .inl ⟨rfl, hshows⟩
    | down hc' hk htrail =>
        cases hc.symm.trans hc'
        have hbelow : f.Open _ := fun p hp => habove p (List.mem_cons_of_mem id hp)
        exact .inr ⟨habove id List.mem_cons_self c hc, _, hk, _, d, htrail, hbelow, hd, hshows⟩
  · rintro (⟨rfl, hshows⟩ | ⟨hopen, k, hk, hseen⟩)
    · exact ⟨[], c, .here n, fun _ hp => absurd hp List.not_mem_nil, hc, hshows⟩
    · exact hseen.of_child hc hk hopen

mutual

/-- From above, help lists the commands that can be seen. -/
theorem Holds.listed_iff {f : Forest} (hf : f.WellFormed) (sender : Sender) {n : CommandId} :
    (b : Branch) → f.Holds b → (path : String) →
    ((∃ l ∈ b.helpLinesFrom f.messages sender path false, l.id = n) ↔ f.Seen sender b.id n)
  | .mk id c bs, hb, path => by
      obtain ⟨hc, hbs⟩ := hb.find? hf
      have hbelow := listedOfAll_iff hf sender (n := n) bs c.children
        (hbs ▸ hf.map_branch? fun _ => hf.exists_find?_of_mem_children hc) (c.extendPath path)
      have hown := c.exists_helpLine_iff f.messages sender id n path false
      rw [Branch.helpLinesFrom, Branch.id, seen_iff hc]
      cases hhides : c.hidesSubcommands with
      | true => simpa [hhides] using hown
      | false =>
          simp only [Bool.false_and, Bool.false_eq_true, if_false, and_true] at hown ⊢
          simp only [List.mem_append, or_and_right, exists_or, true_and]
          rw [hown, hbelow]

/-- Below a command, help lists what can be seen from its children. -/
theorem listedOfAll_iff {f : Forest} (hf : f.WellFormed) (sender : Sender) {n : CommandId} :
    (bs : List Branch) → (ks : List CommandId) → ks.map f.branch? = bs.map some →
    (path : String) →
    ((∃ l ∈ Branch.helpLinesOfAll f.messages sender path bs, l.id = n) ↔
      ∃ k ∈ ks, f.Seen sender k n)
  | [], ks, hks, _ => by
      obtain rfl : ks = [] := List.map_eq_nil_iff.mp hks
      simp [Branch.helpLinesOfAll]
  | b :: bs, ks, hks, path => by
      obtain ⟨k, ks, rfl, hk, hrest⟩ := List.map_eq_cons_iff.mp hks
      obtain ⟨hb, rfl⟩ := holds_of_branch? hf hk
      have hfirst := hb.listed_iff hf sender (n := n) b path
      have hlater := listedOfAll_iff hf sender (n := n) bs ks hrest path
      simp only [Branch.helpLinesOfAll, List.mem_append, or_and_right, exists_or,
        List.mem_cons, exists_eq_left]
      rw [hfirst, hlater]

end

/-- The help of a command lists the command itself, unless it hides its
subcommands, and what can be seen from its children, even if it does. -/
theorem WellFormed.listed_helpLines_iff {f : Forest} (hf : f.WellFormed) {id n : CommandId}
    {b : Branch} (hb : f.branch? id = some b) (sender : Sender) :
    (∃ l ∈ b.helpLines f.messages sender, l.id = n) ↔
      ∃ above c, f.Trail id above n ∧ f.Open above.tail ∧ f.find? n = some c ∧
        c.Shows f.messages sender ∧ (n = id → c.hidesSubcommands = false) := by
  obtain ⟨hholds, rfl⟩ := holds_of_branch? hf hb
  obtain ⟨id, c, bs⟩ := b
  obtain ⟨hc, hbs⟩ := hholds.find? hf
  have hbelow := listedOfAll_iff hf sender (n := n) bs c.children
    (hbs ▸ hf.map_branch? fun _ => hf.exists_find?_of_mem_children hc) (c.extendPath "")
  have hown := c.exists_helpLine_iff f.messages sender id n "" true
  simp only [Branch.helpLines, Branch.helpLinesFrom, Bool.not_true, Bool.and_false,
    Bool.false_eq_true, if_false, List.mem_append, or_and_right, exists_or, Branch.id]
  rw [hown, hbelow, Bool.true_and]
  constructor
  · rintro (⟨rfl, hshows, hlists⟩ | ⟨k, hk, above, d, htrail, hopen, hd, hshows⟩)
    · exact ⟨[], c, .here n, fun _ hp => absurd hp List.not_mem_nil, hc, hshows, fun _ => hlists⟩
    · have hlt := Nat.lt_of_lt_of_le (hf.lt_of_mem_children hc hk) (htrail.le hf).1
      exact ⟨id :: above, d, .down hc hk htrail, hopen, hd, hshows,
        fun hself => absurd hself (Nat.ne_of_gt hlt)⟩
  · rintro ⟨above, d, htrail, hopen, hd, hshows, hlists⟩
    cases htrail with
    | here =>
        cases hc.symm.trans hd
        exact .inl ⟨rfl, hshows, hlists rfl⟩
    | down hc' hk htrail =>
        cases hc.symm.trans hc'
        exact .inr ⟨_, hk, _, d, htrail, hopen, hd, hshows⟩

/-! ## Help and dispatch -/

/-- A command on a trail splits it. -/
theorem Trail.below_of_mem {f : Forest} {top n p : CommandId} {above : List CommandId}
    (h : f.Trail top above n) (hp : p ∈ above) : f.Below top p ∧ f.Below p n := by
  induction h with
  | here => exact absurd hp List.not_mem_nil
  | @down id k n c above hc hk htrail ih =>
      rcases List.mem_cons.mp hp with rfl | hp
      · exact ⟨.refl f p, _, .down hc hk htrail⟩
      · obtain ⟨hbelow, hfrom⟩ := ih hp
        exact ⟨(Below.child hc hk).trans hbelow, hfrom⟩

/-- **What help lists and what runs**: a line of help is about a command in the
subtree that shows itself and is not hidden, whoever refuses above it; but no
dispatch calls the handler of a command behind one that refuses. -/
theorem helpLines_by_own_gates {f : Forest} (hf : f.Reachable) (id : CommandId) (sender : Sender) :
    (∀ b, f.branch? id = some b →
      (f.helpLines id sender).1 = (b.helpLines f.messages sender).map HelpLine.text ∧
      ∀ n, (∃ l ∈ b.helpLines f.messages sender, l.id = n) ↔
        ∃ above c, f.Trail id above n ∧ f.Open above.tail ∧ f.find? n = some c ∧
          c.Shows f.messages sender ∧ (n = id → c.hidesSubcommands = false)) ∧
    (f.branch? id = none → (f.helpLines id sender).1 = []) ∧
    (∀ above n, f.Trail id above n → ¬ f.Admit sender above →
      ∀ tokens hook values response,
        .answered n hook values response ∉ (f.execute id sender tokens).actions) := by
  have hwf := hf.wellFormed
  refine ⟨fun b hb => ⟨?_, fun n => hwf.listed_helpLines_iff hb sender⟩, fun hnone => ?_, ?_⟩
  · rw [helpLines, hb]
  · rw [helpLines, hnone]
  · intro above n htrail hrefused tokens hook values response
    simp only [Admit, not_forall] at hrefused
    obtain ⟨p, hp, c, hc, hrefuses⟩ := hrefused
    obtain ⟨hbelow, hfrom⟩ := htrail.below_of_mem hp
    exact not_answered_behind_refusal hwf tokens hbelow hc hrefuses hfrom

/-- A root behind a permission, with a command below it that is not. -/
def jail : Forest :=
  ({} : Forest).run [
    .appendRoot { aliases := ["admin"], permission := some "server.admin", help := some "Admin" },
    .appendUnder 0 { aliases := ["ban"], help := some "Ban" }]

theorem reachable_jail : jail.Reachable := Reachable.empty.run _

theorem helpLines_jail : (jail.helpLines 0 (.ofGrants .player [])).1 = ["admin ban: Ban"] := by rfl

/-- The help of the root lists the command below it, which the sender cannot
run: the root refuses. -/
theorem helpLines_by_own_gates_jail :
    jail.Reachable ∧
    (jail.helpLines 0 (.ofGrants .player [])).1 = ["admin ban: Ban"] ∧
    ∀ tokens hook values response,
      .answered 1 hook values response ∉
        (jail.execute 0 (.ofGrants .player []) tokens).actions := by
  have hrefuses : ¬ jail.Admit (.ofGrants .player []) [0] := by
    intro hgates
    have hadmits := hgates 0 List.mem_cons_self _ rfl
    exact absurd (hadmits.1 "server.admin" rfl) (by decide)
  have htrail : jail.Trail 0 [0] 1 := .down rfl List.mem_cons_self (.here 1)
  obtain ⟨-, -, hbehind⟩ :=
    helpLines_by_own_gates reachable_jail 0 (Sender.ofGrants .player [])
  exact ⟨reachable_jail, helpLines_jail, hbehind [0] 1 htrail hrefuses⟩

/-- Help lists commands that the sender may not use. -/
theorem not_forall_listed_admit :
    ¬ ∀ (f : Forest), f.Reachable → ∀ (id : CommandId) (sender : Sender) (b : Branch),
      f.branch? id = some b → ∀ l ∈ b.helpLines f.messages sender, ∀ above : List CommandId,
        f.Trail id above l.id → f.Admit sender (above ++ [l.id]) := by
  intro h
  have hadmits := h jail reachable_jail 0 (.ofGrants .player []) _ rfl _ List.mem_cons_self [0]
    (.down rfl List.mem_cons_self (.here 1)) 0 List.mem_cons_self _ rfl
  exact absurd (hadmits.1 "server.admin" rfl) (by decide)

end Forest

end CommandForest
