import CommandForest.Proofs.Action

/-!
# CommandForest.Proofs.Veil

What a sender can learn about a command that refuses: its names and its gates,
and nothing that lies behind them.

Two forests that differ only behind a command (`Forest.VariesBehind`) unfold to
branches that look alike to a sender whom it refuses (`Branch.Alike`).  Walks
through branches that look alike take the same turns: `dispatch_of_alike` and
`complete_of_alike` follow them side by side.  The numbers of the commands may
differ from one forest to the other, because more or fewer commands behind the
refusing one shift those that are added later.
-/

namespace CommandForest

/-! ## Two forests -/

/-- The same action at the command of another number. -/
def Action.renumber (ρ : CommandId → CommandId) : Action → Action
  | denied id denial => denied (ρ id) denial
  | answered id hook values response => answered (ρ id) hook values response
  | mismatched id hook expected found => mismatched (ρ id) hook expected found
  | helped id => helped (ρ id)

/-- Whether the action is to show help. -/
def Action.isHelp : Action → Bool
  | helped _ => true
  | _ => false

namespace Command

/-- The names and the gates of two commands are the same. -/
def SameFront (c c' : Command) : Prop :=
  c'.aliases = c.aliases ∧ c'.permission = c.permission ∧ c'.audience = c.audience

/-- The same command with other numbers around it, from another line of a
definition. -/
def Moved (ρ : CommandId → CommandId) (c c' : Command) : Prop :=
  ∃ line, c' = { c with parent := c.parent.map ρ, children := c.children.map ρ, line := line }

theorem Moved.sameFront {ρ : CommandId → CommandId} {c c' : Command} (h : c.Moved ρ c') :
    c.SameFront c' := by
  obtain ⟨line, rfl⟩ := h
  exact ⟨rfl, rfl, rfl⟩

namespace SameFront

variable {c c' : Command}

theorem denial (h : c.SameFront c') (sender : Sender) : c'.denial sender = c.denial sender := by
  rw [Command.denial, Command.denial, h.2.1, h.2.2]

theorem answersTo (h : c.SameFront c') (name : String) : c'.answersTo name = c.answersTo name := by
  rw [Command.answersTo, Command.answersTo, h.1]

theorem isAnonymous (h : c.SameFront c') : c'.isAnonymous = c.isAnonymous := h.answersTo _

theorem offeredNames (h : c.SameFront c') (typed start : String) :
    c'.offeredNames typed start = c.offeredNames typed start := by
  rw [Command.offeredNames, Command.offeredNames, h.isAnonymous, name, name, h.1]

end SameFront

end Command

/-- Two forests differ only behind the command `d`, in its own particulars but
names and gates, and in all that stands below it.  Any other command of the
first forest is in the second one, where `ρ` gives its number. -/
structure Forest.VariesBehind (f g : Forest) (ρ : CommandId → CommandId) (d : CommandId) :
    Prop where
  messages : g.messages = f.messages
  front : ∃ c c', f.find? d = some c ∧ g.find? (ρ d) = some c' ∧ c.SameFront c'
  outside : ∀ id c, ¬ f.Below d id → f.find? id = some c →
    ∃ c', g.find? (ρ id) = some c' ∧ c.Moved ρ c'

/-! ## Branches that look alike -/

namespace Branch

mutual

/-- Branches that look alike to a sender: the same names and gates at the top,
and the same command with branches that look alike below it, unless the top
refuses. -/
def Alike (ρ : CommandId → CommandId) (sender : Sender) : Branch → Branch → Prop
  | mk id c bs, mk id' c' bs' =>
    id' = ρ id ∧ c.SameFront c' ∧
      (c.denial sender = none → c.Moved ρ c' ∧ AlikeAll ρ sender bs bs')

/-- Lists of branches that look alike one by one. -/
def AlikeAll (ρ : CommandId → CommandId) (sender : Sender) : List Branch → List Branch → Prop
  | [], [] => True
  | b :: bs, b' :: bs' => Alike ρ sender b b' ∧ AlikeAll ρ sender bs bs'
  | _, _ => False

end

variable {ρ : CommandId → CommandId} {sender : Sender}

theorem Alike.sameFront {b b' : Branch} (h : Alike ρ sender b b') :
    b.command.SameFront b'.command := by
  cases b
  cases b'
  exact h.2.1

end Branch

namespace Forest

/-- A child of a command that does not stand below `d` can only be `d`
itself if it stands below `d`. -/
theorem WellFormed.not_below_of_child {f : Forest} (hf : f.WellFormed) {d id k : CommandId}
    {c : Command} (hc : f.find? id = some c) (hk : k ∈ c.children) (hid : ¬ f.Below d id) :
    k = d ∨ ¬ f.Below d k := by
  by_cases hkd : k = d
  · exact .inl hkd
  · refine .inr ?_
    rintro ⟨above, hab⟩
    rcases hab.cases_last with ⟨-, rfl⟩ | ⟨init, p, e, -, hinit, he, hke⟩
    · exact hkd rfl
    · obtain rfl := hf.parent_unique he hke hc hk
      exact hid ⟨init, hinit⟩

section

variable {f g : Forest} {ρ : CommandId → CommandId} {d : CommandId} {sender : Sender}

mutual

/-- Forests that differ only behind a command that refuses the sender unfold
to branches that look alike. -/
theorem VariesBehind.exists_alike (h : f.VariesBehind g ρ d) (hf : f.WellFormed) (hg : g.WellFormed)
    (hrefuses : ∀ c, f.find? d = some c → c.denial sender ≠ none) : (b : Branch) → f.Holds b →
    b.id = d ∨ ¬ f.Below d b.id → ∃ b', g.branch? (ρ b.id) = some b' ∧ b.Alike ρ sender b'
  | .mk id c bs, hb, hid => by
      obtain ⟨hc, hbs⟩ := hb.find? hf
      by_cases hbelow : f.Below d id
      · -- this is the command that refuses
        obtain rfl : id = d := hid.resolve_right (not_not_intro hbelow)
        obtain ⟨e, c', he, hc', hfront⟩ := h.front
        cases he.symm.trans hc
        obtain ⟨bs', hb', -⟩ := hg.exists_branch hc'
        exact ⟨_, hb', rfl, hfront, fun hnone => absurd hnone (hrefuses c hc)⟩
      · obtain ⟨c', hc', hmoved⟩ := h.outside id c hbelow hc
        have hchildren : c'.children = c.children.map ρ := by
          obtain ⟨line, rfl⟩ := hmoved
          rfl
        refine ⟨.mk (ρ id) c' (c'.children.filterMap g.branch?), ?_, rfl, hmoved.sameFront,
          fun _ => ⟨hmoved, ?_⟩⟩
        · rw [Branch.id, hg.branch?_eq, hc', Option.map_some]
        · rw [hchildren]
          refine h.alikeAll_filterMap hf hg hrefuses bs c.children ?_ ?_
          · rw [hbs]
            refine hf.map_branch? fun k hk => ?_
            obtain ⟨e, he, -⟩ := (hf.mem_children id c hc k).mp hk
            exact ⟨e, he⟩
          · exact fun k hk => hf.not_below_of_child hc hk hbelow

theorem VariesBehind.alikeAll_filterMap (h : f.VariesBehind g ρ d) (hf : f.WellFormed)
    (hg : g.WellFormed) (hrefuses : ∀ c, f.find? d = some c → c.denial sender ≠ none) :
    (bs : List Branch) → (ks : List CommandId) → ks.map f.branch? = bs.map some →
    (∀ k ∈ ks, k = d ∨ ¬ f.Below d k) →
    Branch.AlikeAll ρ sender bs ((ks.map ρ).filterMap g.branch?)
  | [], ks, hks, _ => by
      obtain rfl : ks = [] := List.map_eq_nil_iff.mp hks
      rw [List.map_nil, List.filterMap_nil, Branch.AlikeAll]
      trivial
  | b :: bs, ks, hks, hbelow => by
      obtain ⟨k, ks, rfl, hk, hrest⟩ := List.map_eq_cons_iff.mp hks
      obtain ⟨hb, rfl⟩ := holds_of_branch? hf hk
      obtain ⟨b', hb', halike⟩ :=
        h.exists_alike hf hg hrefuses b hb (hbelow b.id List.mem_cons_self)
      rw [List.map_cons, List.filterMap_cons_some hb', Branch.AlikeAll]
      exact ⟨halike, h.alikeAll_filterMap hf hg hrefuses bs ks hrest
        fun k' hk' => hbelow k' (List.mem_cons_of_mem _ hk')⟩

end

end

end Forest

/-! ## Walks side by side -/

/-- Two routes that come to the same, with the numbers of `ρ`. -/
def Route.Same (ρ : CommandId → CommandId) (r r' : Route) : Prop :=
  r'.handled = r.handled ∧ actionsOf r'.log = (actionsOf r.log).map (Action.renumber ρ)

theorem actionsOf_append_renumber {ρ : CommandId → CommandId}
    {before before' after after' : List Event}
    (hb : actionsOf before' = (actionsOf before).map (Action.renumber ρ))
    (ha : actionsOf after' = (actionsOf after).map (Action.renumber ρ)) :
    actionsOf (before' ++ after') = (actionsOf (before ++ after)).map (Action.renumber ρ) := by
  rw [actionsOf_append, actionsOf_append, List.map_append, hb, ha]

/-- A command answers the same under another number. -/
theorem Command.Moved.attempt {ρ : CommandId → CommandId} {c c' : Command} (h : c.Moved ρ c')
    (sender : Sender) (id : CommandId) (tokens : List String) :
    Route.Same ρ (c.attempt sender id tokens) (c'.attempt sender (ρ id) tokens) := by
  obtain ⟨line, rfl⟩ := h
  have hlookups := fun n => actionsOf_lookups n (convertAll c.providers c.parameters tokens)
  rw [Command.attempt, Command.attempt]
  cases c.binding with
  | unbound => exact ⟨rfl, rfl⟩
  | bound handler =>
      dsimp only
      cases (convertAll c.providers c.parameters tokens).values with
      | none => exact ⟨rfl, by rw [hlookups, hlookups]; rfl⟩
      | some values =>
          refine ⟨rfl, actionsOf_append_renumber ?_ rfl⟩
          rw [hlookups, hlookups]
          rfl
  | mismatch expected found =>
      dsimp only
      cases (convertAll c.providers c.parameters tokens).values with
      | none => exact ⟨rfl, by rw [hlookups, hlookups]; rfl⟩
      | some values =>
          refine ⟨rfl, actionsOf_append_renumber ?_ rfl⟩
          rw [hlookups, hlookups]
          rfl

namespace Branch

section

variable {f g : Forest} {ρ : CommandId → CommandId} {sender : Sender}

mutual

/-- Dispatch takes the same turns in branches that look alike. -/
theorem dispatch_of_alike (hf : f.WellFormed) (hg : g.WellFormed) :
    (b b' : Branch) → b.Alike ρ sender b' → f.Holds b → g.Holds b' → (tokens : List String) →
    Route.Same ρ (b.dispatch f sender tokens) (b'.dispatch g sender tokens)
  | mk id c bs, mk id' c' bs', h, hb, hb', tokens => by
      obtain ⟨rfl, hfront, hinside⟩ := h
      have hhelp : actionsOf (g.helpEvents (mk (ρ id) c' bs') sender) =
          (actionsOf (f.helpEvents (mk id c bs) sender)).map (Action.renumber ρ) := by
        rw [Forest.actionsOf_helpEvents hf hb, Forest.actionsOf_helpEvents hg hb']
        rfl
      rw [dispatch, dispatch, hfront.denial]
      cases hdenial : c.denial sender with
      | some denial => exact ⟨rfl, rfl⟩
      | none =>
          obtain ⟨hmoved, hall⟩ := hinside hdenial
          have htried := hmoved.attempt sender id tokens
          dsimp only
          rw [htried.1]
          cases hhandled : (c.attempt sender id tokens).handled with
          | true => exact ⟨htried.1, htried.2⟩
          | false =>
              simp only [Bool.false_eq_true, if_false]
              cases tokens with
              | nil => exact ⟨rfl, actionsOf_append_renumber htried.2 hhelp⟩
              | cons first rest =>
                  have hbelow := dispatchAmong_of_alike hf hg bs bs' hall
                    (fun b hmem => (hb.of_mem hf hmem).1) (fun b hmem => (hb'.of_mem hg hmem).1)
                    first rest
                  dsimp only
                  have hboth := actionsOf_append_renumber htried.2 hbelow.2
                  rw [hbelow.1, hfront.isAnonymous]
                  cases (dispatchAmong f sender bs first rest).handled with
                  | true => exact ⟨rfl, hboth⟩
                  | false =>
                      simp only [Bool.false_eq_true, if_false]
                      cases c.isAnonymous with
                      | true => exact ⟨rfl, hboth⟩
                      | false => exact ⟨rfl, actionsOf_append_renumber hboth hhelp⟩

theorem dispatchAmong_of_alike (hf : f.WellFormed) (hg : g.WellFormed) :
    (bs bs' : List Branch) → AlikeAll ρ sender bs bs' → (∀ b ∈ bs, f.Holds b) →
    (∀ b ∈ bs', g.Holds b) → (first : String) → (rest : List String) →
    Route.Same ρ (dispatchAmong f sender bs first rest) (dispatchAmong g sender bs' first rest)
  | [], [], _, _, _, _, _ => ⟨rfl, rfl⟩
  | [], _ :: _, h, _, _, _, _ => h.elim
  | _ :: _, [], h, _, _, _, _ => h.elim
  | b :: bs, b' :: bs', h, hbs, hbs', first, rest => by
      obtain ⟨hb, hall⟩ := h
      have hwalk := dispatch_of_alike hf hg b b' hb (hbs b List.mem_cons_self)
        (hbs' b' List.mem_cons_self)
      have hlater := dispatchAmong_of_alike hf hg bs bs' hall
        (fun x hx => hbs x (List.mem_cons_of_mem b hx))
        (fun x hx => hbs' x (List.mem_cons_of_mem b' hx)) first rest
      have hhere :
          Route.Same ρ (b.offered f sender first rest) (b'.offered g sender first rest) := by
        rw [offered, offered, hb.sameFront.isAnonymous, hb.sameFront.answersTo]
        cases b.command.isAnonymous with
        | true => exact hwalk (first :: rest)
        | false =>
            cases b.command.answersTo first with
            | true => exact hwalk rest
            | false => exact ⟨rfl, rfl⟩
      rw [dispatchAmong_cons, dispatchAmong_cons, hhere.1]
      split
      · exact hhere
      · exact ⟨hlater.1, actionsOf_append_renumber hhere.2 hlater.2⟩

end

theorem flatMap_offeredNames_of_alike (typed start : String) :
    (bs bs' : List Branch) → AlikeAll ρ sender bs bs' →
    (bs'.map command).flatMap (fun child => child.offeredNames typed start) =
      (bs.map command).flatMap fun child => child.offeredNames typed start
  | [], [], _ => rfl
  | [], _ :: _, h => h.elim
  | _ :: _, [], h => h.elim
  | b :: bs, b' :: bs', h => by
      obtain ⟨hb, hall⟩ := h
      simp only [List.map_cons, List.flatMap_cons]
      rw [hb.sameFront.offeredNames, flatMap_offeredNames_of_alike typed start bs bs' hall]

/-- A command offers the same among children that look alike. -/
theorem candidates_of_alike {c c' : Command} (h : c.Moved ρ c') {bs bs' : List Branch}
    (hall : AlikeAll ρ sender bs bs') (count : Nat) (typed start : String) :
    c'.candidates (bs'.map command) sender count typed start =
      c.candidates (bs.map command) sender count typed start := by
  have hnames := flatMap_offeredNames_of_alike typed start bs bs' hall
  obtain ⟨line, rfl⟩ := h
  rw [Command.candidates, Command.candidates, hnames]
  rfl

mutual

/-- Completion takes the same turns in branches that look alike. -/
theorem complete_of_alike : (b b' : Branch) → b.Alike ρ sender b' → (tokens : List String) →
    (b'.complete sender tokens).candidates = (b.complete sender tokens).candidates
  | mk id c bs, mk id' c' bs', h, tokens => by
      obtain ⟨rfl, hfront, hinside⟩ := h
      cases tokens with
      | nil => rw [complete, complete]
      | cons first rest =>
          rw [complete, complete, hfront.denial]
          dsimp only
          cases hdenial : c.denial sender with
          | some denial => rfl
          | none =>
              obtain ⟨hmoved, hall⟩ := hinside hdenial
              have hbelow := completeAmong_of_alike bs bs' hall
                (Text.lowered (Text.trimmed first)) rest
              rw [candidates_of_alike hmoved hall]
              simp only [Option.isSome_none, Bool.false_eq_true, if_false]
              split
              · exact hbelow
              · rfl

theorem completeAmong_of_alike : (bs bs' : List Branch) → AlikeAll ρ sender bs bs' →
    (name : String) → (rest : List String) →
    (completeAmong sender bs' name rest).candidates = (completeAmong sender bs name rest).candidates
  | [], [], _, _, _ => rfl
  | [], _ :: _, h, _, _ => h.elim
  | _ :: _, [], h, _, _ => h.elim
  | b :: bs, b' :: bs', h, name, rest => by
      obtain ⟨hb, hall⟩ := h
      rw [completeAmong, completeAmong, hb.sameFront.isAnonymous, hb.sameFront.answersTo]
      split
      · rfl
      · split
        · exact complete_of_alike b b' hb rest
        · exact completeAmong_of_alike bs bs' hall name rest

end

end

end Branch

/-! ## Dispatch and completion -/

/-- But for help, the sender reads the same of an action under another
number. -/
theorem Action.sent_renumber {f g : Forest} (hm : g.messages = f.messages)
    (ρ : CommandId → CommandId) (sender : Sender) {a : Action} (ha : a.isHelp = false) :
    (a.renumber ρ).sent g sender = a.sent f sender := by
  cases a with
  | denied | answered | mismatched =>
      simp only [renumber, sent, hm]
  | helped => contradiction

namespace Forest

/-- A command is found in both forests, with branches that look alike, or in
neither. -/
theorem VariesBehind.branch?_alike {f g : Forest} {ρ : CommandId → CommandId} {d : CommandId}
    (h : f.VariesBehind g ρ d) (hf : f.WellFormed) (hg : g.WellFormed) {sender : Sender}
    (hrefuses : ∀ c, f.find? d = some c → c.denial sender ≠ none) {id : CommandId}
    (hid : id = d ∨ ¬ f.Below d id) (hunknown : f.find? id = none → g.find? (ρ id) = none) :
    (f.branch? id = none ∧ g.branch? (ρ id) = none) ∨
      ∃ b b', f.branch? id = some b ∧ g.branch? (ρ id) = some b' ∧ f.Holds b ∧ g.Holds b' ∧
        b.Alike ρ sender b' := by
  cases hc : f.find? id with
  | none =>
      refine .inl ⟨?_, ?_⟩
      · rw [hf.branch?_eq, hc, Option.map_none]
      · rw [hg.branch?_eq, hunknown hc, Option.map_none]
  | some c =>
      obtain ⟨bs, hb, hholds⟩ := hf.exists_branch hc
      obtain ⟨b', hb', halike⟩ := h.exists_alike hf hg hrefuses _ hholds hid
      exact .inr ⟨_, b', hb, hb', hholds, (holds_of_branch? hg hb').1, halike⟩

/-- **Nothing shows behind a command that refuses**: dispatch and completion
from a command that does not stand strictly below it come to the same in two
forests that differ only behind it.  The same action is taken at the same
command, and the sender reads the same, except that a help text may differ. -/
theorem execute_behind_refusal {f g : Forest} (hf : f.Reachable) (hg : g.Reachable)
    {ρ : CommandId → CommandId} {d : CommandId} (h : f.VariesBehind g ρ d) {sender : Sender}
    (hrefuses : ∀ c, f.find? d = some c → ¬ c.Admits sender) {id : CommandId}
    (hid : id = d ∨ ¬ f.Below d id) (hunknown : f.find? id = none → g.find? (ρ id) = none)
    (tokens : List String) :
    let o := f.execute id sender tokens
    let o' := g.execute (ρ id) sender tokens
    o'.handled = o.handled ∧
    o'.actions = o.actions.map (Action.renumber ρ) ∧
    ((∀ a ∈ o.actions, a.isHelp = false) → o'.messages = o.messages) ∧
    (g.complete (ρ id) sender tokens).1 = (f.complete id sender tokens).1 := by
  intro o o'
  have hdenial : ∀ c, f.find? d = some c → c.denial sender ≠ none := by
    intro c hc hnone
    exact hrefuses c hc (Command.denial_eq_none_iff.mp hnone)
  have hsame : o'.handled = o.handled ∧ o'.actions = o.actions.map (Action.renumber ρ) ∧
      (g.complete (ρ id) sender tokens).1 = (f.complete id sender tokens).1 := by
    simp only [o, o', execute, complete, Outcome.actions]
    rcases h.branch?_alike hf.wellFormed hg.wellFormed hdenial hid hunknown with
      ⟨hb, hb'⟩ | ⟨b, b', hb, hb', hholds, hholds', halike⟩
    · rw [hb, hb']
      exact ⟨rfl, rfl, rfl⟩
    · rw [hb, hb']
      have hwalk := b.dispatch_of_alike hf.wellFormed hg.wellFormed b' halike hholds hholds' tokens
      exact ⟨hwalk.1, hwalk.2, b.complete_of_alike b' halike tokens⟩
  obtain ⟨hhandled, hactions, hcomplete⟩ := hsame
  refine ⟨hhandled, hactions, fun hhelp => ?_, hcomplete⟩
  have hsent : ∀ {k : Forest} (_ : k.WellFormed) (n : CommandId),
      (k.execute n sender tokens).messages =
        (k.execute n sender tokens).actions.flatMap (Action.sent k sender) :=
    fun hk n => messages_execute_eq_sent hk n sender tokens
  rw [hsent hg.wellFormed, hsent hf.wellFormed, hactions, List.flatMap_map]
  exact List.flatMap_congr fun a ha => Action.sent_renumber h.messages ρ sender (hhelp a ha)

/-- A vault behind a permission, and what is inside. -/
def vault : Forest :=
  (((({} : Forest).perform (.appendRoot { aliases := ["home"] })).perform
    (.appendUnder 0 { aliases := ["vault"], permission := some "vault",
                      hook := some "open" })).perform
    (.appendUnder 1 { aliases := ["gold"], hook := some "gold" })).perform
    (.appendUnder 0 { aliases := ["visit"] })

/-- The vault emptied. -/
def emptyVault : Forest :=
  ((({} : Forest).perform (.appendRoot { aliases := ["home"] })).perform
    (.appendUnder 0 { aliases := ["vault"], permission := some "vault" })).perform
    (.appendUnder 0 { aliases := ["visit"] })

theorem reachable_vault : vault.Reachable := .after _ (.after _ (.after _ (.after _ .empty)))

theorem reachable_emptyVault : emptyVault.Reachable := .after _ (.after _ (.after _ .empty))

/-- What stands behind the vault moves up by one when it is emptied. -/
theorem vault_variesBehind :
    vault.VariesBehind emptyVault (fun n : Nat => if n = 3 then 2 else n) 1 := by
  refine ⟨rfl, ⟨_, _, rfl, rfl, rfl, rfl, rfl⟩, ?_⟩
  intro id c hid hc
  match id with
  | 0 =>
      cases hc
      exact ⟨_, rfl, none, rfl⟩
  | 1 => exact absurd (.refl vault 1) hid
  | 2 => exact absurd (.child rfl List.mem_cons_self) hid
  | 3 =>
      cases hc
      exact ⟨_, rfl, none, rfl⟩
  | n + 4 => contradiction

/-- Without the permission, the way past the vault leads to the same place. -/
theorem execute_behind_refusal_vault :
    vault.Reachable ∧ emptyVault.Reachable ∧
    vault.VariesBehind emptyVault (fun n : Nat => if n = 3 then 2 else n) 1 ∧
    (emptyVault.execute 0 (.ofGrants .player []) ["visit"]).actions = [.helped 2] ∧
    (emptyVault.complete 0 (.ofGrants .player []) ["vault", "g"]).1 = none := by
  have hrefuses : ∀ c, vault.find? 1 = some c → ¬ c.Admits (.ofGrants .player []) := by
    intro c hc hadmits
    cases hc
    exact absurd (hadmits.1 "vault" rfl) (by decide)
  have houtside : ¬ vault.Below 1 0 := fun h =>
    absurd (h.le reachable_vault.wellFormed) (by decide)
  have hknown : vault.find? 0 = none → emptyVault.find? 0 = none := fun h => nomatch h
  obtain ⟨-, hvisit, -, -⟩ := execute_behind_refusal reachable_vault reachable_emptyVault
    vault_variesBehind hrefuses (.inr houtside) hknown ["visit"]
  obtain ⟨-, -, -, hvault⟩ := execute_behind_refusal reachable_vault reachable_emptyVault
    vault_variesBehind hrefuses (.inr houtside) hknown ["vault", "g"]
  exact ⟨reachable_vault, reachable_emptyVault, vault_variesBehind, hvisit.trans rfl,
    hvault.trans rfl⟩

end Forest

end CommandForest
