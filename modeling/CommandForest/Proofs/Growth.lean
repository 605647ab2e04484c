import CommandForest.Proofs.Forgetting
import CommandForest.Proofs.WordsLeft

/-!
# CommandForest.Proofs.Growth

New commands stand behind the old ones, so they get only the lines that nobody
took before.

* A forest may widen: some commands get more children behind those they have
  (`Forest.Widens`), and its branches get more branches in the same places
  (`Branch.graft`).
* A walk takes the same turns as before, down to a command that has got more
  children and would have shown its help for the words that are left
  (`Branch.dispatch_graft`).  Such a command has to be named: an anonymous one
  would have left the words to those behind it, and they would lose them.
* Help gets more lines, between those it has (`Branch.sublist_helpLinesFrom_graft`).

New roots widen no command, so nothing changes for the old ones
(`execute_after_growth`).
-/

namespace CommandForest

/-- The command with more children behind those it has. -/
def Command.withMore (c : Command) (ids : List CommandId) : Command :=
  { c with children := c.children ++ ids }

@[simp] theorem Command.withMore_nil (c : Command) : c.withMore [] = c := by
  rw [withMore, List.append_nil]

namespace Branch

variable (more : CommandId → List CommandId) (late : CommandId → List Branch)

mutual

/-- The branch with more branches behind those it has, wherever its commands
have more children. -/
def graft : Branch → Branch
  | mk id c bs => mk id (c.withMore (more id)) (graftAll bs ++ late id)

/-- Several branches with more branches in them. -/
def graftAll : List Branch → List Branch
  | [] => []
  | b :: bs => b.graft :: graftAll bs

end

@[simp] theorem id_graft (b : Branch) : (b.graft more late).id = b.id := by
  cases b
  rfl

theorem share_graft (b : Branch) (first : String) (rest : List String) :
    (b.graft more late).command.share first rest = b.command.share first rest := by
  cases b
  rfl

theorem graftAll_eq_map (bs : List Branch) : graftAll more late bs = bs.map (graft more late) := by
  induction bs with
  | nil => rfl
  | cons b bs ih => rw [graftAll, ih, List.map_cons]

mutual

/-- Without more children, a branch is the same. -/
theorem graft_nil : (b : Branch) → b.graft (fun _ => []) (fun _ => []) = b
  | mk id c bs => by
      rw [graft, graftAll_nil, Command.withMore_nil, List.append_nil]

theorem graftAll_nil : (bs : List Branch) → graftAll (fun _ => []) (fun _ => []) bs = bs
  | [] => rfl
  | b :: bs => by
      rw [graftAll, graft_nil, graftAll_nil]

end

/-! ## Help -/

theorem helpLinesOfAll_append (m : Messages) (sender : Sender) (path : String)
    (bs bs' : List Branch) :
    helpLinesOfAll m sender path (bs ++ bs') =
      helpLinesOfAll m sender path bs ++ helpLinesOfAll m sender path bs' := by
  induction bs with
  | nil => rfl
  | cons b bs ih =>
      rw [List.cons_append, helpLinesOfAll, helpLinesOfAll, ih, List.append_assoc]

mutual

theorem sublist_helpLinesFrom_graft (m : Messages) (sender : Sender) (path : String)
    (top : Bool) : (b : Branch) →
    (b.helpLinesFrom m sender path top).Sublist
      ((b.graft more late).helpLinesFrom m sender path top)
  | mk id c bs => by
      have hown : (c.withMore (more id)).helpLine? m sender id path top =
          c.helpLine? m sender id path top := rfl
      have hhides : (c.withMore (more id)).hidesSubcommands = c.hidesSubcommands := rfl
      have hpath : (c.withMore (more id)).extendPath path = c.extendPath path := rfl
      rw [graft, helpLinesFrom, helpLinesFrom, hown, hhides, hpath, helpLinesOfAll_append]
      split
      · exact List.Sublist.refl _
      · refine List.Sublist.append (List.Sublist.refl _) ?_
        exact (sublist_helpLinesOfAll_graftAll m sender _ bs).trans (List.sublist_append_left _ _)

theorem sublist_helpLinesOfAll_graftAll (m : Messages) (sender : Sender) (path : String) :
    (bs : List Branch) → (helpLinesOfAll m sender path bs).Sublist
      (helpLinesOfAll m sender path (graftAll more late bs))
  | [] => List.Sublist.refl _
  | b :: bs => by
      rw [graftAll, helpLinesOfAll, helpLinesOfAll]
      exact (sublist_helpLinesFrom_graft m sender path false b).append
        (sublist_helpLinesOfAll_graftAll m sender path bs)

end

end Branch

namespace Forest

/-! ## Forests that widen -/

/-- The second forest has all the commands of the first, each with more
children behind those it has. -/
structure Widens (f g : Forest) (more : CommandId → List CommandId) : Prop where
  messages : g.messages = f.messages
  find? : ∀ id c, f.find? id = some c → g.find? id = some (c.withMore (more id))

/-- The branches of the additional children. -/
def lateIn (g : Forest) (more : CommandId → List CommandId) (id : CommandId) : List Branch :=
  (more id).filterMap g.branch?

theorem widens_insert_root (f : Forest) (c : Command) :
    f.Widens (f.insert c none) fun _ => [] where
  messages := f.messages_insert c none
  find? id d hd := by
    rw [find?_insert f c (by simp), if_neg (Nat.ne_of_lt (lt_size_of_find? hd)), hd]
    simp

/-- A known parent is one of the numbers so far. -/
theorem lt_size_of_has {f : Forest} {p : CommandId} (hp : f.has p = true) (q : Nat)
    (hq : some p = some q) : q < f.size := by
  cases hq
  obtain ⟨c, hc⟩ := has_iff.mp hp
  exact lt_size_of_find? hc

theorem widens_insert_under {f : Forest} (c : Command) {p : CommandId} (hp : f.has p = true) :
    f.Widens (f.insert c (some p)) fun id => if id = p then [f.size] else [] where
  messages := f.messages_insert c (some p)
  find? id d hd := by
    rw [find?_insert f c (lt_size_of_has hp), if_neg (Nat.ne_of_lt (lt_size_of_find? hd)), hd,
      Option.map_some]
    by_cases hid : id = p
    · rw [if_pos hid, if_pos (congrArg some hid.symm)]
      rfl
    · rw [if_neg hid, if_neg fun heq => hid (Option.some.inj heq).symm, Command.withMore_nil]

theorem widens_of_load {f g : Forest} {source : String} {ids : List CommandId}
    {report : Option Diagnostic} (h : f.load source = .ok (ids, g, report)) :
    f.Widens g fun _ => [] := by
  rw [load] at h
  cases hread : Definition.read source with
  | error e => rw [hread] at h; contradiction
  | ok d =>
      rw [hread] at h
      cases h
      rw [plantRoots_eq]
      refine ⟨by rw [plantAll_eq f none (by simp)]; rfl, fun id c hc => ?_⟩
      rw [find?_plantAll_of_lt f d.commands (lt_size_of_find? hc), hc, Command.withMore_nil]

section

variable {f g : Forest} {more : CommandId → List CommandId} (h : f.Widens g more)
  (hf : f.WellFormed)

include h hf

/-- **Branches widen** where their commands do. -/
theorem Widens.branch? (hg : g.WellFormed) {id : CommandId} {c : Command}
    (hc : f.find? id = some c) :
    g.branch? id = (f.branch? id).map (Branch.graft more (g.lateIn more)) := by
  induction hn : f.size - id using Nat.strongRecOn generalizing id c with
  | ind n ih =>
      -- children are younger, so there are fewer commands from them on
      have hchild : ∀ k ∈ c.children,
          g.branch? k = (f.branch? k).map (Branch.graft more (g.lateIn more)) := by
        intro k hk
        obtain ⟨d, hd⟩ := hf.exists_find?_of_mem_children hc hk
        refine ih (f.size - k) ?_ hd rfl
        rw [← hn]
        exact Nat.sub_lt_sub_left (lt_size_of_find? hc) (hf.lt_of_mem_children hc hk)
      have hchildren : c.children.filterMap g.branch? =
          Branch.graftAll more (g.lateIn more) (c.children.filterMap f.branch?) := by
        rw [Branch.graftAll_eq_map, List.map_filterMap]
        exact List.filterMap_congr hchild
      rw [hg.branch?_eq, hf.branch?_eq, h.find? id c hc, hc, Option.map_some, Option.map_some,
        Option.map_some, Branch.graft, ← hchildren, lateIn, ← List.filterMap_append]
      rfl

theorem Widens.holds_graft (hg : g.WellFormed) {b : Branch} (hb : f.Holds b) :
    g.Holds (b.graft more (g.lateIn more)) := by
  rw [Holds, Branch.id_graft, h.branch? hf hg (hb.find?_id hf),
    show f.branch? b.id = some b from hb, Option.map_some]

/-- Climbing does not look at children. -/
theorem Widens.shownName {id : CommandId} {c : Command} (hc : f.find? id = some c) :
    g.shownName id = f.shownName id := by
  have hclimb : ∀ (fuel fuel' id : Nat) (c : Command), f.find? id = some c → id < fuel →
      id < fuel' → g.shownNameFrom fuel' id = f.shownNameFrom fuel id := by
    intro fuel
    induction fuel with
    | zero => intro _ id _ _ hlt; exact absurd hlt (Nat.not_lt_zero id)
    | succ fuel ih =>
        intro fuel' id c hc hlt hlt'
        obtain ⟨fuel', rfl⟩ : ∃ k, fuel' = k + 1 := ⟨fuel' - 1, by omega⟩
        have hparent : (c.withMore (more id)).parent = c.parent := rfl
        have hanonymous : (c.withMore (more id)).isAnonymous = c.isAnonymous := rfl
        have hname : (c.withMore (more id)).name = c.name := rfl
        rw [shownNameFrom, shownNameFrom, h.find? id c hc, hc]
        dsimp only
        rw [hparent, hanonymous, hname]
        cases hp : c.parent with
        | none => rfl
        | some p =>
            have hlow := hf.parent_lt id p c hc hp
            obtain ⟨d, hd⟩ := exists_find?_of_lt (Nat.lt_trans hlow (lt_size_of_find? hc))
            dsimp only
            rw [ih fuel' p d hd (by omega) (by omega)]
  exact hclimb f.size g.size id c hc (lt_size_of_find? hc) (lt_size_of_find? (h.find? id c hc))

end

end Forest

/-! ## The walk -/

/-- Two routes that come to the same. -/
def Route.SameEnd (r r' : Route) : Prop :=
  r'.handled = r.handled ∧ actionsOf r'.log = actionsOf r.log

namespace Branch

/-- Branches further back are not tried once the words are handled. -/
theorem dispatchAmong_append_of_handled {f : Forest} {sender : Sender} {xs : List Branch}
    (ys : List Branch) {first : String} {rest : List String}
    (h : (dispatchAmong f sender xs first rest).handled = true) :
    dispatchAmong f sender (xs ++ ys) first rest = dispatchAmong f sender xs first rest := by
  induction xs with
  | nil => rw [dispatchAmong] at h; contradiction
  | cons x xs ih =>
      rw [dispatchAmong_cons] at h
      rw [List.cons_append, dispatchAmong_cons, dispatchAmong_cons]
      split
      · rfl
      · next hx =>
        rw [if_neg hx] at h
        rw [ih h]

section

variable {f g : Forest} {more : CommandId → List CommandId} {sender : Sender}

/-- Where nobody below handles the words, neither before nor after, a command
comes to the same. -/
theorem sameEnd_of_not_below {id : CommandId} {c c' : Command} {bs bs' : List Branch}
    {first : String} {rest : List String} (hdenial : c.denial sender = none)
    (hdenial' : c'.denial sender = none)
    (hattempt : c'.attempt sender id (first :: rest) = c.attempt sender id (first :: rest))
    (hanonymous : c'.isAnonymous = c.isAnonymous)
    (htried : (c.attempt sender id (first :: rest)).handled = false)
    (hundone : (dispatchAmong f sender bs first rest).handled = false)
    (hbelow : (dispatchAmong f sender bs first rest).SameEnd
      (dispatchAmong g sender bs' first rest))
    (hhelp : actionsOf (g.helpEvents (mk id c' bs') sender) =
      actionsOf (f.helpEvents (mk id c bs) sender)) :
    ((mk id c bs).dispatch f sender (first :: rest)).SameEnd
      ((mk id c' bs').dispatch g sender (first :: rest)) := by
  obtain ⟨hhandled, hactions⟩ := hbelow
  rw [dispatch_of_not_below hdenial htried hundone,
    dispatch_of_not_below hdenial' (hattempt ▸ htried) (hhandled.trans hundone), hattempt,
    hanonymous]
  refine ⟨rfl, ?_⟩
  simp only [actionsOf_append, hactions]
  cases c.isAnonymous with
  | true => simp only [if_true]
  | false => simp only [Bool.false_eq_true, if_false, hhelp]

mutual

/-- **Newcomers come last**: the walk comes to the same, unless it gets with
words to a command with more children and ends with its help. -/
theorem dispatch_graft (h : f.Widens g more) (hf : f.WellFormed) (hg : g.WellFormed)
    (hnamed : ∀ n c, more n ≠ [] → f.find? n = some c → c.isAnonymous = false) :
    (b : Branch) → f.Holds b → (tokens : List String) →
    (∀ p left, more p ≠ [] → actionsOf (b.dispatch f sender tokens).log = [.helped p] →
      f.HandsDown b.id tokens p left → left = []) →
    (b.dispatch f sender tokens).SameEnd
      ((b.graft more (g.lateIn more)).dispatch g sender tokens)
  | mk id c bs, hb, tokens, hsafe => by
      have hc := (hb.find? hf).1
      have hhelp := Forest.actionsOf_helpEvents hf hb sender
      have hhelp' := Forest.actionsOf_helpEvents hg (h.holds_graft hf hg hb) sender
      rw [graft] at hhelp' ⊢
      cases hdenial : c.denial sender with
      | some denial =>
          have hdenial' : (c.withMore (more id)).denial sender = some denial := hdenial
          rw [dispatch, dispatch, hdenial, hdenial']
          exact ⟨rfl, rfl⟩
      | none =>
          have hdenial' : (c.withMore (more id)).denial sender = none := hdenial
          have htried' : (c.withMore (more id)).attempt sender id tokens =
              c.attempt sender id tokens := rfl
          rcases Forest.attempt_concludes hc (Command.denial_eq_none_iff.mp hdenial) tokens with
            ⟨htried, -⟩ | ⟨htried, hsilent⟩
          · rw [dispatch_of_attempt hdenial htried,
              dispatch_of_attempt hdenial' (htried' ▸ htried), htried']
            exact ⟨rfl, rfl⟩
          rw [← htried'] at htried
          cases tokens with
          | nil =>
              rw [dispatch_nil hdenial htried, dispatch_nil hdenial' htried, htried']
              exact ⟨rfl, by rw [actionsOf_append, actionsOf_append, hhelp, hhelp']; rfl⟩
          | cons first rest =>
              have hholds := fun b hmem => (hb.of_mem hf (b := b) hmem).1
              rcases dispatchAmong_concludes hf sender bs hholds first rest with
                ⟨hdone, -⟩ | ⟨hundone, hnothing⟩
              · -- a child handles the words, and the newcomers are not asked
                rw [dispatch_of_below hdenial htried hdone] at hsafe ⊢
                obtain ⟨hbelow, hactions⟩ :=
                  dispatchAmong_graftAll h hf hg hnamed bs hholds first rest
                    fun p left hp hends b hmem words hshare hway => hsafe p left hp
                      (by rw [actionsOf_append, hsilent, hends, List.nil_append])
                      (hb.handsDown hf hmem hshare hway)
                have hmore := dispatchAmong_append_of_handled (g.lateIn more id)
                  (hbelow.trans hdone)
                rw [dispatch_of_below hdenial' htried (hmore ▸ hbelow.trans hdone), hmore, htried']
                exact ⟨rfl, by rw [actionsOf_append, actionsOf_append, hactions]⟩
              · by_cases hmore : more id = []
                · have hlate : graftAll more (g.lateIn more) bs ++ g.lateIn more id =
                      graftAll more (g.lateIn more) bs := by
                    rw [Forest.lateIn, hmore, List.filterMap_nil, List.append_nil]
                  have hbelow := dispatchAmong_graftAll h hf hg hnamed bs hholds first rest
                    fun p left _ hends => absurd (hnothing.symm.trans hends) (by simp)
                  rw [hlate] at hhelp' ⊢
                  exact sameEnd_of_not_below hdenial hdenial' htried' rfl htried hundone hbelow
                    (hhelp'.trans hhelp.symm)
                · -- a named command with newcomers would show its help for these words
                  have hname := hnamed id c hmore hc
                  refine absurd (hsafe id (first :: rest) hmore ?_ (.here id _)) (by simp)
                  rw [dispatch_of_not_below hdenial htried hundone, hname,
                    if_neg Bool.false_ne_true, actionsOf_append, actionsOf_append, hsilent,
                    hnothing, hhelp]
                  rfl

theorem dispatchAmong_graftAll (h : f.Widens g more) (hf : f.WellFormed) (hg : g.WellFormed)
    (hnamed : ∀ n c, more n ≠ [] → f.find? n = some c → c.isAnonymous = false) :
    (bs : List Branch) → (∀ b ∈ bs, f.Holds b) → (first : String) → (rest : List String) →
    (∀ p left, more p ≠ [] → actionsOf (dispatchAmong f sender bs first rest).log = [.helped p] →
      ∀ b ∈ bs, ∀ words, b.command.share first rest = some words →
        f.HandsDown b.id words p left → left = []) →
    (dispatchAmong f sender bs first rest).SameEnd
      (dispatchAmong g sender (graftAll more (g.lateIn more) bs) first rest)
  | [], _, _, _, _ => by rw [graftAll]; exact ⟨rfl, rfl⟩
  | b :: bs, hbs, first, rest, hsafe => by
      obtain ⟨hb, hlater⟩ := List.forall_mem_cons.mp hbs
      rw [dispatchAmong_cons] at hsafe
      have hhere : (b.offered f sender first rest).SameEnd
          ((b.graft more (g.lateIn more)).offered g sender first rest) := by
        rw [offered_eq, offered_eq, share_graft]
        cases hshare : b.command.share first rest with
        | none => exact ⟨rfl, rfl⟩
        | some words =>
            refine dispatch_graft h hf hg hnamed b hb words fun p left hp hends hway => ?_
            have hoffered : b.offered f sender first rest = b.dispatch f sender words := by
              rw [offered_eq, hshare]
              rfl
            rcases dispatch_concludes hf sender b hb words with ⟨hdone, -⟩ | ⟨-, hnothing, -⟩
            · rw [hoffered, if_pos hdone] at hsafe
              exact hsafe p left hp hends b List.mem_cons_self words hshare hway
            · rw [hnothing] at hends
              contradiction
      rw [graftAll, dispatchAmong_cons, dispatchAmong_cons, hhere.1]
      cases hdone : (b.offered f sender first rest).handled with
      | true => exact ⟨hhere.1, hhere.2⟩
      | false =>
          have hsilent := actionsOf_offered hf hb hdone
          rw [hdone, if_neg Bool.false_ne_true] at hsafe
          obtain ⟨hhandled, hactions⟩ := dispatchAmong_graftAll h hf hg hnamed bs hlater first rest
            fun p left hp hends b' hmem =>
              hsafe p left hp (by rw [actionsOf_append, hsilent, hends, List.nil_append]) b'
                (List.mem_cons_of_mem b hmem)
          refine ⟨hhandled, ?_⟩
          simp only [Bool.false_eq_true, if_false, actionsOf_append, hhere.2, hactions]

end

end

end Branch

/-! ## Answers -/

/-- Two answers to a line that come to the same, where a help text may have
gained lines. -/
structure Outcome.SameButHelp (o o' : Outcome) : Prop where
  handled : o.handled = o'.handled
  actions : o.actions = o'.actions
  messages : (∀ n, o.actions ≠ [.helped n]) → o.messages = o'.messages
  help : ∀ n, o.actions = [.helped n] → ∃ name lines lines', lines.Sublist lines' ∧
    o.messages = [helpText o.forest.messages name lines] ∧
    o'.messages = [helpText o.forest.messages name lines']

/-- Only a help text depends on more than the messages of a forest. -/
theorem Action.sent_eq {f g : Forest} (hmessages : g.messages = f.messages) (sender : Sender)
    {a : Action} (ha : ∀ n, a ≠ .helped n) : a.sent g sender = a.sent f sender := by
  cases a with
  | denied | answered | mismatched => simp only [sent, hmessages]
  | helped n => exact absurd rfl (ha n)

namespace Forest

/-- The texts of a forest stay as they are when words are run. -/
theorem messages_forest_execute (f : Forest) (id : CommandId) (sender : Sender)
    (tokens : List String) : (f.execute id sender tokens).forest.messages = f.messages := by
  rw [execute]
  split
  · rfl
  · exact f.messages_settle _

/-- The help of a command, put together from its lines. -/
theorem help_eq_helpText {f : Forest} {b : Branch} (hb : f.Holds b) {name : String}
    (hname : f.shownName b.id = some name) (sender : Sender) :
    (f.help b.id sender).1 = some (helpText f.messages name (b.helpLines f.messages sender)) := by
  have hlines : ∀ lines : List HelpLine, (lines.map fun l => Event.settled l.id l.shown).flatMap
      (Event.messages f.messages) = [] := by
    intro lines
    rw [List.flatMap_eq_nil_iff]
    intro e he
    obtain ⟨l, -, rfl⟩ := List.mem_map.mp he
    rfl
  rw [help, show f.branch? b.id = some b from hb]
  dsimp only
  rw [helpEvents, hname]
  dsimp only
  rw [Event.ofHelp, List.flatMap_append, hlines]
  rfl

section

variable {f g : Forest} {more : CommandId → List CommandId} (h : f.Widens g more)
  (hf : f.WellFormed) (hg : g.WellFormed)

include h hf hg

/-- Help has the same header, and more lines between those it has. -/
theorem Widens.exists_help {n : CommandId} {c : Command} (hc : f.find? n = some c)
    (sender : Sender) : ∃ name lines lines', lines.Sublist lines' ∧
      (f.help n sender).1 = some (helpText f.messages name lines) ∧
      (g.help n sender).1 = some (helpText f.messages name lines') := by
  obtain ⟨bs, -, hb⟩ := hf.exists_branch hc
  obtain ⟨name, hname⟩ := hf.exists_shownName hc
  have hb' := h.holds_graft hf hg hb
  have hname' : g.shownName n = some name := (h.shownName hf hc).trans hname
  refine ⟨name, _, ((Branch.mk n c bs).graft more (g.lateIn more)).helpLines f.messages sender,
    Branch.sublist_helpLinesFrom_graft more _ f.messages sender "" true _,
    help_eq_helpText hb hname sender, ?_⟩
  rw [← h.messages]
  exact help_eq_helpText hb' hname' sender

theorem Widens.sameButHelp
    (hnamed : ∀ n c, more n ≠ [] → f.find? n = some c → c.isAnonymous = false) {id : CommandId}
    {c : Command} (hc : f.find? id = some c) {sender : Sender} {tokens : List String}
    (hsafe : ∀ p left, more p ≠ [] → (f.execute id sender tokens).actions = [.helped p] →
      f.HandsDown id tokens p left → left = []) :
    (f.execute id sender tokens).SameButHelp (g.execute id sender tokens) := by
  obtain ⟨bs, -, hb⟩ := hf.exists_branch hc
  obtain ⟨hhandled, hactions⟩ := execute_eq_dispatch hb sender tokens
  obtain ⟨hhandled', hactions'⟩ := execute_eq_dispatch (h.holds_graft hf hg hb) sender tokens
  rw [Branch.id_graft] at hhandled' hactions'
  obtain ⟨hsame, hends⟩ := Branch.dispatch_graft h hf hg hnamed _ hb tokens
    fun p left hp hhelps => hsafe p left hp (hactions.trans hhelps)
  have hall : (f.execute id sender tokens).actions = (g.execute id sender tokens).actions :=
    hactions.trans (hends.symm.trans hactions'.symm)
  refine ⟨hhandled.trans (hsame.symm.trans hhandled'.symm), hall, fun hnohelp => ?_,
    fun n hhelps => ?_⟩
  · rw [messages_execute_eq_sent hf, messages_execute_eq_sent hg, ← hall]
    refine List.flatMap_congr fun a ha => (Action.sent_eq h.messages sender ?_).symm
    rintro n rfl
    rcases execute_concludes hf id sender tokens with ⟨-, b, _, hb, -⟩ | ⟨-, hnone, -⟩
    · rw [show (f.execute id sender tokens).actions = [b] from hb] at ha hnohelp
      exact hnohelp n (by rw [List.mem_singleton.mp ha])
    · rw [hnone] at ha
      contradiction
  · obtain ⟨⟨d, _, hd, -⟩, -⟩ := performs_of_actions_execute hf hhelps
    obtain ⟨name, lines, lines', hlines, hhelp, hhelp'⟩ := h.exists_help hf hg hd sender
    have hmessages := f.messages_forest_execute id sender tokens
    refine ⟨name, lines, lines', hlines, ?_, ?_⟩
    · rw [messages_execute_eq_sent hf, hhelps, List.flatMap_singleton, Action.sent, hhelp,
        hmessages]
      rfl
    · rw [messages_execute_eq_sent hg, ← hall, hhelps, List.flatMap_singleton, Action.sent, hhelp',
        hmessages]
      rfl

end

/-- Commands that get no more children help as before. -/
theorem Widens.sameEnd {f g : Forest} (h : f.Widens g fun _ => []) (hf : f.WellFormed)
    (hg : g.WellFormed) {id : CommandId} {c : Command} (hc : f.find? id = some c)
    (sender : Sender) (tokens : List String) :
    (f.execute id sender tokens).SameEnd (g.execute id sender tokens) := by
  have hsame : (f.execute id sender tokens).SameButHelp (g.execute id sender tokens) :=
    h.sameButHelp hf hg (fun _ _ hmore => absurd rfl hmore) hc fun _ _ hmore => absurd rfl hmore
  have hbranch : ∀ {n : CommandId} {d : Command}, f.find? n = some d →
      g.branch? n = f.branch? n := by
    intro n d hd
    have hlate : g.lateIn (fun _ => []) = fun _ => [] := rfl
    rw [h.branch? hf hg hd, hlate]
    cases f.branch? n with
    | none => rfl
    | some b => rw [Option.map_some, Branch.graft_nil]
  refine ⟨hsame.handled, hsame.actions, ?_⟩
  by_cases hhelps : ∃ n, (f.execute id sender tokens).actions = [.helped n]
  · obtain ⟨n, hn⟩ := hhelps
    obtain ⟨⟨d, _, hd, -⟩, -⟩ := performs_of_actions_execute hf hn
    obtain ⟨bs, hbs, hb⟩ := hf.exists_branch hd
    obtain ⟨name, hname⟩ := hf.exists_shownName hd
    have hb' : g.Holds (.mk n d bs) := (hbranch hd).trans hbs
    have hhelp := help_eq_helpText hb hname sender
    have hhelp' := help_eq_helpText hb' ((h.shownName hf hd).trans hname) sender
    rw [h.messages] at hhelp'
    rw [messages_execute_eq_sent hf, messages_execute_eq_sent hg, ← hsame.actions, hn,
      List.flatMap_singleton, List.flatMap_singleton, Action.sent, Action.sent]
    exact congrArg Option.toList (hhelp.trans hhelp'.symm)
  · exact hsame.messages (not_exists.mp hhelps)

/-- **Newcomers take no lines from others**: when a named command gets a new
child, a line ends as it did before, unless it ended with the help of that
command for words that were left; at most a help text gains lines.  When new
roots are added, every line that starts at an old command ends as before, help
texts included. -/
theorem execute_after_growth {f : Forest} (hf : f.Reachable) (sender : Sender)
    (tokens : List String) :
    (∀ p c newcomer, f.find? p = some c → c.isAnonymous = false →
      ∃ g, f.appendUnder p newcomer = .ok (f.size, g) ∧
        ∀ id d, f.find? id = some d → ¬ f.HelpsWithWords id sender tokens p →
          (f.execute id sender tokens).SameButHelp (g.execute id sender tokens)) ∧
    (∀ newcomer id d, f.find? id = some d →
      (f.execute id sender tokens).SameEnd ((f.appendRoot newcomer).2.execute id sender tokens)) ∧
    (∀ source ids g report, f.load source = .ok (ids, g, report) → ∀ id d, f.find? id = some d →
      (f.execute id sender tokens).SameEnd (g.execute id sender tokens)) := by
  have hwf := hf.wellFormed
  refine ⟨fun p c newcomer hp hnamed => ?_, fun newcomer id d hd => ?_,
    fun source ids g report hload id d hd => ?_⟩
  · have hhas : f.has p = true := has_iff.mpr ⟨c, hp⟩
    refine ⟨f.insert newcomer (some p), by rw [appendUnder, if_pos hhas], fun id d hd hsafe => ?_⟩
    have honly : ∀ n, (if n = p then [f.size] else []) ≠ [] → n = p := by
      intro n hmore
      by_contra hne
      exact hmore (if_neg hne)
    refine (widens_insert_under newcomer hhas).sameButHelp hwf
      (hwf.insert newcomer (lt_size_of_has hhas)) (fun n e hmore he => ?_) hd
      fun n left hmore hhelps hway => ?_
    · obtain rfl := honly n hmore
      cases hp.symm.trans he
      exact hnamed
    · obtain rfl := honly n hmore
      by_contra hne
      exact hsafe ((hway.helpsWithWords_iff hwf hhelps).mpr hne)
  · have hgrown : (f.insert newcomer none).WellFormed := hwf.insert newcomer (by simp)
    exact (f.widens_insert_root newcomer).sameEnd hwf hgrown hd sender tokens
  · exact (widens_of_load hload).sameEnd hwf (hwf.of_load hload) hd sender tokens

/-- A shop with one command. -/
def kiosk : Forest :=
  ({} : Forest).run [.appendRoot { aliases := ["shop"] }, .appendUnder 0 { aliases := ["buy"] }]

theorem reachable_kiosk : kiosk.Reachable := Reachable.empty.run _

/-- A second `buy` does not take the line from the first, and neither does a
second `shop` or a definition of one. -/
theorem execute_after_growth_kiosk :
    ∃ g, kiosk.appendUnder 0 { aliases := ["buy"] } = .ok (2, g) ∧
      (g.execute 0 (.ofGrants .player []) ["buy"]).actions = [.helped 1] ∧
      ((kiosk.appendRoot { aliases := ["shop"] }).2.execute 0 (.ofGrants .player [])
        ["buy"]).actions = [.helped 1] ∧
      ∃ h report, kiosk.load "shop \x7b\n\x7d" = .ok ([2], h, report) ∧
        (h.execute 0 (.ofGrants .player []) ["buy"]).actions = [.helped 1] := by
  have hbuy : (kiosk.execute 0 (.ofGrants .player []) ["buy"]).actions = [.helped 1] := by rfl
  obtain ⟨hunder, hroot, hload⟩ :=
    execute_after_growth reachable_kiosk (.ofGrants .player []) ["buy"]
  obtain ⟨g, hg, hsame⟩ := hunder 0 _ { aliases := ["buy"] } rfl (by decide)
  have hother : ¬ kiosk.HelpsWithWords 0 (.ofGrants .player []) ["buy"] 0 := by
    rintro ⟨hhelps, -⟩
    rw [hbuy] at hhelps
    simp at hhelps
  obtain ⟨h, report, hread⟩ : ∃ h report, kiosk.load "shop \x7b\n\x7d" = .ok ([2], h, report) :=
    ⟨_, _, rfl⟩
  exact ⟨g, hg, (hsame 0 _ rfl hother).actions.symm.trans hbuy,
    (hroot _ 0 _ rfl).actions.symm.trans hbuy, h, report, hread,
    (hload _ [2] h report hread 0 _ rfl).actions.symm.trans hbuy⟩

end Forest

end CommandForest
