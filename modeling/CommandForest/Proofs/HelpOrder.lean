import CommandForest.Proofs.Listing

/-!
# CommandForest.Proofs.HelpOrder

The lines of help, one by one.  `Forest.listed?` says of a single command
whether the help of another lists it, and in which words, from the commands
above it alone:

* `Forest.above` climbs from a command to the one whose help is shown, and
  finds the trail between the two (`Trail.above_eq`);
* `wayTo` spells the trail out in the aliases of its commands;
* the line itself is the usage of the command behind that, and its help text.

Help recurses over the branch and hands down the way as text.  It comes to the
same: its lines are those that `listed?` finds for the commands of the subtree,
depth first in the order of the children (`WellFormed.texts_helpLines`).
-/

namespace CommandForest

/-! ## What a line says -/

/-- The aliases of the named commands on the way down, as help writes them. -/
def wayTo (above : List Command) : String :=
  String.join ((above.filter fun c => !c.isAnonymous).map fun c => Text.joined "|" c.aliases ++ " ")

/-- Help extends the way by the command it passes. -/
theorem extendPath_wayTo (c : Command) (above : List Command) :
    c.extendPath (wayTo above) = wayTo (above ++ [c]) := by
  cases h : c.isAnonymous <;> simp [Command.extendPath, wayTo, h, String.append_assoc]

theorem Parameter.display_ne_empty (p : Parameter) (scope : Providers) : p.display scope ≠ "" := by
  rw [display]
  split
  · simp
  · split <;> simp

namespace Command

/-- The name of a command, if it has one, and its parameters, with spaces
between them. -/
def shownUsage (c : Command) : String :=
  Text.joined " "
    ((if c.isAnonymous then [] else [c.name]) ++ c.parameters.map fun p => p.display c.providers)

/-- A command refuses whom its permission or its audience does not admit. -/
theorem isSome_denial (c : Command) (sender : Sender) :
    (c.denial sender).isSome =
      !(c.permission.all sender.holds && c.audience.admits sender.kind) := by
  have hadmits : c.Admits sender ↔
      (c.permission.all sender.holds && c.audience.admits sender.kind) = true := by
    cases hp : c.permission <;> simp [Admits, hp]
  cases hgate : c.permission.all sender.holds && c.audience.admits sender.kind with
  | true => simp [denial_eq_none_iff.mpr (hadmits.mpr hgate)]
  | false =>
      have hrefused : c.denial sender ≠ none := fun h => by
        simp [hadmits.mp (denial_eq_none_iff.mp h)] at hgate
      simp [Option.isSome_iff_ne_none, hrefused]

/-- Help writes the usage behind the path. -/
theorem usage_eq (c : Command) (path : String) : c.usage path = path ++ c.shownUsage := by
  rw [usage, shownUsage, synopsis, parameterList]
  cases c.isAnonymous with
  | true => rfl
  | false =>
      cases c.parameters with
      | nil => simp [Text.joined]
      | cons p ps =>
          have hshown := Text.joined_ne_empty " " (p.display_ne_empty c.providers)
            (ps.map fun p => p.display c.providers)
          simp [Text.joined_cons_cons, hshown]

end Command

/-! ## Who is above -/

namespace Forest

/-- The commands above `n`, from `top` on, found by climbing from parent to
parent; there are no more than `fuel` of them. -/
def aboveFrom (f : Forest) (top : CommandId) : Nat → CommandId → List CommandId
  | 0, _ => []
  | fuel + 1, n =>
    if n = top then []
    else
      match (f.find? n).bind Command.parent with
      | some p => f.aboveFrom top fuel p ++ [p]
      | none => []

/-- The commands above `n`, from `top` on. -/
def above (f : Forest) (top n : CommandId) : List CommandId := f.aboveFrom top f.size n

/-- Climbing finds the trail. -/
theorem Trail.aboveFrom_eq {f : Forest} (hf : f.WellFormed) {top n fuel : Nat}
    {above : List CommandId} (h : f.Trail top above n) (hfuel : n < fuel) :
    f.aboveFrom top fuel n = above := by
  induction fuel generalizing n above with
  | zero => omega
  | succ fuel ih =>
      rw [aboveFrom]
      rcases h.cases_last with ⟨rfl, rfl⟩ | ⟨init, p, c, rfl, hinit, hc, hn⟩
      · rw [if_pos rfl]
      · obtain ⟨d, hd, hparent⟩ := (hf.mem_children p c hc n).mp hn
        have hne : n ≠ top := Nat.ne_of_gt ((h.le hf).2 (by simp))
        have hlt := hf.lt_of_mem_children hc hn
        rw [if_neg hne, hd, Option.bind_some, hparent]
        dsimp only
        rw [ih hinit (by omega)]

/-- **Climbing** from a command of the forest finds the trail to it. -/
theorem Trail.above_eq {f : Forest} (hf : f.WellFormed) {top n : CommandId}
    {above : List CommandId} (h : f.Trail top above n) {c : Command} (hc : f.find? n = some c) :
    f.above top n = above :=
  h.aboveFrom_eq hf (lt_size_of_find? hc)

/-! ## Which lines there are -/

/-- The line about `n` in the help of `top`.  There is none behind a command
strictly between the two that hides its subcommands, nor for `top` itself if
it does, nor for a sender whom `n` does not admit, nor without a help text. -/
def listed? (f : Forest) (sender : Sender) (top n : CommandId) : Option String :=
  match f.find? n with
  | none => none
  | some d =>
    let above := f.above top n
    if (above.tail.filterMap f.find?).any Command.hidesSubcommands then none
    else if n = top ∧ d.hidesSubcommands then none
    else if d.permission.all sender.holds && d.audience.admits sender.kind then
      (d.shownHelp f.messages).map fun help =>
        Text.trimmed (wayTo (above.filterMap f.find?) ++ d.shownUsage) ++ ": " ++ help
    else none

theorem open_nil (f : Forest) : f.Open [] := fun _ hp => absurd hp List.not_mem_nil

theorem open_iff {f : Forest} {ids : List CommandId} :
    f.Open ids ↔ (ids.filterMap f.find?).any Command.hidesSubcommands = false := by
  simp only [Open, List.any_eq_false, List.mem_filterMap, Bool.not_eq_true]
  exact ⟨fun h c ⟨p, hp, hc⟩ => h p hp c hc, fun h p hp c hc => h c ⟨p, hp, hc⟩⟩

section

variable {f : Forest} (hf : f.WellFormed) (sender : Sender) {top : CommandId}

include hf

/-- The line of a single command. -/
theorem Trail.text_helpLine? {n : CommandId} {above : List CommandId} (h : f.Trail top above n)
    {c : Command} (hc : f.find? n = some c) (hopen : f.Open above.tail) :
    (c.helpLine? f.messages sender n (wayTo (above.filterMap f.find?)) (decide (n = top))).map
      HelpLine.text = f.listed? sender top n := by
  rw [listed?, hc]
  dsimp only
  rw [h.above_eq hf hc, open_iff.mp hopen, Command.helpLine?, c.usage_eq, c.isSome_denial]
  cases c.shownHelp f.messages with
  | none => simp
  | some help =>
      by_cases htop : n = top ∧ c.hidesSubcommands = true
      · simp [htop]
      · have hflag : (decide (n = top) && c.hidesSubcommands) = false := by simpa using htop
        rw [hflag, if_neg htop]
        cases c.permission.all sender.holds && c.audience.admits sender.kind <;> simp

/-- Nothing is listed behind a command that hides its subcommands. -/
theorem Trail.listed?_eq_none {n : CommandId} {above : List CommandId} (h : f.Trail top above n)
    (hhidden : ¬ f.Open above.tail) : f.listed? sender top n = none := by
  rw [listed?]
  cases hc : f.find? n with
  | none => rfl
  | some c =>
      dsimp only
      rw [h.above_eq hf hc, if_pos (by simpa [open_iff] using hhidden)]

end

/-- A command of a trail, but the first, is in the way if it hides what is
below it. -/
theorem open_append_cons_iff {f : Forest} {above rest : List CommandId} {id : CommandId}
    {c : Command} (hc : f.find? id = some c) (hne : above ≠ []) :
    f.Open (above ++ id :: rest).tail ↔
      f.Open above.tail ∧ c.hidesSubcommands = false ∧ f.Open rest := by
  simp [open_iff, hc, List.tail_append_of_ne_nil hne]

/-! ## The recursion -/

theorem filterMap_ids {α : Type} (g : CommandId → Option α) (id : CommandId) (c : Command)
    (bs : List Branch) : (Branch.mk id c bs).ids.filterMap g =
      (g id).toList ++ (Branch.idsOfAll bs).filterMap g := by
  rw [Branch.ids, List.filterMap_cons]
  cases g id <;> rfl

mutual

/-- Strictly below the top, help lists a branch command by command. -/
theorem Holds.texts_helpLinesFrom {f : Forest} (hf : f.WellFormed) (sender : Sender)
    {top : CommandId} : (b : Branch) → f.Holds b → (above : List CommandId) →
    f.Trail top above b.id → above ≠ [] → f.Open above.tail →
    (b.helpLinesFrom f.messages sender (wayTo (above.filterMap f.find?)) false).map
      HelpLine.text = b.ids.filterMap (f.listed? sender top)
  | .mk id c bs, hb, above, htrail, hne, hopen => by
      replace htrail : f.Trail top above id := htrail
      have hc := (hb.find? hf).1
      have hchildren : ∀ b ∈ bs, f.Holds b ∧ f.Trail top (above ++ [id]) b.id := by
        intro b hmem
        obtain ⟨hholds, hk⟩ := hb.of_mem hf hmem
        exact ⟨hholds, htrail.append (.down hc hk (.here _))⟩
      have hlt := (htrail.le hf).2 hne
      have hown := htrail.text_helpLine? hf sender hc hopen
      rw [decide_eq_false (Nat.ne_of_gt hlt)] at hown
      rw [Branch.helpLinesFrom, filterMap_ids, ← hown]
      cases hhides : c.hidesSubcommands with
      | true =>
          have hnone : (Branch.idsOfAll bs).filterMap (f.listed? sender top) = [] := by
            refine List.filterMap_eq_nil_iff.mpr fun n hn => ?_
            obtain ⟨b, hmem, hid⟩ := Branch.mem_idsOfAll.mp hn
            obtain ⟨hholds, htrailb⟩ := hchildren b hmem
            obtain ⟨⟨rest, hrest⟩, -⟩ := (hf.mem_ids_iff hholds).mp hid
            refine (htrailb.append hrest).listed?_eq_none hf sender ?_
            rw [List.append_assoc, List.singleton_append, open_append_cons_iff hc hne, hhides]
            simp
          simp [hnone, Option.toList_map]
      | false =>
          have hbs := texts_helpLinesOfAll hf sender bs (above ++ [id]) hchildren (by simp)
            ((open_append_cons_iff hc hne).mpr ⟨hopen, hhides, open_nil f⟩)
          rw [extendPath_wayTo, ← hbs, List.filterMap_append]
          simp [hc, Option.toList_map]

/-- Below a command, help lists one branch after the other. -/
theorem texts_helpLinesOfAll {f : Forest} (hf : f.WellFormed) (sender : Sender)
    {top : CommandId} : (bs : List Branch) → (above : List CommandId) →
    (∀ b ∈ bs, f.Holds b ∧ f.Trail top above b.id) → above ≠ [] → f.Open above.tail →
    (Branch.helpLinesOfAll f.messages sender (wayTo (above.filterMap f.find?)) bs).map
      HelpLine.text = (Branch.idsOfAll bs).filterMap (f.listed? sender top)
  | [], _, _, _, _ => rfl
  | b :: bs, above, hall, hne, hopen => by
      obtain ⟨⟨hb, htrail⟩, hlater⟩ := List.forall_mem_cons.mp hall
      rw [Branch.helpLinesOfAll, Branch.idsOfAll, List.map_append, List.filterMap_append,
        hb.texts_helpLinesFrom hf sender b above htrail hne hopen,
        texts_helpLinesOfAll hf sender bs above hlater hne hopen]

end

/-- The help of a command lists its branch command by command. -/
theorem WellFormed.texts_helpLines {f : Forest} (hf : f.WellFormed) {id : CommandId} {b : Branch}
    (hb : f.branch? id = some b) (sender : Sender) :
    (b.helpLines f.messages sender).map HelpLine.text =
      b.ids.filterMap (f.listed? sender id) := by
  obtain ⟨hholds, rfl⟩ := holds_of_branch? hf hb
  obtain ⟨id, c, bs⟩ := b
  have hc := (hholds.find? hf).1
  have hchildren : ∀ b ∈ bs, f.Holds b ∧ f.Trail id [id] b.id := by
    intro b hmem
    obtain ⟨hholds, hk⟩ := hholds.of_mem hf hmem
    exact ⟨hholds, .down hc hk (.here _)⟩
  have hown := (Trail.here id).text_helpLine? hf sender hc (open_nil f)
  have hbs := texts_helpLinesOfAll hf sender bs [id] hchildren (by simp) (open_nil f)
  have hway : c.extendPath "" = wayTo [c] := extendPath_wayTo c []
  rw [Branch.helpLines, Branch.helpLinesFrom, filterMap_ids, hway, Branch.id, ← hbs, ← hown]
  simp [hc, wayTo, Option.toList_map]

/-! ## The subtree in order -/

/-- **Help in preorder**: help goes through the subtree of its command, each
command before its children, and each once; and it has the line that is listed
for a command, if there is one. -/
theorem helpLines_in_preorder {f : Forest} (hf : f.Reachable) {id : CommandId} {c : Command}
    (hc : f.find? id = some c) (sender : Sender) :
    (f.helpLines id sender).1 = (f.descendants id).filterMap (f.listed? sender id) ∧
    (∀ n d, f.find? n = some d → f.descendants n = n :: d.children.flatMap f.descendants) ∧
    (f.descendants id).Nodup ∧
    (∀ n, n ∈ f.descendants id ↔ f.Below id n) ∧
    (∀ n ∈ f.descendants id, f.Trail id (f.above id n) n) := by
  have hwf := hf.wellFormed
  have hbelow : ∀ n, n ∈ f.descendants id ↔ f.Below id n := by
    intro n
    rw [hwf.mem_descendants_iff]
    exact and_iff_right ⟨c, hc⟩
  refine ⟨?_, fun n d => hwf.descendants_eq_cons, hwf.nodup_descendants id, hbelow, ?_⟩
  · obtain ⟨bs, hb, -⟩ := hwf.exists_branch hc
    rw [helpLines, hb, hwf.descendants_eq hb]
    exact hwf.texts_helpLines hb sender
  · intro n hn
    obtain ⟨d, hd⟩ := hwf.exists_find?_of_mem_descendants hn
    obtain ⟨above, htrail⟩ := (hbelow n).mp hn
    rwa [htrail.above_eq hwf hd]

/-- A root with a command behind a permission, one that hides what is below it,
and an anonymous one. -/
def warps : Forest :=
  ({} : Forest).run [
    .appendRoot { aliases := ["warp", "w"], help := some "Warp commands" },
    .appendUnder 0 { aliases := ["set"], permission := some "warp.set", help := some "Set a warp" },
    .appendUnder 0 { aliases := ["admin"], hidesSubcommands := true },
    .appendUnder 2 { aliases := ["purge"], help := some "Remove every warp" },
    .appendUnder 0
      { aliases := ["_"], help := some "Pick a slot", parameters := [⟨"int", "slot", none⟩] },
    .appendUnder 4 { aliases := ["keep"], help := some "Keep it" }]

/-- From the root, the hidden command is left out; from the one that hides it,
it is all there is. -/
theorem helpLines_in_preorder_warps :
    warps.Reachable ∧
    (warps.helpLines 0 (.ofGrants .player [])).1 = ["warp: Warp commands",
      "warp|w admin: Subcommands hidden", "warp|w <int:slot>: Pick a slot",
      "warp|w keep: Keep it"] ∧
    (warps.helpLines 2 (.ofGrants .player [])).1 = ["admin purge: Remove every warp"] := by
  have hreachable : warps.Reachable := Reachable.empty.run _
  have hroot : warps.find? 0 = some _ := rfl
  have hadmin : warps.find? 2 = some _ := rfl
  refine ⟨hreachable, ?_, ?_⟩
  · rw [(helpLines_in_preorder hreachable hroot _).1]
    rfl
  · rw [(helpLines_in_preorder hreachable hadmin _).1]
    rfl

end Forest

end CommandForest
