import CommandForest.Proofs.ChildOrder

/-!
# CommandForest.Proofs.Descent

Where words lead.  `Forest.Leads` goes down from a command, with each word to
the first child that answers to it.  Dispatch takes that way by the words as
they were typed (`execute_of_leads`).  Completion takes it by the words in
lower case and without the blanks around them (`complete_of_leads`), and finds
nothing where no alias is spelled so (`complete_of_lost`).

The two ways are one for words that are in lower case already.  They part at
an alias with a capital letter: dispatch finds it, and completion looks for
another spelling (`not_forall_complete_where_dispatched`).
-/

namespace CommandForest

/-- The form of a word that completion looks for among the aliases. -/
def Text.folded (word : String) : String := lowered (trimmed word)

theorem Outcome.SameEnd.trans {o o' o'' : Outcome} (h : o.SameEnd o') (h' : o'.SameEnd o'') :
    o.SameEnd o'' :=
  ⟨h.handled.trans h'.handled, h.actions.trans h'.actions, h.messages.trans h'.messages⟩

/-- Parameters of the built-in types have no provider. -/
theorem Command.providerAt_eq_none {c : Command}
    (h : ∀ q ∈ c.parameters, ∀ name, q.kind ≠ .custom name) (position : Nat) :
    c.providerAt position = none := by
  rw [providerAt, Option.bind_eq_none_iff]
  intro q hq
  have hcustom := h q (List.mem_of_getElem? hq)
  rw [Parameter.provider?]
  split
  · next name hkind => exact absurd hkind (hcustom name)
  · rfl

/-! ## Completion below a branch -/

namespace Branch

/-- Before the last word a command without custom parameters has nothing to
offer, and completion goes on below it. -/
theorem complete_cons (id : CommandId) {c : Command} (bs : List Branch) {sender : Sender}
    (hadmits : c.Admits sender) (hbuiltIn : ∀ q ∈ c.parameters, ∀ name, q.kind ≠ .custom name)
    (first : String) {rest : List String} (hrest : rest ≠ []) :
    ((mk id c bs).complete sender (first :: rest)).candidates =
      (completeAmong sender bs (Text.folded first) rest).candidates := by
  have hcount : rest.length + 1 ≠ 1 := by
    have := List.length_pos_of_ne_nil hrest
    omega
  have hnothing : ∀ typed start,
      c.candidates (bs.map command) sender (rest.length + 1) typed start = [] := by
    intro typed start
    rw [Command.candidates, Command.providerAt_eq_none hbuiltIn, if_neg hcount]
    rfl
  rw [complete, Command.denial_eq_none_iff.mpr hadmits]
  simp only [hnothing, Option.isSome_none, Bool.false_eq_true, if_false, List.isEmpty_nil, if_true]
  rfl

/-- Without anonymous children, completion goes on below the first that answers
to the word. -/
theorem completeAmong_of_answersTo {sender : Sender} {xs ys : List Branch} {b : Branch}
    {name : String} (rest : List String)
    (hbefore : ∀ x ∈ xs, x.command.isAnonymous = false ∧ x.command.answersTo name = false)
    (hnamed : b.command.isAnonymous = false) (hanswers : b.command.answersTo name = true) :
    completeAmong sender (xs ++ b :: ys) name rest = b.complete sender rest := by
  induction xs with
  | nil =>
      rw [List.nil_append, completeAmong, hnamed, hanswers]
      rfl
  | cons x xs ih =>
      obtain ⟨hx, hxs⟩ := List.forall_mem_cons.mp hbefore
      rw [List.cons_append, completeAmong, hx.1, hx.2, if_neg Bool.false_ne_true,
        if_neg Bool.false_ne_true, ih hxs]

/-- Nothing is found below branches that do not answer to the word. -/
theorem completeAmong_of_lost {sender : Sender} {bs : List Branch} {name : String}
    (rest : List String) (h : ∀ b ∈ bs, b.command.answersTo name = false) :
    (completeAmong sender bs name rest).candidates = none := by
  induction bs with
  | nil => rfl
  | cons b bs ih =>
      obtain ⟨hb, hbs⟩ := List.forall_mem_cons.mp h
      rw [completeAmong, hb, if_neg Bool.false_ne_true]
      split
      · rfl
      · exact ih hbs

end Branch

namespace Forest

/-! ## Ways down -/

/-- The first child that answers to a word. -/
def childNamed? (f : Forest) (c : Command) (word : String) : Option CommandId :=
  c.children.find? fun k => ((f.find? k).map fun d => d.answersTo word).getD false

theorem split_of_childNamed? {f : Forest} {c : Command} {word : String} {k : CommandId}
    (h : f.childNamed? c word = some k) :
    ∃ d before after, f.find? k = some d ∧ d.answersTo word = true ∧
      c.children = before ++ k :: after ∧
      ∀ j ∈ before, ∀ e, f.find? j = some e → e.answersTo word = false := by
  obtain ⟨hk, before, after, hchildren, hbefore⟩ := List.find?_eq_some_iff_append.mp h
  cases hd : f.find? k with
  | none =>
      rw [hd] at hk
      contradiction
  | some d =>
      rw [hd] at hk
      refine ⟨d, before, after, rfl, hk, hchildren, fun j hj e he => ?_⟩
      have hnot := hbefore j hj
      rw [he] at hnot
      exact Bool.not_eq_true' _ ▸ hnot

/-- The way down that words take, each to the first child that answers to it.
The list holds the commands strictly above the lower end, from the top on. -/
inductive Leads (f : Forest) : CommandId → List String → List CommandId → CommandId → Prop
  | here (id : CommandId) : Leads f id [] [] id
  | down {id k n : CommandId} {c : Command} {word : String} {words : List String}
      {above : List CommandId} :
      f.find? id = some c → f.childNamed? c word = some k → Leads f k words above n →
      Leads f id (word :: words) (id :: above) n

theorem Leads.cases_cons {f : Forest} {id n : CommandId} {word : String} {words : List String}
    {above : List CommandId} (h : f.Leads id (word :: words) above n) :
    ∃ c k lower, above = id :: lower ∧ f.find? id = some c ∧ f.childNamed? c word = some k ∧
      f.Leads k words lower n := by
  cases h with
  | down hc hk hbelow => exact ⟨_, _, _, rfl, hc, hk, hbelow⟩

/-- Nothing at this command ends the way down or branches off: it admits the
sender, its parameters are of built-in types, and none of its children is
anonymous. -/
structure LetsThrough (f : Forest) (sender : Sender) (c : Command) : Prop where
  admits : c.Admits sender
  builtIn : ∀ q ∈ c.parameters, ∀ name, q.kind ≠ .custom name
  named : ∀ k ∈ c.children, ∀ d, f.find? k = some d → d.isAnonymous = false

/-! ## Completion on the way -/

theorem complete_eq_of_holds {f : Forest} {b : Branch} (hb : f.Holds b) (sender : Sender)
    (tokens : List String) :
    (f.complete b.id sender tokens).1 = (b.complete sender tokens).candidates := by
  rw [complete, show f.branch? b.id = some b from hb]

theorem WellFormed.complete_below {f : Forest} (hf : f.WellFormed) {id k : CommandId} {c : Command}
    (hc : f.find? id = some c) {sender : Sender} (hopen : f.LetsThrough sender c) {first : String}
    (hk : f.childNamed? c (Text.folded first) = some k) {rest : List String} (hrest : rest ≠ []) :
    (f.complete id sender (first :: rest)).1 = (f.complete k sender rest).1 := by
  obtain ⟨d, before, after, hd, hanswers, hchildren, hbefore⟩ := split_of_childNamed? hk
  obtain ⟨bs, -, hb⟩ := hf.exists_branch hc
  obtain ⟨xs, b, ys, rfl, rfl, hxs⟩ := hb.split_children hf hchildren
  have hchild := hb.of_mem hf (List.mem_append_right xs List.mem_cons_self)
  cases (hchild.1.find?_id hf).symm.trans hd
  have hearlier : ∀ x ∈ xs, x.command.isAnonymous = false ∧
      x.command.answersTo (Text.folded first) = false := by
    intro x hx
    obtain ⟨hholds, hmem⟩ := hb.of_mem hf (List.mem_append_left _ hx)
    have hfind := hholds.find?_id hf
    exact ⟨hopen.named x.id hmem _ hfind, hbefore x.id (hxs x hx) _ hfind⟩
  have hnamed := hopen.named b.id hchild.2 _ hd
  have hwalk := Branch.complete_cons id (xs ++ b :: ys) hopen.admits hopen.builtIn first hrest
  rw [Branch.completeAmong_of_answersTo rest hearlier hnamed hanswers] at hwalk
  rw [complete_eq_of_holds hchild.1, ← hwalk]
  exact complete_eq_of_holds hb sender (first :: rest)

/-- Completion goes where the words lead in lower case. -/
theorem WellFormed.complete_of_leads {f : Forest} (hf : f.WellFormed) {sender : Sender}
    {r n : CommandId} {words : List String} {above : List CommandId}
    (hway : f.Leads r (words.map Text.folded) above n)
    (hopen : ∀ p ∈ above, ∀ c, f.find? p = some c → f.LetsThrough sender c) {rest : List String}
    (hrest : rest ≠ []) :
    (f.complete r sender (words ++ rest)).1 = (f.complete n sender rest).1 := by
  induction words generalizing r above with
  | nil =>
      rw [List.map_nil] at hway
      cases hway
      rfl
  | cons word words ih =>
      rw [List.map_cons] at hway
      obtain ⟨c, k, lower, rfl, hc, hk, hbelow⟩ := hway.cases_cons
      obtain ⟨hhere, hlower⟩ := List.forall_mem_cons.mp hopen
      rw [List.cons_append, hf.complete_below hc (hhere c hc) hk (by simp [hrest])]
      exact ih hbelow hlower

/-- Completion ends where no child answers to a word in lower case. -/
theorem WellFormed.complete_of_lost {f : Forest} (hf : f.WellFormed) {id : CommandId} {c : Command}
    (hc : f.find? id = some c) {sender : Sender} (hopen : f.LetsThrough sender c) {first : String}
    (hlost : f.childNamed? c (Text.folded first) = none) {rest : List String} (hrest : rest ≠ []) :
    (f.complete id sender (first :: rest)).1 = none := by
  obtain ⟨bs, -, hb⟩ := hf.exists_branch hc
  have hno : ∀ b ∈ bs, b.command.answersTo (Text.folded first) = false := by
    intro b hmem
    obtain ⟨hholds, hchild⟩ := hb.of_mem hf hmem
    have hnot := List.find?_eq_none.mp hlost b.id hchild
    rw [hholds.find?_id hf] at hnot
    exact Bool.not_eq_true _ ▸ hnot
  have hwalk := Branch.complete_cons id bs hopen.admits hopen.builtIn first hrest
  rw [Branch.completeAmong_of_lost rest hno] at hwalk
  exact (complete_eq_of_holds hb sender (first :: rest)).trans hwalk

/-! ## Dispatch on the way -/

/-- The commands on the way leave the words that reach them to those below. -/
def Decline (f : Forest) (sender : Sender) (above : List CommandId) (tokens : List String) : Prop :=
  ∀ before p after c, above = before ++ p :: after → f.find? p = some c →
    (c.attempt sender p (tokens.drop before.length)).handled = false

/-- Dispatch goes where the words lead as they were typed. -/
theorem WellFormed.execute_of_leads {f : Forest} (hf : f.WellFormed) {sender : Sender}
    {r n : CommandId} {words : List String} {above : List CommandId}
    (hway : f.Leads r words above n)
    (hopen : ∀ p ∈ above, ∀ c, f.find? p = some c → f.LetsThrough sender c) {rest : List String}
    (hdecline : f.Decline sender above (words ++ rest)) :
    (f.execute r sender (words ++ rest)).SameEnd (f.execute n sender rest) := by
  induction hway with
  | here id => exact ⟨rfl, rfl, rfl⟩
  | @down id k n c word words above hc hk hbelow ih =>
      obtain ⟨hhere, hlower⟩ := List.forall_mem_cons.mp hopen
      obtain ⟨d, before, after, hd, hanswers, hchildren, hbefore⟩ := split_of_childNamed? hk
      have hnamed : ∀ j ∈ before ++ k :: after, ∀ e, f.find? j = some e →
          e.isAnonymous = false := hchildren ▸ (hhere c hc).named
      have hfirst : ∀ j ∈ before, ¬ f.Takes sender word (words ++ rest) j := by
        intro j hj
        refine not_takes (fun e he hanonymous => ?_) fun e he _ => hbefore j hj e he
        rw [hnamed j (List.mem_append_left _ hj) e he] at hanonymous
        contradiction
      have hchild := hf.execute_of_named hc (hhere c hc).admits (hdecline [] id above c rfl hc)
        hchildren hfirst hd (hnamed k (by simp) d hd) hanswers
      refine hchild.trans (ih hlower fun front p back e hsplit he => ?_)
      exact hdecline (id :: front) p back e (by rw [hsplit, List.cons_append]) he

/-- **Two ways down**: completion goes where the words lead in lower case and
without the blanks around them, and ends where they lead nowhere; dispatch goes
where they lead as they were typed.  So for words that are in lower case
already, completion goes where dispatch does. -/
theorem complete_execute_of_leads {f : Forest} (hf : f.Reachable) {sender : Sender}
    {r n : CommandId} {above : List CommandId}
    (hopen : ∀ p ∈ above, ∀ c, f.find? p = some c → f.LetsThrough sender c) (words : List String) :
    (f.Leads r (words.map Text.folded) above n → ∀ rest, rest ≠ [] →
      (f.complete r sender (words ++ rest)).1 = (f.complete n sender rest).1 ∧
      ∀ c word, f.find? n = some c → f.LetsThrough sender c →
        f.childNamed? c (Text.folded word) = none →
        (f.complete r sender (words ++ word :: rest)).1 = none) ∧
    (f.Leads r words above n → ∀ rest,
      (f.Decline sender above (words ++ rest) →
        (f.execute r sender (words ++ rest)).SameEnd (f.execute n sender rest)) ∧
      ((∀ w ∈ words, Text.folded w = w) → rest ≠ [] →
        (f.complete r sender (words ++ rest)).1 = (f.complete n sender rest).1)) := by
  have hwf := hf.wellFormed
  refine ⟨fun hway rest hrest => ⟨hwf.complete_of_leads hway hopen hrest, ?_⟩,
    fun hway rest => ⟨hwf.execute_of_leads hway hopen, fun hlower hrest => ?_⟩⟩
  · intro c word hc hlast hlost
    rw [hwf.complete_of_leads hway hopen (List.cons_ne_nil word rest)]
    exact hwf.complete_of_lost hc hlast hlost hrest
  · have hsame : words.map Text.folded = words :=
      (List.map_congr_left (g := id) hlower).trans (List.map_id words)
    exact hwf.complete_of_leads (hsame.symm ▸ hway) hopen hrest

/-- A root with two children, of which one is spelled with a capital letter, and
a command below each. -/
def homes : Forest :=
  ({} : Forest).run [
    .appendRoot { aliases := ["home"] },
    .appendUnder 0 { aliases := ["list"] },
    .appendUnder 1 { aliases := ["all"] },
    .appendUnder 0 { aliases := ["Set"] },
    .appendUnder 3 { aliases := ["spawn"] }]

theorem reachable_homes : homes.Reachable := Reachable.empty.run _

theorem open_homes {id : CommandId} {c : Command} (hc : homes.find? id = some c) :
    c.isAnonymous = false ∧ c.Admits (.ofGrants .player []) ∧ c.parameters = [] := by
  have hall : ∀ c ∈ homes.commands.toList, c.isAnonymous = false ∧
      (c.denial (.ofGrants .player [])).isNone = true ∧ c.parameters.isEmpty = true := by
    decide
  obtain ⟨hnamed, hdenial, hparameters⟩ := hall c (Array.mem_of_getElem? hc).val
  exact ⟨hnamed, Command.denial_eq_none_iff.mp (Option.isNone_iff_eq_none.mp hdenial),
    List.isEmpty_iff.mp hparameters⟩

theorem letsThrough_homes {id : CommandId} {c : Command} (hc : homes.find? id = some c) :
    homes.LetsThrough (.ofGrants .player []) c where
  admits := (open_homes hc).2.1
  builtIn := by
    rw [(open_homes hc).2.2]
    exact fun q hq => absurd hq List.not_mem_nil
  named := fun _ _ _ hd => (open_homes hd).1

/-- Completion finds `list` in any case.  It does not find `Set`, which
dispatch does. -/
theorem complete_execute_of_leads_homes :
    homes.Reachable ∧
    (homes.complete 0 (.ofGrants .player []) ["LIST", ""]).1 =
      (homes.complete 1 (.ofGrants .player []) [""]).1 ∧
    (homes.complete 0 (.ofGrants .player []) ["Set", ""]).1 = none ∧
    (homes.execute 0 (.ofGrants .player []) ["Set", "spawn"]).SameEnd
      (homes.execute 3 (.ofGrants .player []) ["spawn"]) ∧
    (homes.complete 0 (.ofGrants .player []) ["list", ""]).1 =
      (homes.complete 1 (.ofGrants .player []) [""]).1 := by
  have hopen : ∀ above : List CommandId, ∀ p ∈ above, ∀ c, homes.find? p = some c →
      homes.LetsThrough (.ofGrants .player []) c := fun _ _ _ _ hc => letsThrough_homes hc
  have hlist : homes.Leads 0 ["list"] [0] 1 := .down rfl rfl (.here 1)
  have hset : homes.Leads 0 ["Set"] [0] 3 := .down rfl rfl (.here 3)
  have hfolded : ["LIST"].map Text.folded = ["list"] := by decide +kernel
  obtain ⟨hfold, -⟩ := complete_execute_of_leads reachable_homes (hopen [0]) ["LIST"]
  obtain ⟨hhere, -⟩ := complete_execute_of_leads reachable_homes (hopen []) []
  obtain ⟨-, htyped⟩ := complete_execute_of_leads reachable_homes (hopen [0]) ["Set"]
  obtain ⟨-, hlower⟩ := complete_execute_of_leads reachable_homes (hopen [0]) ["list"]
  refine ⟨reachable_homes, (hfold (hfolded ▸ hlist) [""] (by decide)).1, ?_, ?_, ?_⟩
  · refine (hhere (.here 0) [""] (by decide)).2 _ "Set" rfl (hopen [0] 0 (by decide) _ rfl) ?_
    decide +kernel
  · refine (htyped hset ["spawn"]).1 fun before p after c hsplit hc => ?_
    obtain ⟨rfl, hp⟩ : before = [] ∧ p = 0 := by
      cases before with
      | nil => exact ⟨rfl, (List.cons.inj hsplit).1.symm⟩
      | cons b before => simp at hsplit
    rw [hp] at hc
    cases hc
    rfl
  · exact (hlower hlist [""]).2 (by decide +kernel) (by decide)

/-- Completion loses the way that dispatch takes, at an alias with a capital
letter. -/
theorem not_forall_complete_where_dispatched :
    ¬ ∀ (f : Forest), f.Reachable → ∀ sender : Sender,
      (∀ id c, f.find? id = some c → c.isAnonymous = false ∧ c.Admits sender) →
      ∀ (r n : CommandId) (words : List String) (above : List CommandId) (typed : String),
      words ≠ [] → (∀ w ∈ words, ∀ ch ∈ w.toList, Text.isBlank ch = false) →
      f.Leads r words above n →
      (∀ p ∈ above, ∀ c, f.find? p = some c → ∀ q ∈ c.parameters, ∀ name, q.kind ≠ .custom name) →
      (f.complete r sender (words ++ [typed])).1 = (f.complete n sender [typed]).1 := by
  intro h
  have hsame := h homes reachable_homes (.ofGrants .player [])
    (fun _ _ hc => ⟨(open_homes hc).1, (open_homes hc).2.1⟩) 0 3 ["Set"] [0] "" (by decide)
    (by simp [Text.isBlank]) (.down rfl rfl (.here 3))
    fun _ _ _ hc => (letsThrough_homes hc).builtIn
  exact absurd hsame (by decide +kernel)

end Forest

end CommandForest
