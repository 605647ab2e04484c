import CommandForest.Proofs.Forgetting

/-!
# CommandForest.Proofs.Afresh

Two programs with the same forest take the same steps.  One lets parameters
keep their providers; the other empties all cells before each of its doings,
and so looks every provider up afresh (`Forest.repliesAfresh`).  As long as no
provider replaces another that is seen somewhere (`Forest.Undisturbed`), all
their answers are the same, and so are their forests but for the cells
(`Faithful.repliesAfresh_eq`).

Then a step that only reads, and fills cells on the way, changes no later
answer (`SameButCells.heard_eq`).
-/

namespace CommandForest

/-- What an operation answers. -/
inductive Answer
  | loaded (ids : List CommandId) (report : Option Diagnostic)
  | malformed (e : DefinitionError)
  | added (id : CommandId)
  | unknown (id : CommandId)
  | done
  | bound (reports : List Diagnostic)
  | registered (labels : Labels) (reports : List Diagnostic)
  | executed (handled : Bool) (log : List Event) (messages : List String)
    (reports : List Diagnostic)
  | completed (candidates : Option (List String))
  | helped (text : Option String)
  | listed (lines : List String)

namespace Answer

/-- The answer to a registration. -/
def ofRegistration : Except UnknownCommand Forest.Registration → Answer
  | .ok r => registered r.labels r.reports
  | .error e => unknown e.id

/-- The answer to words. -/
def ofOutcome (o : Outcome) : Answer := executed o.handled o.log o.messages o.reports

theorem ofRegistration_eq {a b : Except UnknownCommand Forest.Registration}
    (h : a.map Forest.Registration.forget = b.map Forest.Registration.forget) :
    ofRegistration a = ofRegistration b := by
  rcases Forest.map_eq_map_cases h with ⟨e, rfl, rfl⟩ | ⟨x, y, rfl, rfl, hxy⟩
  · rfl
  · have hlabels : x.labels = y.labels := (congrArg Forest.Registration.labels hxy :)
    have hreports : x.reports = y.reports := (congrArg Forest.Registration.reports hxy :)
    rw [ofRegistration, ofRegistration, hlabels, hreports]

end Answer

namespace Forest

/-- The answer to an operation. -/
def answer (f : Forest) : Operation → Answer
  | .load source => match f.load source with
    | .ok (ids, _, report) => .loaded ids report
    | .error e => .malformed e
  | .appendRoot c => .added (f.appendRoot c).1
  | .appendUnder parent c => match f.appendUnder parent c with
    | .ok (id, _) => .added id
    | .error e => .unknown e.id
  | .provide id p => match f.provide id p with
    | .ok _ => .done
    | .error e => .unknown e.id
  | .bind id handlers => match f.bind id handlers with
    | .ok (_, reports) => .bound reports
    | .error e => .unknown e.id
  | .register labels root qualifier handlers =>
    .ofRegistration (f.register labels root qualifier handlers)
  | .registerRoots labels qualifier handlers =>
    .ofRegistration (f.registerRoots labels qualifier handlers)
  | .setMessages _ => .done
  | .execute id sender tokens => .ofOutcome (f.execute id sender tokens)
  | .complete id sender tokens => .completed (f.complete id sender tokens).1
  | .help id sender => .helped (f.help id sender).1
  | .helpLines id sender => .listed (f.helpLines id sender).1

/-- **An operation** answers the same if all cells are emptied before it. -/
theorem Faithful.answer_forget {f : Forest} (h : f.Faithful) (hf : f.WellFormed) (op : Operation) :
    f.forget.answer op = f.answer op := by
  cases op with
  | load source =>
      rw [answer, answer, Forest.load, Forest.load]
      cases Definition.read source with
      | error e => rfl
      | ok d => simp only [Except.map, plantRoots_eq, size_forget]
  | appendRoot c => rw [answer, answer, appendRoot, appendRoot, size_forget]
  | appendUnder parent c =>
      rw [answer, answer, appendUnder, appendUnder, has_forget, size_forget]
      by_cases hp : f.has parent = true
      · rw [if_pos hp, if_pos hp]
      · rw [if_neg hp, if_neg hp]
  | provide id p =>
      rw [answer, answer]
      rcases map_eq_map_cases (hf.provide_forget id p) with
        ⟨e, hempty, hreal⟩ | ⟨x, y, hempty, hreal, -⟩
      · rw [hempty, hreal]
      · rw [hempty, hreal]
  | bind id handlers =>
      rw [answer, answer]
      rcases map_eq_map_cases (h.bind hf id handlers) with
        ⟨e, hempty, hreal⟩ | ⟨x, y, hempty, hreal, hsame⟩
      · rw [hempty, hreal]
      · have hreports : x.2 = y.2 := (congrArg Prod.snd hsame :)
        rw [hempty, hreal]
        dsimp only
        rw [hreports]
  | register labels root qualifier handlers =>
      exact Answer.ofRegistration_eq (h.register hf labels root qualifier handlers)
  | registerRoots labels qualifier handlers =>
      exact Answer.ofRegistration_eq (h.registerRoots hf labels qualifier handlers)
  | setMessages m => rfl
  | execute id sender tokens =>
      obtain ⟨hhandled, hlog⟩ := h.execute hf id sender tokens
      rw [answer, answer, Answer.ofOutcome, Answer.ofOutcome, messages_execute, messages_execute,
        Outcome.reports, Outcome.reports, hhandled, hlog, messages_forget]
  | complete id sender tokens => rw [answer, answer, h.complete hf]
  | help id sender => rw [answer, answer, h.help hf]
  | helpLines id sender => rw [answer, answer, h.helpLines hf]

/-! ## Looking up afresh -/

/-- Registers every root, each in a forest with empty cells. -/
def registerRootsAfresh (f : Forest) (labels : Labels) (qualifier : String)
    (handlers : Handlers) : Except UnknownCommand Registration :=
  f.registerEachAfresh labels qualifier handlers f.roots

/-- The forest after an operation, with empty cells to look at. -/
def performAfresh (f : Forest) : Operation → Forest
  | .registerRoots labels qualifier handlers =>
    match f.registerRootsAfresh labels qualifier handlers with
    | .ok r => r.forest
    | .error _ => f
  | op => f.forget.perform op

/-- The answer to an operation, with empty cells to look at. -/
def answerAfresh (f : Forest) : Operation → Answer
  | .registerRoots labels qualifier handlers =>
    .ofRegistration (f.registerRootsAfresh labels qualifier handlers)
  | op => f.forget.answer op

section

variable {f g : Forest} (h : f.Faithful) (hf : f.WellFormed) (hg : g.forget = f.forget)

include h hf hg

/-- **An operation** answers the same with full cells and with empty ones. -/
theorem Faithful.answerAfresh_eq (op : Operation) : g.answerAfresh op = f.answer op := by
  cases op with
  | registerRoots labels qualifier handlers =>
      have hroots : g.roots = f.roots := (congrArg Forest.roots hg :)
      rw [answerAfresh, answer, registerRootsAfresh, Forest.registerRoots, hroots]
      exact Answer.ofRegistration_eq (h.registerEach hf hg labels qualifier handlers f.roots)
  | load | appendRoot | appendUnder | provide | bind | register | setMessages | execute | complete
  | help | helpLines =>
      rw [answerAfresh, hg]
      · exact h.answer_forget hf _
      · exact fun _ _ _ => Operation.noConfusion

/-- **An operation** leaves the same forest behind, but for the cells. -/
theorem Faithful.forget_performAfresh (op : Operation) :
    (g.performAfresh op).forget = (f.perform op).forget := by
  cases op with
  | registerRoots labels qualifier handlers =>
      have hroots : g.roots = f.roots := (congrArg Forest.roots hg :)
      rw [performAfresh, Forest.perform, registerRootsAfresh, Forest.registerRoots, hroots]
      rcases map_eq_map_cases (h.registerEach hf hg labels qualifier handlers f.roots) with
        ⟨e, hempty, hreal⟩ | ⟨x, y, hempty, hreal, hsame⟩
      · rw [hempty, hreal]
        exact hg
      · rw [hempty, hreal]
        exact congrArg Registration.forest hsame
  | load | appendRoot | appendUnder | provide | bind | register | setMessages | execute | complete
  | help | helpLines =>
      rw [performAfresh, hg]
      · exact h.forget_perform_forget hf _
      · exact fun _ _ _ => Operation.noConfusion

end

/-! ## Steps -/

/-- What a program does next: an operation, or a copy of a command, with
whatever its parameters keep, as a root or under a parent. -/
inductive Step
  | operation (op : Operation)
  | copy (source : CommandId) (parent : Option CommandId)

namespace Step

/-- The operation that a step comes to.  There is none if the command that is
to be copied is unknown. -/
def operation? (f : Forest) : Step → Option Operation
  | operation op => some op
  | copy source parent =>
    (f.find? source).map fun c => parent.elim (.appendRoot c) fun p => .appendUnder p c

/-- The step gives no command a second provider of the same name.  A copy is
always one of what is there. -/
def Undisturbing (f : Forest) : Step → Prop
  | operation op => op.Undisturbing f
  | copy _ _ => True

/-- The step runs or completes words, or shows help. -/
def Reads : Step → Prop
  | operation op => op.reads = true
  | copy _ _ => False

end Step

/-- The forest after a step. -/
def take (f : Forest) (s : Step) : Forest := (s.operation? f).elim f f.perform

/-- The answer to a step, if it comes to anything. -/
def reply (f : Forest) (s : Step) : Option Answer := (s.operation? f).map f.answer

/-- The forest after a step, with empty cells to look at. -/
def takeAfresh (f : Forest) (s : Step) : Forest := (s.operation? f.forget).elim f f.performAfresh

/-- The answer to a step, with empty cells to look at. -/
def replyAfresh (f : Forest) (s : Step) : Option Answer :=
  (s.operation? f.forget).map f.answerAfresh

/-- The operation with empty cells in the command that it appends. -/
def Operation.forget : Operation → Operation
  | .appendRoot c => .appendRoot c.forget
  | .appendUnder parent c => .appendUnder parent c.forget
  | op => op

theorem Operation.answerAfresh_forget (f : Forest) (op : Operation) :
    f.answerAfresh op.forget = f.answerAfresh op := by
  cases op with
  | appendUnder parent c =>
      show f.forget.answer (.appendUnder parent c.forget) = f.forget.answer (.appendUnder parent c)
      rw [answer, answer, Forest.appendUnder, Forest.appendUnder]
      by_cases hp : f.forget.has parent = true
      · rw [if_pos hp, if_pos hp]
      · rw [if_neg hp, if_neg hp]
  | load | appendRoot | provide | bind | register | registerRoots | setMessages | execute
  | complete | help | helpLines => rfl

theorem Operation.performAfresh_forget (f : Forest) (op : Operation) :
    (f.performAfresh op.forget).forget = (f.performAfresh op).forget := by
  have hinsert : ∀ (c : Command) (parent : Option CommandId),
      (∀ p : Nat, parent = some p → p < f.size) →
      (f.forget.insert c.forget parent).forget = (f.forget.insert c parent).forget := by
    intro c parent h
    rw [f.forget_insert_forget (c.forget_forget) h, f.forget_insert_forget rfl h]
  cases op with
  | appendRoot c => exact hinsert c none (by simp)
  | appendUnder parent c =>
      show (f.forget.perform (.appendUnder parent c.forget)).forget =
        (f.forget.perform (.appendUnder parent c)).forget
      rw [perform, perform, Forest.appendUnder, Forest.appendUnder, has_forget]
      by_cases hp : f.has parent = true
      · rw [if_pos hp, if_pos hp]
        refine hinsert c (some parent) fun p hparent => ?_
        cases hparent
        simpa [has] using hp
      · rw [if_neg hp, if_neg hp]
  | load | provide | bind | register | registerRoots | setMessages | execute | complete | help
  | helpLines => rfl

/-- Steps come to the same with empty cells, but for the cells of a copy. -/
theorem Step.operation?_forget (f : Forest) (s : Step) :
    s.operation? f.forget = s.operation? f ∨
      s.operation? f.forget = (s.operation? f).map Operation.forget := by
  cases s with
  | operation op => exact .inl rfl
  | copy source parent =>
      refine .inr ?_
      rw [operation?, operation?, find?_forget, Option.map_map, Option.map_map]
      congr 1
      funext c
      cases parent <;> rfl

section

variable {f g : Forest} (h : f.Faithful) (hf : f.WellFormed)

include h hf

/-- **A step** is answered the same with full cells and with empty ones. -/
theorem Faithful.replyAfresh_eq (hg : g.forget = f.forget) (s : Step) :
    g.replyAfresh s = f.reply s := by
  have hanswer := h.answerAfresh_eq hf hg
  rw [replyAfresh, reply, hg]
  rcases s.operation?_forget f with hop | hop
  · rw [hop]
    exact Option.map_congr fun op _ => hanswer op
  · rw [hop, Option.map_map]
    exact Option.map_congr fun op _ => (op.answerAfresh_forget g).trans (hanswer op)

/-- **A step** leaves the same forest behind, but for the cells. -/
theorem Faithful.forget_takeAfresh (hg : g.forget = f.forget) (s : Step) :
    (g.takeAfresh s).forget = (f.take s).forget := by
  have hperform := h.forget_performAfresh hf hg
  rw [takeAfresh, take, hg]
  cases hreal : s.operation? f with
  | none =>
      rcases s.operation?_forget f with hop | hop
      · rw [hop, hreal]
        exact hg
      · rw [hop, hreal]
        exact hg
  | some op =>
      rcases s.operation?_forget f with hop | hop
      · rw [hop, hreal]
        exact hperform op
      · rw [hop, hreal]
        exact (op.performAfresh_forget g).trans (hperform op)

theorem Faithful.take {s : Step} (hs : s.Undisturbing f) : (f.take s).Faithful := by
  cases s with
  | operation op => exact h.perform hf hs
  | copy source parent =>
      rw [Forest.take, Step.operation?]
      cases hc : f.find? source with
      | none => exact h
      | some c =>
          have hcopied : c.Faithful := h source c hc
          cases parent with
          | none =>
              have hop : (Operation.appendRoot c).Undisturbing f := hcopied
              exact h.perform hf hop
          | some p =>
              have hop : (Operation.appendUnder p c).Undisturbing f := hcopied
              exact h.perform hf hop

omit h in
theorem WellFormed.take (s : Step) : (f.take s).WellFormed := by
  rw [Forest.take]
  cases s.operation? f with
  | none => exact hf
  | some op => exact hf.perform op

end

/-! ## Runs -/

/-- The answers to steps, one after the other. -/
def replies (f : Forest) : List Step → List (Option Answer)
  | [] => []
  | s :: steps => f.reply s :: (f.take s).replies steps

/-- The answers to steps, with empty cells to look at before each of them. -/
def repliesAfresh (f : Forest) : List Step → List (Option Answer)
  | [] => []
  | s :: steps => f.replyAfresh s :: (f.takeAfresh s).repliesAfresh steps

/-- No step gives a command a second provider of the same name. -/
def Undisturbed (f : Forest) : List Step → Prop
  | [] => True
  | s :: steps => s.Undisturbing f ∧ (f.take s).Undisturbed steps

/-- **A run** without replaced providers is answered the same by both
programs, and they end with the same forest but for the cells. -/
theorem Faithful.repliesAfresh_eq {f g : Forest} (h : f.Faithful) (hf : f.WellFormed)
    (hg : g.forget = f.forget) {steps : List Step} (hsteps : f.Undisturbed steps) :
    g.repliesAfresh steps = f.replies steps ∧
      (steps.foldl takeAfresh g).forget = (steps.foldl Forest.take f).forget := by
  induction steps generalizing f g with
  | nil => exact ⟨rfl, hg⟩
  | cons s steps ih =>
      obtain ⟨hs, hlater⟩ := hsteps
      have hreply := h.replyAfresh_eq hf hg s
      have htake := h.forget_takeAfresh hf hg s
      obtain ⟨hreplies, hafter⟩ := ih (h.take hf hs) (hf.take s) htake hlater
      rw [repliesAfresh, replies, hreply, hreplies]
      exact ⟨rfl, hafter⟩

/-! ## Steps that only read -/

/-- Two forests of faithful commands that differ in their cells alone. -/
structure SameButCells (f g : Forest) : Prop where
  forget : f.forget = g.forget
  wellFormed : f.WellFormed
  faithful : f.Faithful
  wellFormed_right : g.WellFormed
  faithful_right : g.Faithful

namespace SameButCells

variable {f g : Forest} (h : SameButCells f g)

include h

theorem symm : SameButCells g f :=
  ⟨h.forget.symm, h.wellFormed_right, h.faithful_right, h.wellFormed, h.faithful⟩

theorem reply (s : Step) : f.reply s = g.reply s :=
  (h.faithful.replyAfresh_eq h.wellFormed rfl s).symm.trans
    (h.faithful_right.replyAfresh_eq h.wellFormed_right h.forget s)

theorem undisturbing {s : Step} (hs : s.Undisturbing f) : s.Undisturbing g := by
  cases s with
  | copy source parent => exact trivial
  | operation op =>
      cases op with
      | provide id p =>
          intro n hn c hc
          have hbelow : f.descendants id = g.descendants id := by
            rw [← f.sameLinks_forget.descendants, ← g.sameLinks_forget.descendants, h.forget]
          obtain ⟨d, hd, hdc⟩ := find?_of_forget_eq h.forget.symm hc
          have hproviders : d.providers = c.providers := (congrArg Command.providers hdc :)
          rw [← hproviders]
          exact hs n (hbelow ▸ hn) d hd
      | load | appendRoot | appendUnder | bind | register | registerRoots | setMessages | execute
      | complete | help | helpLines => exact hs

theorem take {s : Step} (hs : s.Undisturbing f) : SameButCells (f.take s) (g.take s) where
  forget := (h.faithful.forget_takeAfresh h.wellFormed rfl s).symm.trans
    (h.faithful_right.forget_takeAfresh h.wellFormed_right h.forget s)
  wellFormed := h.wellFormed.take s
  faithful := h.faithful.take h.wellFormed hs
  wellFormed_right := h.wellFormed_right.take s
  faithful_right := h.faithful_right.take h.wellFormed_right (h.undisturbing hs)

/-- Reading fills cells and changes nothing else. -/
theorem take_of_reads {s : Step} (hs : s.Reads) :
    s.Undisturbing f ∧ SameButCells (f.take s) g := by
  cases s with
  | copy source parent => contradiction
  | operation op =>
      have hundisturbing : op.Undisturbing f := by
        cases op with
        | provide | appendRoot | appendUnder => contradiction
        | load | bind | register | registerRoots | setMessages | execute | complete | help
        | helpLines => exact trivial
      have hforget : (f.perform op).forget = f.forget := f.forget_perform_of_reads op hs
      exact ⟨hundisturbing, hforget.trans h.forget, h.wellFormed.perform op,
        h.faithful.perform h.wellFormed hundisturbing, h.wellFormed_right, h.faithful_right⟩

end SameButCells

/-- The steps of a script that are marked. -/
def marked (script : List (Bool × Step)) : List Step := (script.filter Prod.fst).map Prod.snd

/-- The answers to the marked steps of a script that is run as a whole. -/
def heard (f : Forest) : List (Bool × Step) → List (Option Answer)
  | [] => []
  | (true, s) :: script => f.reply s :: (f.take s).heard script
  | (false, s) :: script => (f.take s).heard script

/-- **Steps that only read** can be put in and left out: the others are
answered the same. -/
theorem SameButCells.heard_eq {f g : Forest} (h : SameButCells f g)
    {script : List (Bool × Step)} (hreads : ∀ s, (false, s) ∈ script → s.Reads) :
    (f.Undisturbed (script.map Prod.snd) ↔ g.Undisturbed (marked script)) ∧
      (g.Undisturbed (marked script) → f.heard script = g.replies (marked script)) := by
  induction script generalizing f g with
  | nil => exact ⟨Iff.rfl, fun _ => rfl⟩
  | cons e script ih =>
      obtain ⟨mark, s⟩ := e
      have hlater : ∀ s, (false, s) ∈ script → s.Reads :=
        fun s hs => hreads s (List.mem_cons_of_mem _ hs)
      cases mark with
      | false =>
          obtain ⟨hs, hsame⟩ := h.take_of_reads (hreads s List.mem_cons_self)
          obtain ⟨hiff, heq⟩ := ih hsame hlater
          exact ⟨⟨fun hall => hiff.mp hall.2, fun hall => ⟨hs, hiff.mpr hall⟩⟩, heq⟩
      | true =>
          have hnext : s.Undisturbing f → SameButCells (f.take s) (g.take s) := fun hs => h.take hs
          refine ⟨⟨fun hall => ?_, fun hall => ?_⟩, fun hall => ?_⟩
          · obtain ⟨hs, hrest⟩ := hall
            exact ⟨h.undisturbing hs, (ih (hnext hs) hlater).1.mp hrest⟩
          · obtain ⟨hs, hrest⟩ := hall
            have hs' := h.symm.undisturbing hs
            exact ⟨hs', (ih (hnext hs') hlater).1.mpr hrest⟩
          · obtain ⟨hs, hrest⟩ := hall
            have hs' := h.symm.undisturbing hs
            have hreplies := (ih (hnext hs') hlater).2 hrest
            show f.reply s :: (f.take s).heard script = g.replies (s :: marked script)
            rw [replies, h.reply s, hreplies]

end Forest

end CommandForest
