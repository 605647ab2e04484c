import CommandForest.Proofs.Candidates
import CommandForest.Proofs.Furnishing
import CommandForest.Proofs.RestOfLine

/-!
# CommandForest.Proofs.ChoiceWords

From the text that gives a set of choices to the line that names one of them.

* The values of choices are trimmed and not empty (`Choices.of_mem_values`), so
  behind a label none of their pieces is lost (`Labels.runLine_label`).
* The provider of choices offers each of them, and takes the first that is the
  word in any ASCII case (`Choices.payload?_of_isFirstFor`).
* A line is split at single spaces.  A value without a space is one word, and a
  command that takes one of the choices calls its handler with it
  (`Forest.EchoesChoice.execute_word`).  A value with a space is several words,
  which the command does not take (`actions_execute_words`).

Lines that came before only fill cells, and do not count
(`Setup.OffersChoice.later`).
-/

namespace CommandForest

/-! ## Values -/

namespace Choices

/-- Values are not empty and have no blanks around them. -/
theorem of_mem_values {spec : String} {k : Choices} (h : read spec = .ok k) {v : String}
    (hv : v ∈ k.values) : v.toList ≠ [] ∧ Text.trim v.toList = v.toList := by
  rw [read] at h
  split at h
  · contradiction
  · dsimp only at h
    split at h
    · contradiction
    · cases h
      obtain ⟨value, hvalue, rfl⟩ := List.mem_map.mp hv
      obtain ⟨hmem, hne⟩ := List.mem_filter.mp hvalue
      obtain ⟨piece, -, rfl⟩ := List.mem_map.mp hmem
      rw [String.toList_ofList]
      exact ⟨by simpa using hne, Text.trim_trim piece⟩

/-- Of the values that are a word in any ASCII case, this is the first. -/
def IsFirstFor (k : Choices) (word first : String) : Prop :=
  Text.eqIgnoringAsciiCase first word = true ∧ ∃ before after,
    k.values = before ++ first :: after ∧
      ∀ u ∈ before, Text.eqIgnoringAsciiCase u word = false

theorem find?_eq_some_iff {k : Choices} {word first : String} :
    (k.values.find? fun u => Text.eqIgnoringAsciiCase u word) = some first ↔
      k.IsFirstFor word first := by
  rw [List.find?_eq_some_iff_append]
  simp [IsFirstFor]

/-- The provider takes the first value for a word. -/
theorem payload?_of_isFirstFor {k : Choices} {word first : String} (h : k.IsFirstFor word first) :
    k.provider.payload? word = some ⟨.text, first⟩ :=
  congrArg (Option.map fun content => (⟨.text, content⟩ : Payload)) (find?_eq_some_iff.mpr h)

/-- There is a first value for every value. -/
theorem exists_isFirstFor {k : Choices} {v : String} (hv : v ∈ k.values) :
    ∃ first, k.IsFirstFor v first := by
  have hself : Text.eqIgnoringAsciiCase v v = true := beq_self_eq_true _
  have hsome : (k.values.find? fun u => Text.eqIgnoringAsciiCase u v).isSome = true :=
    List.find?_isSome.mpr ⟨v, hv, hself⟩
  obtain ⟨first, hfirst⟩ := Option.isSome_iff_exists.mp hsome
  exact ⟨first, find?_eq_some_iff.mp hfirst⟩

end Choices

/-! ## Lines that start with a label -/

namespace Labels

theorem dropTrailingEmpty_eq_self {words : List String} (h : words.getLast? ≠ some "") :
    dropTrailingEmpty words = words := by
  rcases List.eq_nil_or_concat' words with rfl | ⟨init, last, rfl⟩
  · rfl
  · have hlast : last.isEmpty = false := by
      rw [← Bool.not_eq_true, String.isEmpty_iff]
      rintro rfl
      simp at h
    simp [dropTrailingEmpty, hlast]

section

variable {label : String} (hspace : ' ' ∉ label.toList) (hslash : label.toList.head? ≠ some '/')

include hspace hslash

/-- The words of a label, a space and a text are the label and the pieces of
the text. -/
theorem lineWords_label (rest : String) :
    lineWords (label ++ " " ++ rest) =
      label :: (Text.pieces (· == ' ') rest.toList).map String.ofList := by
  have hline : (label ++ " " ++ rest).toList = label.toList ++ ' ' :: rest.toList := by simp
  have hbody : body (label ++ " " ++ rest) = label.toList ++ ' ' :: rest.toList := by
    rw [body, hline]
    split
    · next tail heq =>
        cases hlabel : label.toList with
        | nil => rw [hlabel] at heq; cases heq
        | cons c cs =>
            rw [hlabel] at heq hslash
            cases heq
            exact absurd rfl hslash
    · rfl
  rw [lineWords_eq, hbody, if_neg (by simp),
    Text.pieces_append_cons (Text.beq_eq_false_of_not_mem hspace) rfl]
  simp

variable {ls : Labels} {root : CommandId} (hroot : ls.resolve label = some root) (f : Forest)
  (sender : Sender)

include hroot

/-- A label and a space are completed with an empty word. -/
theorem continueLine_label :
    ls.continueLine f sender (label ++ " ") = f.complete root sender [""] := by
  have hwords : lineWords (label ++ " ") = [label, ""] := by
    rw [← String.append_empty (s := label ++ " "), lineWords_label hspace hslash]
    rfl
  rw [continueLine, hwords]
  simp only [complete, hroot]

/-- A label and a text that does not end with a space run the pieces of the
text. -/
theorem runLine_label {rest : String} (hne : rest.toList ≠ [])
    (hlast : rest.toList.getLast? ≠ some ' ') :
    ls.runLine f sender (label ++ " " ++ rest) =
      f.execute root sender ((Text.pieces (· == ' ') rest.toList).map String.ofList) := by
  have hwords : dropTrailingEmpty (lineWords (label ++ " " ++ rest)) =
      label :: (Text.pieces (· == ' ') rest.toList).map String.ofList := by
    rw [lineWords_label hspace hslash]
    refine dropTrailingEmpty_eq_self fun hempty => ?_
    rw [List.getLast?_cons_of_ne_nil (by simpa using Text.pieces_ne_nil _ _), List.getLast?_map,
      Option.map_eq_some_iff] at hempty
    obtain ⟨piece, hpiece, hnil⟩ := hempty
    rw [String.ofList_eq_empty_iff] at hnil
    subst hnil
    exact Text.getLast?_pieces_ne hne hlast hpiece
  rw [runLine, hwords]
  simp only [dispatch, hroot]

end

end Labels

/-! ## A single parameter of a custom type -/

section

variable {p : Parameter} {type : String} (hkind : p.kind = .custom type) {scope : Providers}

include hkind

theorem Parameter.takesRest_of_custom : p.takesRest = false := by simp [takesRest, hkind]

/-- One word is converted by the provider. -/
theorem values_convertAll_singleton {provider : Provider}
    (hprovider : p.provider? scope = some provider) (word : String) :
    (convertAll scope [p] [word]).values =
      (provider.payload? word).map fun payload => [Value.custom payload] := by
  have hrest := p.takesRest_of_custom hkind
  have hfits : fits [p] [word].length = true := by simp [fits]
  rw [convertAll, if_pos hfits, Conversion.run, hrest]
  cases hpayload : provider.payload? word <;>
    simp [Parameter.convert, hkind, hprovider, hpayload, Conversion.run]

/-- No other number of words is converted. -/
theorem values_convertAll_of_length_ne {words : List String} (h : words.length ≠ 1) :
    (convertAll scope [p] words).values = none := by
  have hends : endsInRest [p] = false := p.takesRest_of_custom hkind
  have hfits : fits [p] words.length = false := by simp [fits, h, hends]
  rw [convertAll, hfits, if_neg Bool.false_ne_true]

end

/-! ## Commands that take one of the choices -/

/-- A command that anyone can give one word of a custom type, with nothing
below it. -/
structure Command.TakesWord (c : Command) (type hook : String) : Prop where
  children : c.children = []
  permission : c.permission = none
  audience : c.audience = .everyone
  hook : c.hook = some hook
  kinds : c.parameters.map Parameter.kind = [.custom type]

instance (c : Command) (type hook : String) : Decidable (c.TakesWord type hook) :=
  decidable_of_iff
    (c.children = [] ∧ c.permission = none ∧ c.audience = .everyone ∧ c.hook = some hook ∧
      c.parameters.map Parameter.kind = [.custom type])
    ⟨fun ⟨hchildren, hpermission, haudience, hhook, hkinds⟩ =>
        ⟨hchildren, hpermission, haudience, hhook, hkinds⟩,
      fun h => ⟨h.children, h.permission, h.audience, h.hook, h.kinds⟩⟩

namespace Command.TakesWord

variable {c : Command} {type hook : String} (h : c.TakesWord type hook)

include h

theorem admits (sender : Sender) : c.Admits sender := by
  simp [Admits, h.permission, h.audience, Audience.admits]

theorem exists_parameter : ∃ p, c.parameters = [p] ∧ p.kind = .custom type :=
  List.map_eq_singleton_iff.mp h.kinds

/-- Cells play no part in it. -/
theorem of_forget_eq {d : Command} (hforget : d.forget = c.forget) : d.TakesWord type hook where
  children := (congrArg Command.children hforget :).trans h.children
  permission := (congrArg Command.permission hforget :).trans h.permission
  audience := (congrArg Command.audience hforget :).trans h.audience
  hook := (congrArg Command.hook hforget :).trans h.hook
  kinds := by
    have hkinds : ∀ e : Command, e.parameters.map Parameter.kind =
        e.forget.parameters.map Parameter.kind := fun e => by simp [forget]
    rw [hkinds, hforget, ← hkinds, h.kinds]

end Command.TakesWord

namespace Forest

/-- A command of a forest that takes one of the choices, and echoes it. -/
structure EchoesChoice (f : Forest) (id : CommandId) (c : Command) (k : Choices) (hook : String) :
    Prop where
  wellFormed : f.WellFormed
  find? : f.find? id = some c
  takes : c.TakesWord k.name hook
  binding : c.binding = .bound (.echo hook)
  provider : ∀ p ∈ c.parameters, p.provider? c.providers = some k.provider

namespace EchoesChoice

variable {f : Forest} {id : CommandId} {c : Command} {k : Choices} {hook : String}
  (h : f.EchoesChoice id c k hook)

include h

/-- Cells play no part in it. -/
theorem of_sameButCells {g : Forest} (hsame : SameButCells g f) (hfaithful : c.Faithful) :
    ∃ d, g.EchoesChoice id d k hook ∧ d.isAnonymous = c.isAnonymous := by
  obtain ⟨d, hd, hforget⟩ := find?_of_forget_eq hsame.forget.symm h.find?
  have hproviders : d.providers = c.providers := (congrArg Command.providers hforget :)
  refine ⟨d, ⟨hsame.wellFormed, hd, h.takes.of_forget_eq hforget, ?_, fun q hq => ?_⟩, ?_⟩
  · exact (congrArg Command.binding hforget :).trans h.binding
  · -- the parameter finds what its counterpart finds, both without their cells
    have hmem : q.forget ∈ c.parameters.map Parameter.forget := by
      have hparameters : d.parameters.map Parameter.forget = c.parameters.map Parameter.forget :=
        (congrArg Command.parameters hforget :)
      rw [← hparameters]
      exact List.mem_map_of_mem hq
    obtain ⟨p, hp, hpq⟩ := List.mem_map.mp hmem
    have hkept : q.forget.provider? d.providers = q.provider? d.providers :=
      hsame.faithful id d hd q hq
    rw [← hkept, ← hpq, hproviders, hfaithful p hp]
    exact h.provider p hp
  · exact (congrArg Command.isAnonymous hforget :)

variable (sender : Sender)

/-- **Every value is offered** for an empty word. -/
theorem exists_complete {v : String} (hv : v ∈ k.values) :
    ∃ found, (f.complete id sender [""]).1 = some found ∧ v ∈ found := by
  obtain ⟨p, hparameters, -⟩ := h.takes.exists_parameter
  have hprovider : c.providerAt 0 = some k.provider := by
    rw [Command.providerAt, hparameters]
    exact h.provider p (by simp [hparameters])
  have hoffers : c.OffersAt 0 sender v := ⟨k.provider, hprovider, _, rfl, hv⟩
  have hmem : v ∈ f.suggestions id sender "" :=
    (h.wellFormed.mem_suggestions_iff h.find? (h.takes.admits sender)).mpr
      ⟨continues_empty v, .inl hoffers⟩
  rw [suggestions] at hmem
  cases hfound : (f.complete id sender [""]).1 with
  | none => rw [hfound] at hmem; contradiction
  | some found => rw [hfound] at hmem; exact ⟨found, rfl, hmem⟩

/-- **One word** is answered with the first value for it. -/
theorem execute_word {word first : String} (hfirst : k.IsFirstFor word first) :
    let values := [Value.custom ⟨.text, first⟩]
    (f.execute id sender [word]).handled = true ∧ (f.execute id sender [word]).actions =
      [.answered id hook values ((Handler.echo hook).respond sender values)] := by
  intro values
  obtain ⟨p, hparameters, hkind⟩ := h.takes.exists_parameter
  have hprovider := h.provider p (by simp [hparameters])
  have hvalues : (convertAll c.providers c.parameters [word]).values = some values := by
    rw [hparameters, values_convertAll_singleton hkind hprovider,
      Choices.payload?_of_isFirstFor hfirst]
    rfl
  obtain ⟨hhandled, hattempt⟩ := actionsOf_attempt_of_bound hvalues sender id h.binding
  have hlog := log_execute_of_attempt h.wellFormed h.find? (h.takes.admits sender) hhandled
  have hactions : (f.execute id sender [word]).actions =
      [.answered id hook values ((Handler.echo hook).respond sender values)] := by
    rw [Outcome.actions, hlog, hattempt, h.takes.hook]
    rfl
  exact ⟨(handled_execute_iff h.wellFormed id sender [word]).1.mpr ⟨_, hactions⟩, hactions⟩

/-- Several words are not taken. -/
theorem actions_execute_words {words : List String} (hwords : 1 < words.length) :
    (f.execute id sender words).actions = if c.isAnonymous then [] else [.helped id] := by
  obtain ⟨p, hparameters, hkind⟩ := h.takes.exists_parameter
  have hnone : (convertAll c.providers c.parameters words).values = none := by
    rw [hparameters]
    exact values_convertAll_of_length_ne hkind (by omega)
  have hne : words ≠ [] := List.length_pos_iff.mp (by omega)
  rw [actions_execute_of_childless h.wellFormed h.find? h.takes.children (h.takes.admits sender)
    hnone]
  simp [hne]

end EchoesChoice

end Forest

/-! ## Sessions with one set of choices -/

namespace Terminal

/-- A session that was set up with one set of choices has a root that takes one
of them, under a label that can stand in front of a line. -/
structure Setup.OffersChoice (s : Setup) (spec : String) (k : Choices) (session : Session)
    (label : String) (root : CommandId) (c : Command) (hook : String) : Prop where
  read : Choices.read spec = .ok k
  choices : s.choices = [k]
  load : ∃ reports, s.load = .ok (session, reports)
  no_space : ' ' ∉ label.toList
  no_slash : label.toList.head? ≠ some '/'
  resolve : session.labels.resolve label = some root
  find? : session.forest.find? root = some c
  takes : c.TakesWord k.name hook

/-- The line calls the handler of a hook with the first value for a word. -/
def Session.CallsWithFirst (t : Session) (sender : Sender) (line : String) (id : CommandId)
    (hook : String) (k : Choices) (word : String) : Prop :=
  ∃ first, k.IsFirstFor word first ∧
    let values := [Value.custom ⟨.text, first⟩]
    let outcome := (t.dispatch sender line).1
    outcome.handled = true ∧
      outcome.actions = [.answered id hook values ((Handler.echo hook).respond sender values)]

/-- The commands of a session are commands with its choices and their echoing
handlers. -/
theorem Setup.exists_furnish_of_load {s : Setup} {session : Session} {reports : List Diagnostic}
    (h : s.load = .ok (session, reports)) {n : CommandId} {c : Command}
    (hc : session.forest.find? n = some c) : ∃ d : Command, d.furnish s.choices = c := by
  have hload := h
  rw [load] at h
  obtain ⟨definition, hdefinition, h⟩ := bind_eq_ok_iff.mp h
  obtain ⟨messages, hmessages, -⟩ := bind_eq_ok_iff.mp h
  obtain ⟨_, hloaded, -, -, hfind, -⟩ := exists_load_eq hdefinition hmessages
  cases hload.symm.trans hloaded
  rw [hfind, Option.map_eq_some_iff] at hc
  obtain ⟨d, -, hd⟩ := hc
  exact ⟨d, hd⟩

namespace Setup.OffersChoice

variable {s : Setup} {spec : String} {k : Choices} {session : Session} {label : String}
  {root : CommandId} {c : Command} {hook : String}
  (h : s.OffersChoice spec k session label root c hook)

include h

/-- The root finds the choices and is bound to the echo of its hook. -/
theorem echoesChoice :
    session.forest.EchoesChoice root c k hook ∧ session.forest.Faithful := by
  obtain ⟨reports, hload⟩ := h.load
  obtain ⟨hwf, hunsettled⟩ := unsettled_of_load hload
  obtain ⟨d, hd⟩ := exists_furnish_of_load hload h.find?
  refine ⟨⟨hwf, h.find?, h.takes, ?_, fun p hp => ?_⟩, hunsettled.faithful⟩
  · have hhook : d.hook = some hook := by
      rw [← h.takes.hook, ← hd]
      rfl
    rw [← hd, Command.furnish, hhook]
    rfl
  · have hkind : p.kind = .custom k.name := by
      obtain ⟨q, hq, hkind⟩ := h.takes.exists_parameter
      rw [hq] at hp
      rwa [List.mem_singleton.mp hp]
    have hfind : c.providers.find? k.name = some k.provider := by
      rw [← hd, h.choices]
      exact d.providers.find?_insert_self k.provider
    rw [Parameter.provider?, hkind]
    dsimp only
    rw [hunsettled root c h.find? p hp, hfind]
    rfl

variable (before : List Request)

/-- **The lines before** leave the label and the root as they are, but for
cells. -/
theorem later :
    let t := before.foldl Session.next session
    t.labels = session.labels ∧
      ∃ d, t.forest.EchoesChoice root d k hook ∧ d.isAnonymous = c.isAnonymous := by
  intro t
  obtain ⟨hechoes, hfaithful⟩ := h.echoesChoice
  have hforest : Forest.SameButCells session.forest session.forest :=
    ⟨rfl, hechoes.wellFormed, hfaithful, hechoes.wellFormed, hfaithful⟩
  have hsame : Session.SameButCells t session :=
    Session.SameButCells.foldl_next ⟨rfl, hforest⟩ before
  exact ⟨hsame.labels, hechoes.of_sameButCells hsame.forest (hfaithful root c h.find?)⟩

variable (sender : Sender) {v : String} (hv : v ∈ k.values)

include hv

/-- Every value is offered behind the label. -/
theorem exists_complete :
    let t := before.foldl Session.next session
    ∃ found, (t.complete sender (label ++ " ")).1 = some found ∧ v ∈ found := by
  intro t
  obtain ⟨hlabels, d, hechoes, -⟩ := h.later before
  obtain ⟨found, hfound, hmem⟩ := hechoes.exists_complete sender hv
  refine ⟨found, ?_, hmem⟩
  rw [Session.complete, Labels.continueLine_label h.no_space h.no_slash (hlabels ▸ h.resolve)]
  exact hfound

/-- A value behind the label is run piece by piece at the root. -/
theorem dispatch_eq :
    let t := before.foldl Session.next session
    (t.dispatch sender (label ++ " " ++ v)).1 =
      t.forest.execute root sender ((Text.pieces (· == ' ') v.toList).map String.ofList) := by
  intro t
  obtain ⟨hlabels, -⟩ := h.later before
  have hroot : t.labels.resolve label = some root := hlabels ▸ h.resolve
  obtain ⟨hne, htrim⟩ := Choices.of_mem_values h.read hv
  have hlast : v.toList.getLast? ≠ some ' ' := fun hspace => by
    have hblank := (Text.trim_eq_self_iff.mp htrim).2 ' ' hspace
    contradiction
  exact Labels.runLine_label h.no_space h.no_slash hroot t.forest sender hne hlast

/-- A value without a space calls the handler. -/
theorem callsWithFirst (hword : ' ' ∉ v.toList) :
    let t := before.foldl Session.next session
    t.CallsWithFirst sender (label ++ " " ++ v) root hook k v := by
  intro t
  obtain ⟨-, d, hechoes, -⟩ := h.later before
  obtain ⟨first, hfirst⟩ := Choices.exists_isFirstFor hv
  have hpieces : (Text.pieces (· == ' ') v.toList).map String.ofList = [v] := by
    rw [Text.pieces_of_all_not (Text.beq_eq_false_of_not_mem hword)]
    simp
  refine ⟨first, hfirst, ?_⟩
  rw [h.dispatch_eq before sender hv, hpieces]
  exact hechoes.execute_word sender hfirst

/-- A value with a space does not. -/
theorem actions_dispatch_of_space (hspace : ' ' ∈ v.toList) :
    ((before.foldl Session.next session).dispatch sender (label ++ " " ++ v)).1.actions =
      if c.isAnonymous then [] else [.helped root] := by
  obtain ⟨-, d, hechoes, hanonymous⟩ := h.later before
  have hmany : 1 < ((Text.pieces (· == ' ') v.toList).map String.ofList).length := by
    rw [List.length_map]
    exact Text.one_lt_length_pieces hspace
  rw [h.dispatch_eq before sender hv, hechoes.actions_execute_words sender hmany, hanonymous]

end Setup.OffersChoice

/-- **Choices of one word can be used**: take a session that was set up with one
set of choices, and a root that takes one of them and nothing else.  Whatever
lines came before, every value is offered behind the label of the root.  One
without a space calls the handler, with the first value that is the same in any
ASCII case.  One with a space is several words, and ends in the help of the
root, or nowhere if that is anonymous. -/
theorem single_word_choices_callable {s : Setup} {spec : String} {k : Choices} {session : Session}
    {label : String} {root : CommandId} {c : Command} {hook : String}
    (h : s.OffersChoice spec k session label root c hook) (before : List Request)
    (sender : Sender) {v : String} (hv : v ∈ k.values) :
    let t := before.foldl Session.next session
    (∃ found, (t.complete sender (label ++ " ")).1 = some found ∧ v ∈ found) ∧
    (' ' ∉ v.toList → t.CallsWithFirst sender (label ++ " " ++ v) root hook k v) ∧
    (' ' ∈ v.toList → (t.dispatch sender (label ++ " " ++ v)).1.actions =
      if c.isAnonymous then [] else [.helped root]) :=
  ⟨h.exists_complete before sender hv, h.callsWithFirst before sender hv,
    h.actions_dispatch_of_space before sender hv⟩

/-- A root with two names that takes a colour. -/
def easelSource : String := "paint,p *colour:c \x7b
hook paint
\x7d"

/-- Colours, one of them in two spellings and one of two words. -/
def easelSpec : String := "colour=red, Light Blue,,RED"

/-- The colours one by one. -/
def easelChoices : Choices := ⟨"colour", ["red", "Light Blue", "RED"]⟩

/-- The root with the colours. -/
def easel : Setup where
  definition := ⟨"easel.cmd", .ok easelSource.toUTF8⟩
  choices := [easelChoices]

theorem offersChoice_easel :
    ∃ session c, easel.OffersChoice easelSpec easelChoices session "P" 0 c "paint" ∧
      c.isAnonymous = false := by
  have hall : (easel.load.toOption.map fun x => (x.1.labels.resolve "P",
      (x.1.forest.find? 0).map fun c => (decide (c.TakesWord "colour" "paint"), c.isAnonymous))) =
      some (some 0, some (true, false)) := by
    decide +kernel
  cases hload : easel.load with
  | error e => rw [hload] at hall; contradiction
  | ok x =>
      rw [hload] at hall
      simp only [Except.toOption, Option.map_some, Option.some.injEq, Prod.mk.injEq,
        Option.map_eq_some_iff, decide_eq_true_eq] at hall
      obtain ⟨hresolve, c, hc, htakes, hnamed⟩ := hall
      have hoffers : easel.OffersChoice easelSpec easelChoices x.1 "P" 0 c "paint" :=
        ⟨rfl, rfl, ⟨x.2, hload⟩, by decide, by decide, hresolve, hc, htakes⟩
      exact ⟨x.1, c, hoffers, hnamed⟩

/-- After a completion, a colour is echoed in the spelling that comes first;
one of two words is offered, but ends in help. -/
theorem single_word_choices_callable_easel :
    let sender := Sender.ofGrants .player []
    ∃ session c, easel.OffersChoice easelSpec easelChoices session "P" 0 c "paint" ∧
      let t := [Request.complete sender "P "].foldl Session.next session
      (∃ found, (t.complete sender "P ").1 = some found ∧ "Light Blue" ∈ found) ∧
      t.CallsWithFirst sender "P RED" 0 "paint" easelChoices "RED" ∧
      easelChoices.IsFirstFor "RED" "red" ∧
      (t.dispatch sender "P Light Blue").1.actions = [.helped 0] := by
  intro sender
  obtain ⟨session, c, h, hnamed⟩ := offersChoice_easel
  obtain ⟨-, hcalls, -⟩ := single_word_choices_callable h [.complete sender "P "] sender
    (v := "RED") (by decide)
  obtain ⟨hoffered, -, hhelp⟩ := single_word_choices_callable h [.complete sender "P "] sender
    (v := "Light Blue") (by decide)
  have hactions := hhelp (by decide)
  rw [hnamed] at hactions
  have hfirst : easelChoices.IsFirstFor "RED" "red" := Choices.find?_eq_some_iff.mp (by decide)
  exact ⟨session, c, h, hoffered, hcalls (by decide), hfirst, hactions⟩

/-- **A choice of several words** cannot be used in a line, although it is
offered. -/
theorem not_forall_choices_callable :
    ¬ ∀ s spec k session label root c hook,
      Setup.OffersChoice s spec k session label root c hook → ∀ sender, ∀ v ∈ k.values,
        (∃ found, (session.complete sender (label ++ " ")).1 = some found ∧ v ∈ found) ∧
          session.CallsWithFirst sender (label ++ " " ++ v) root hook k v := by
  intro hall
  obtain ⟨session, c, h, hnamed⟩ := offersChoice_easel
  have hblue : "Light Blue" ∈ easelChoices.values := by decide
  let sender := Sender.ofGrants .player []
  obtain ⟨-, first, -, -, hcalls⟩ := hall _ _ _ _ _ _ _ _ h sender _ hblue
  have hhelp := h.actions_dispatch_of_space [] sender hblue (by decide)
  rw [hnamed] at hhelp
  cases hcalls.symm.trans hhelp

end Terminal

end CommandForest
