import CommandForest.Proofs.Descent
import CommandForest.Proofs.Folding

/-!
# CommandForest.Proofs.Candidates

What completion answers with.

* Wherever the search ends, the answer is a list without repeats that is not
  empty, and all that stands in it continues the last word in any case
  (`Branch.complete_sound`).
* For a single word the answer comes from the children, from the names of the
  command itself and from the provider of its first parameter, and leaves out
  no child that could be meant (`Forest.complete_sound_and_complete`).

A child whose name does not go on from the word is offered under those of its
aliases that do, and a child whose name does is offered under its name, so no
child is lost between the two (`Command.exists_mem_offeredNames`).
-/

namespace CommandForest

/-- Folding a word a second time changes nothing. -/
theorem Text.folded_folded (word : String) : folded (folded word) = folded word :=
  lowered_trimmed_idem word

/-- What is left after repeats are dropped has none. -/
theorem nodup_eraseDups {α : Type} [BEq α] [LawfulBEq α] : (l : List α) → l.eraseDups.Nodup
  | [] => by simp
  | a :: l => by
      rw [List.eraseDups_cons, List.nodup_cons]
      exact ⟨by simp, nodup_eraseDups _⟩
termination_by l => l.length
decreasing_by exact Nat.lt_succ_of_le (List.length_filter_le _ l)

/-- Every text continues the empty one. -/
theorem continues_empty (candidate : String) : continues "" candidate = true := by
  rw [continues, Text.begins]
  rfl

/-- A provider asked with a folded word offers what continues it. -/
theorem Provider.mem_complete_iff {p : Provider} {word x : String} {sender : Sender} :
    x ∈ p.complete (Text.folded word) sender ↔
      (∃ offers, p.offers = some offers ∧ x ∈ offers sender) ∧
        continues (Text.folded word) x = true := by
  have hfolded : Text.lowered (Text.trimmed (Text.folded word)) = Text.folded word :=
    Text.folded_folded word
  rw [Provider.complete]
  cases hoffers : p.offers with
  | none => simp
  | some offers =>
      dsimp only
      rw [hfolded, List.mem_filter, ← continues]
      simp

namespace Command

variable {c : Command} {sender : Sender} {typed word x : String}

/-- The name is one of the aliases, if there are any. -/
theorem name_mem_aliases (h : c.aliases ≠ []) : c.name ∈ c.aliases := by
  obtain ⟨a, more, haliases⟩ := List.exists_cons_of_ne_nil h
  rw [name, haliases]
  exact List.mem_cons_self

/-- The provider of the parameter at a position offers a word to a sender. -/
def OffersAt (c : Command) (position : Nat) (sender : Sender) (x : String) : Prop :=
  ∃ p, c.providerAt position = some p ∧ ∃ offers, p.offers = some offers ∧ x ∈ offers sender

/-- The candidates without their order. -/
theorem mem_candidates_iff {children : List Command} {count : Nat} :
    x ∈ c.candidates children sender count typed (Text.folded word) ↔
      continues (Text.folded word) x = true ∧
        (c.OffersAt (count - 1) sender x ∨
          count = 1 ∧ ((∃ d ∈ children, x ∈ d.offeredNames typed (Text.folded word)) ∨
            c.isAnonymous = false ∧ c.answersTo (Text.folded word) = true ∧ x ∈ c.aliases)) := by
  rw [candidates, List.mem_eraseDups, List.mem_filter, List.mem_append, and_comm]
  refine and_congr_right fun hx => or_congr ?_ ?_
  · rw [OffersAt]
    cases hp : c.providerAt (count - 1) with
    | none => simp
    | some p =>
        dsimp only
        rw [Provider.mem_complete_iff]
        simp [hx]
  · by_cases hcount : count = 1
    · rw [if_pos hcount, List.mem_append, List.mem_flatMap]
      simp only [hcount, true_and]
      refine or_congr_right ?_
      cases c.isAnonymous <;> cases c.answersTo (Text.folded word) <;> simp
    · simp [hcount]

/-- A command is offered under nothing but its aliases. -/
theorem mem_aliases_of_offeredNames {start : String} (haliases : c.aliases ≠ [])
    (h : x ∈ c.offeredNames typed start) : c.isAnonymous = false ∧ x ∈ c.aliases := by
  rw [offeredNames] at h
  cases hnamed : c.isAnonymous with
  | true => simp [hnamed] at h
  | false =>
      refine ⟨rfl, ?_⟩
      rw [hnamed, if_neg Bool.false_ne_true] at h
      rcases List.mem_cons.mp h with rfl | h
      · exact name_mem_aliases haliases
      · split at h
        · exact (List.mem_filter.mp h).1
        · contradiction

/-- **No child is lost**: a named command is offered under its name if that
continues the word, and under every alias that does so otherwise. -/
theorem exists_mem_offeredNames {word : String} (hnamed : c.isAnonymous = false)
    {a : String} (ha : a ∈ c.aliases) (hgoes : continues (Text.folded word) a = true) :
    ∃ b ∈ c.aliases, continues (Text.folded word) b = true ∧
      b ∈ c.offeredNames word (Text.folded word) := by
  rw [offeredNames, hnamed, if_neg Bool.false_ne_true]
  cases hname : continues (Text.folded word) c.name with
  | true =>
      exact ⟨c.name, name_mem_aliases (List.ne_nil_of_mem ha), hname, List.mem_cons_self⟩
  | false =>
      have htyped : word.isEmpty = false := by
        by_contra hempty
        rw [Bool.not_eq_false, String.isEmpty_iff] at hempty
        subst hempty
        rw [show Text.folded "" = "" from rfl, continues_empty] at hname
        contradiction
      refine ⟨a, ha, hgoes, List.mem_cons_of_mem _ ?_⟩
      simp [htyped, ha, hgoes]

end Command

/-! ## Wherever the search ends -/

/-- The answer `cs` to `tokens` has something in it, nothing twice, and only
what continues the last word. -/
def Continuations (tokens cs : List String) : Prop :=
  cs ≠ [] ∧ cs.Nodup ∧ ∃ last, tokens.getLast? = some last ∧
    ∀ x ∈ cs, continues (Text.folded last) x = true

namespace Branch

variable {sender : Sender}

/-- The answer of a command that admits the sender is its own, or if it has
none the one from below. -/
theorem candidates_complete {id : CommandId} {c : Command} {bs : List Branch}
    {first last : String} {rest : List String} (hadmits : c.Admits sender)
    (hlast : (first :: rest).getLast? = some last) :
    ((mk id c bs).complete sender (first :: rest)).candidates =
      if (c.candidates (bs.map command) sender (rest.length + 1) last
          (Text.folded last)).isEmpty then
        (completeAmong sender bs (Text.folded first) rest).candidates
      else
        some (c.candidates (bs.map command) sender (rest.length + 1) last (Text.folded last)) := by
  have htyped : (first :: rest).getLastD first = last := by
    rw [List.getLastD_eq_getLast?, hlast, Option.getD_some]
  rw [complete, Command.denial_eq_none_iff.mpr hadmits]
  dsimp only
  rw [htyped, Option.isSome_none, if_neg Bool.false_ne_true, ← Text.folded, ← Text.folded]
  split <;> rfl

mutual

theorem complete_sound : (b : Branch) → (tokens : List String) → {cs : List String} →
    (b.complete sender tokens).candidates = some cs → Continuations tokens cs
  | mk id c bs, tokens, cs, h => by
      cases tokens with
      | nil => rw [complete] at h; contradiction
      | cons first rest =>
          cases hdenial : c.denial sender with
          | some denial =>
              rw [complete, hdenial] at h
              contradiction
          | none =>
              obtain ⟨last, hlast⟩ : ∃ last, (first :: rest).getLast? = some last :=
                ⟨_, List.getLast?_cons⟩
              rw [candidates_complete (Command.denial_eq_none_iff.mp hdenial) hlast] at h
              split at h
              · -- nothing here, so the answer is from below, to the words that are left
                obtain ⟨hne, hnodup, last', hlast', hall⟩ := completeAmong_sound bs _ rest h
                exact ⟨hne, hnodup, last', by rw [List.getLast?_cons, hlast']; rfl, hall⟩
              · next hsome =>
                obtain rfl := Option.some.inj h
                refine ⟨?_, nodup_eraseDups _, last, hlast, fun x hx => ?_⟩
                · exact fun hnil => hsome (List.isEmpty_iff.mpr hnil)
                · exact (Command.mem_candidates_iff.mp hx).1

theorem completeAmong_sound : (bs : List Branch) → (name : String) → (rest : List String) →
    {cs : List String} → (completeAmong sender bs name rest).candidates = some cs →
    Continuations rest cs
  | [], _, _, _, h => by rw [completeAmong] at h; contradiction
  | b :: bs, name, rest, cs, h => by
      rw [completeAmong] at h
      split at h
      · contradiction
      · split at h
        · exact complete_sound b rest h
        · exact completeAmong_sound bs name rest h

end

/-- There is nothing to find below without words. -/
theorem completeAmong_nil (bs : List Branch) (name : String) :
    (completeAmong sender bs name []).candidates = none := by
  induction bs with
  | nil => rfl
  | cons b bs ih =>
      rw [completeAmong]
      split
      · rfl
      · split
        · cases b
          rw [complete]
        · exact ih

end Branch

namespace Forest

/-! ## A single word -/

/-- The answer to a single word, which is empty if there is none. -/
def suggestions (f : Forest) (id : CommandId) (sender : Sender) (word : String) : List String :=
  (f.complete id sender [word]).1.getD []

theorem WellFormed.mem_suggestions_iff {f : Forest} (hf : f.WellFormed) {n : CommandId}
    {c : Command} (hc : f.find? n = some c) {sender : Sender} (hadmits : c.Admits sender)
    {word x : String} :
    x ∈ f.suggestions n sender word ↔ continues (Text.folded word) x = true ∧
      (c.OffersAt 0 sender x ∨
        (∃ k ∈ c.children, ∃ d, f.find? k = some d ∧
          x ∈ d.offeredNames word (Text.folded word)) ∨
        c.isAnonymous = false ∧ c.answersTo (Text.folded word) = true ∧ x ∈ c.aliases) := by
  obtain ⟨bs, -, hb⟩ := hf.exists_branch hc
  have hchildren : ∀ d, d ∈ bs.map Branch.command ↔ ∃ k ∈ c.children, f.find? k = some d := by
    intro d
    rw [List.mem_map]
    constructor
    · rintro ⟨b, hmem, rfl⟩
      obtain ⟨hholds, hk⟩ := hb.of_mem hf hmem
      exact ⟨b.id, hk, hholds.find?_id hf⟩
    · rintro ⟨k, hk, hd⟩
      obtain ⟨below, hbranch, -⟩ := hf.exists_branch hd
      obtain ⟨-, rfl⟩ := hb.find? hf
      exact ⟨_, List.mem_filterMap.mpr ⟨k, hk, hbranch⟩, rfl⟩
  have hanswer : f.suggestions n sender word =
      c.candidates (bs.map Branch.command) sender 1 word (Text.folded word) := by
    have hcomplete := complete_eq_of_holds hb sender [word]
    rw [Branch.candidates_complete hadmits rfl, Branch.completeAmong_nil] at hcomplete
    rw [Branch.id] at hcomplete
    rw [suggestions, hcomplete]
    split
    · next hempty => exact (List.isEmpty_iff.mp hempty).symm
    · rfl
  rw [hanswer, Command.mem_candidates_iff]
  simp only [hchildren, true_and]
  refine and_congr_right fun _ => or_congr_right (or_congr_left ?_)
  constructor
  · rintro ⟨d, ⟨k, hk, hd⟩, hx⟩
    exact ⟨k, hk, d, hd, hx⟩
  · rintro ⟨k, hk, d, hd, hx⟩
    exact ⟨d, ⟨k, hk, hd⟩, hx⟩

/-- **Completion answers** are sound: what they hold continues the last word.
For a single word they are complete: they leave out nothing that the provider
of the first parameter offers, and no named child that could be meant. -/
theorem complete_sound_and_complete {f : Forest} (hf : f.Reachable) (sender : Sender) :
    (∀ id tokens cs, (f.complete id sender tokens).1 = some cs → Continuations tokens cs) ∧
    ((∀ id c, f.find? id = some c → c.aliases ≠ []) →
      ∀ n c word, f.find? n = some c → c.Admits sender →
      (∀ x ∈ f.suggestions n sender word,
        (∃ k ∈ c.children, ∃ d, f.find? k = some d ∧ d.isAnonymous = false ∧ x ∈ d.aliases) ∨
          x ∈ c.aliases ∨ c.OffersAt 0 sender x) ∧
      (∀ x, c.OffersAt 0 sender x → continues (Text.folded word) x = true →
        x ∈ f.suggestions n sender word) ∧
      (∀ k ∈ c.children, ∀ d, f.find? k = some d → d.isAnonymous = false →
        (∃ a ∈ d.aliases, continues (Text.folded word) a = true) →
        (∃ a ∈ d.aliases, continues (Text.folded word) a = true ∧
          a ∈ f.suggestions n sender word) ∧
        (Text.folded word = "" →
          d.name ∈ d.aliases ∧ d.name ∈ f.suggestions n sender word))) := by
  have hwf := hf.wellFormed
  constructor
  · intro id tokens cs h
    rw [complete] at h
    split at h
    · contradiction
    · exact Branch.complete_sound _ tokens h
  · intro haliases n c word hc hadmits
    have hmem : ∀ {x : String}, x ∈ f.suggestions n sender word ↔ _ :=
      hwf.mem_suggestions_iff hc hadmits
    refine ⟨fun x hx => ?_, fun x hoffer hgoes => hmem.mpr ⟨hgoes, .inl hoffer⟩, ?_⟩
    · rcases (hmem.mp hx).2 with hoffer | ⟨k, hk, d, hd, hoffered⟩ | ⟨-, -, hown⟩
      · exact .inr (.inr hoffer)
      · exact .inl ⟨k, hk, d, hd, Command.mem_aliases_of_offeredNames (haliases k d hd) hoffered⟩
      · exact .inr (.inl hown)
    · rintro k hk d hd hnamed ⟨a, ha, hgoes⟩
      constructor
      · obtain ⟨b, hb, hcontinues, hoffered⟩ := Command.exists_mem_offeredNames hnamed ha hgoes
        exact ⟨b, hb, hcontinues, hmem.mpr ⟨hcontinues, .inr (.inl ⟨k, hk, d, hd, hoffered⟩)⟩⟩
      · intro hempty
        refine ⟨Command.name_mem_aliases (List.ne_nil_of_mem ha), hmem.mpr ⟨?_, ?_⟩⟩
        · rw [hempty]
          exact continues_empty d.name
        · refine .inr (.inl ⟨k, hk, d, hd, ?_⟩)
          rw [Command.offeredNames, hnamed, if_neg Bool.false_ne_true]
          exact List.mem_cons_self

/-- A command with a provider of colours for its parameter, and one child of
two names. -/
def paintbox : Forest :=
  ({} : Forest).run [
    .appendRoot { aliases := ["paint"], parameters := [{ rawType := "colour", name := "c" }] },
    .appendUnder 0 { aliases := ["Erase", "rub"] },
    .provide 0 (.choiceOf "colour" ["Red", "blue"])]

theorem reachable_paintbox : paintbox.Reachable := Reachable.empty.run _

/-- The word `R` is continued by a colour and by the second name of the child,
and with nothing typed the child is offered under its first name. -/
theorem complete_sound_and_complete_paintbox :
    Continuations ["r"] ["Red", "rub"] ∧
    "Red" ∈ paintbox.suggestions 0 (.ofGrants .player []) " R" ∧
    (∃ a ∈ ["Erase", "rub"], continues (Text.folded " R") a = true ∧
      a ∈ paintbox.suggestions 0 (.ofGrants .player []) " R") ∧
    "Erase" ∈ paintbox.suggestions 0 (.ofGrants .player []) "" := by
  obtain ⟨hsound, hcomplete⟩ := complete_sound_and_complete reachable_paintbox
    (.ofGrants .player [])
  have haliases : ∀ id c, paintbox.find? id = some c → c.aliases ≠ [] := by
    have hall : ∀ c ∈ paintbox.commands.toList, c.aliases ≠ [] := by decide
    intro id c hc
    exact hall c (Array.mem_of_getElem? hc).val
  have hadmits : ∀ c, paintbox.find? 0 = some c → c.Admits (.ofGrants .player []) := by
    intro c hc
    cases hc
    exact Command.denial_eq_none_iff.mp rfl
  have hhere := fun word => hcomplete haliases 0 _ word rfl (hadmits _ rfl)
  refine ⟨hsound 0 _ _ (by decide +kernel), ?_, ?_, ?_⟩
  · exact (hhere " R").2.1 "Red" ⟨_, rfl, _, rfl, by decide⟩ (by decide +kernel)
  · exact ((hhere " R").2.2 1 (by decide) _ rfl (by decide) ⟨"rub", by decide, by decide +kernel⟩).1
  · exact (((hhere "").2.2 1 (by decide) _ rfl (by decide)
      ⟨"rub", by decide, by decide +kernel⟩).2 (by decide +kernel)).2

end Forest

end CommandForest
