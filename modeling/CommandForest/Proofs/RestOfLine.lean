import CommandForest.Proofs.Layout
import CommandForest.Proofs.Positions

/-!
# CommandForest.Proofs.RestOfLine

The rest of a line reaches a handler as it was written.  On its way there, a
line loses a slash and is split at single spaces, empty words at its end are
dropped, a walk takes a word for each command that is not anonymous, and
conversion takes one for each parameter before the last.  What is left is
joined and trimmed.

* `Forest.HandsDown.exists_trail` counts the words that a walk takes.
* `Labels.exists_rest` undoes the splitting: the words from some word on, joined
  again, are the line from there on, up to blanks at its end.
-/

namespace CommandForest

/-! ## Words that a walk takes -/

namespace Forest

/-- How many of these commands are picked by a word of their own. -/
def picks (f : Forest) (ids : List CommandId) : Nat :=
  ids.countP fun k => (f.find? k).any fun c => !c.isAnonymous

theorem Trail.eq_cons_tail {f : Forest} {id n : CommandId} {above : List CommandId}
    (h : f.Trail id above n) : above ++ [n] = id :: (above ++ [n]).tail := by
  cases h <;> rfl

/-- **Words taken**: a walk takes one word for each command on the trail that
is not anonymous, the one it starts from apart. -/
theorem HandsDown.exists_trail {f : Forest} {id n : CommandId} {words left : List String}
    (h : f.HandsDown id words n left) :
    ∃ above, f.Trail id above n ∧ left = words.drop (f.picks (above ++ [n]).tail) := by
  induction h with
  | here id words => exact ⟨[], .here id, by simp [picks]⟩
  | @down id k n c d first rest words left hc hk hd hshare hway ih =>
      obtain ⟨above, htrail, rfl⟩ := ih
      refine ⟨id :: above, .down hc hk htrail, ?_⟩
      have hpath : (id :: above ++ [n]).tail = k :: (above ++ [n]).tail := htrail.eq_cons_tail
      rw [hpath]
      unfold Command.share at hshare
      cases hanonymous : d.isAnonymous with
      | true =>
          simp only [hanonymous, if_true, Option.some.injEq] at hshare
          subst hshare
          simp [picks, hd, hanonymous]
      | false =>
          simp only [hanonymous, Bool.false_eq_true, if_false] at hshare
          split at hshare
          · cases hshare
            simp [picks, hd, hanonymous]
          · contradiction

end Forest

/-! ## Words of a line -/

namespace Labels

/-- The line without the slash that may lead it. -/
def body (line : String) : List Char :=
  match line.toList with
  | '/' :: rest => rest
  | whole => whole

theorem lineWords_eq (line : String) :
    lineWords line =
      if (body line).isEmpty then [] else (Text.pieces (· == ' ') (body line)).map String.ofList :=
  rfl

/-- Only empty words are dropped. -/
theorem exists_empties (words : List String) :
    ∃ empties, words = dropTrailingEmpty words ++ empties ∧ ∀ w ∈ empties, w = "" := by
  refine ⟨(words.reverse.takeWhile String.isEmpty).reverse, ?_, ?_⟩
  · rw [dropTrailingEmpty, ← List.reverse_append, List.takeWhile_append_dropWhile,
      List.reverse_reverse]
  · intro w hw
    have := List.mem_takeWhile_imp (List.mem_reverse.mp hw)
    simpa using this

/-- Blanks at the end of the line are all that dropping empty words loses. -/
theorem trimmed_joined_append {words empties : List String} (hne : words ≠ [])
    (h : ∀ w ∈ empties, w = "") :
    Text.trimmed (Text.joined " " words) = String.ofList (Text.trim
      (List.intercalate [' '] ((words ++ empties).map String.toList))) := by
  have hspaces : ∀ c ∈ (empties.map String.toList).flatMap (' ' :: ·), Text.isBlank c = true := by
    intro c hc
    obtain ⟨s, hs, hc⟩ := List.mem_flatMap.mp hc
    obtain ⟨w, hw, rfl⟩ := List.mem_map.mp hs
    obtain rfl : c = ' ' := by simpa [h w hw] using hc
    decide
  rw [List.map_append, Text.intercalate_append_right ' ' (by simpa using hne),
    Text.trim_append_blanks hspaces]
  simp [Text.trimmed, Text.joined]

/-- **Splitting undone**: the words from the `n`th on, joined again, are what
follows the first `n` pieces of the line and the space after each of them, up
to blanks at the end. -/
theorem exists_rest {line : String} {words : List String}
    (hwords : dropTrailingEmpty (lineWords line) = words) {n : Nat} (hn : n < words.length) :
    ∃ (removed : List (List Char)) (rest : List Char),
      removed.map String.ofList = words.take n ∧ (∀ piece ∈ removed, ' ' ∉ piece) ∧
      body line = (removed.flatMap fun piece => piece ++ [' ']) ++ rest ∧
      Text.trimmed (Text.joined " " (words.drop n)) = String.ofList (Text.trim rest) := by
  let all := Text.pieces (· == ' ') (body line)
  obtain ⟨empties, hall, hempty⟩ := exists_empties (lineWords line)
  rw [hwords] at hall
  have hpieces : all.map String.ofList = words ++ empties := by
    rw [lineWords_eq] at hall
    split at hall
    · -- an empty line has no words
      simp [(List.append_eq_nil_iff.mp hall.symm).1] at hn
    · exact hall
  have hchars : all = (words ++ empties).map String.toList := by
    rw [← hpieces, List.map_map]
    exact (List.map_id'' (fun _ => String.toList_ofList) all).symm
  have hmore : all.drop n ≠ [] := by
    rw [hchars, Ne, List.drop_eq_nil_iff, List.length_map, List.length_append]
    omega
  refine ⟨all.take n, List.intercalate [' '] (all.drop n), ?_, ?_, ?_, ?_⟩
  · rw [List.map_take, hpieces, List.take_append_of_le_length (Nat.le_of_lt hn)]
  · intro piece hpiece hspace
    have := (Text.of_mem_pieces (List.mem_of_mem_take hpiece) ' ' hspace).2
    contradiction
  · rw [← Text.intercalate_append_left ' ' _ hmore, List.take_append_drop, Text.intercalate_pieces]
  · rw [hchars, ← List.map_drop, List.drop_append_of_le_length (Nat.le_of_lt hn)]
    exact trimmed_joined_append (by simpa using hn) hempty

/-- What a line that calls a handler goes through: its first word is the label
of a root, and the command answers the words that the walk has left there. -/
theorem exists_of_answered {f : Forest} (hf : f.WellFormed) {ls : Labels} {sender : Sender}
    {line : String} {m : CommandId} {hook : String} {values : List Value} {response : Response}
    (h : .answered m hook values response ∈ (ls.runLine f sender line).actions) :
    ∃ label tokens root left c, dropTrailingEmpty (lineWords line) = label :: tokens ∧
      ls.resolve label = some root ∧ f.HandsDown root tokens m left ∧ f.find? m = some c ∧
      (convertAll c.providers c.parameters left).values = some values := by
  unfold runLine at h
  cases hwords : dropTrailingEmpty (lineWords line) with
  | nil => simp [hwords, Outcome.actions, actionsOf] at h
  | cons label tokens =>
      rw [hwords] at h
      cases hroot : ls.resolve label with
      | none => simp [dispatch, hroot, Outcome.actions, actionsOf] at h
      | some root =>
          simp only [dispatch, hroot] at h
          have honly := (hf.actions_eq_of_mem h).1
          obtain ⟨left, hway, c, hc, hvalues⟩ := Forest.exists_handsDown_of_actions hf honly
          exact ⟨label, tokens, root, left, c, rfl, hroot, hway, hc, hvalues⟩

/-- The last value is the rest of the line as it was written, trimmed.  Without
a leading slash, the line is made up of the label of a root, pieces without
spaces, and the rest, with one space between each two.  There is a piece for
each command on the trail from the root that is not anonymous, and one for each
value but the last. -/
def EndsAsWritten (ls : Labels) (f : Forest) (line : String) (m : CommandId)
    (values : List Value) : Prop :=
  ∃ (label : List Char) (root : CommandId) (above : List CommandId) (pieces : List (List Char))
    (rest : List Char),
    ls.resolve (String.ofList label) = some root ∧ f.Trail root above m ∧
    pieces.length = f.picks (above ++ [m]).tail + (values.length - 1) ∧
    (∀ piece ∈ label :: pieces, ' ' ∉ piece) ∧
    body line = ((label :: pieces).flatMap fun piece => piece ++ [' ']) ++ rest ∧
    values.getLast? = some (.string (String.ofList (Text.trim rest)))

/-- **The rest of a line stays as it was written**: take a line that calls the
handler of a command whose last parameter, and no other, takes the rest of the
line.  The handler gets a value for each parameter, and as the last one what
follows the words for the commands and for the other parameters, with all the
spaces inside. -/
theorem rest_of_line_as_written {f : Forest} (hf : f.Reachable) (ls : Labels) (sender : Sender)
    (line : String) {m : CommandId} {hook : String} {values : List Value} {response : Response}
    (h : .answered m hook values response ∈ (ls.runLine f sender line).actions) {c : Command}
    (hc : f.find? m = some c) (hrest : c.RestIsLast) {p : Parameter}
    (hp : c.parameters.getLast? = some p) (htakes : p.takesRest = true) :
    values.length = c.parameters.length ∧ ls.EndsAsWritten f line m values := by
  obtain ⟨name, tokens, root, left, d, hwords, hroot, hway, hd, hvalues⟩ :=
    exists_of_answered hf.wellFormed h
  cases hc.symm.trans hd
  obtain ⟨hfits, hrun⟩ := run_of_convertAll hvalues
  have hlength := length_of_run hrest hrun
  have hlast := getLast?_of_convertAll hrest hp htakes hvalues
  obtain ⟨above, htrail, rfl⟩ := hway.exists_trail
  -- the label, the words that the walk takes, and those of the other parameters
  let n := f.picks (above ++ [m]).tail + (values.length - 1)
  have hmany := length_le_of_fits hfits
  have hsome : 0 < c.parameters.length :=
    List.length_pos_of_ne_nil (by rintro hnil; simp [hnil] at hp)
  have hn : n + 1 < (name :: tokens).length := by
    simp only [List.length_drop, List.length_cons, n] at hmany ⊢
    omega
  obtain ⟨removed, rest, hremoved, hspaces, hbody, htrim⟩ := exists_rest hwords hn
  cases removed with
  | nil => simp at hremoved
  | cons label pieces =>
      simp only [List.map_cons, List.take_succ_cons, List.cons.injEq] at hremoved
      obtain ⟨rfl, hpieces⟩ := hremoved
      refine ⟨hlength, label, root, above, pieces, rest, hroot, htrail, ?_, hspaces, hbody, ?_⟩
      · have hcount := congrArg List.length hpieces
        simp only [List.length_map, List.length_take, List.length_cons] at hcount hn
        omega
      · rw [hlast, ← hlength, Conversion.restOfLine, List.drop_drop, ← htrim, List.drop_succ_cons]

/-- Whom a letter is for, and what it says. -/
def postParameters : List Parameter := [⟨"string", "to", none⟩, ⟨"multistring", "text", none⟩]

/-- A root with an anonymous command, and one below that for letters. -/
def post : Forest :=
  ({} : Forest).run [
    .appendRoot { aliases := ["mail"] },
    .appendUnder 0 { aliases := ["_"] },
    .appendUnder 1 { aliases := ["send"], hook := some "send", parameters := postParameters },
    .bind 0 ⟨[("send", .echo "send")]⟩]

/-- The label of the root. -/
def postLabels : Labels := ⟨[("mail", ⟨0, "Letters"⟩)]⟩

/-- The spaces inside a letter are kept. -/
theorem rest_of_line_as_written_post :
    let sender := Sender.ofGrants .player []
    let line := "/mail send bob  good   morning  "
    let values := [Value.string "bob", .string "good   morning"]
    (postLabels.runLine post sender line).actions =
      [.answered 2 "send" values ((Handler.echo "send").respond sender values)] ∧
    postLabels.EndsAsWritten post line 2 values := by
  intro sender line values
  have hreachable : post.Reachable := Forest.Reachable.empty.run _
  have hwords : dropTrailingEmpty (lineWords line) =
      ["mail", "send", "bob", "", "good", "", "", "morning"] := by decide
  have hactions : (postLabels.runLine post sender line).actions =
      [.answered 2 "send" values ((Handler.echo "send").respond sender values)] := by
    rw [runLine, hwords]
    rfl
  have hends := rest_of_line_as_written hreachable postLabels sender line
    (hactions ▸ List.mem_singleton_self _) rfl (by decide) rfl rfl
  exact ⟨hactions, hends.2⟩

end Labels

end CommandForest
