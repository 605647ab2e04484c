import CommandForest.Proofs.Representable
import CommandForest.Proofs.Subtree

/-!
# CommandForest.Proofs.RoundTrip

A definition that was written from a forest reads back as the same forest, as
far as outlines go, exactly if all its commands are representable.

* One direction follows the pass over the lines that were written: what a
  command writes leads the pass, with any stack, to where a command with this
  outline is delivered (`Scan.run_sourceLines`).
* The other is what reading produces at all (`Scan.Writable.run`): if the
  outlines that come back are the same, they are representable themselves.
-/

namespace CommandForest

/-! ## Lines -/

/-- Indentation does not count. -/
theorem Outline.trim_indented (depth : Nat) {text : List Char} (h : Text.trim text = text) :
    Text.trim (indented depth text) = text := by
  rw [indented, Text.trim_append_of_blank, h]
  intro c hc
  rw [List.eq_of_mem_replicate hc]
  decide

theorem Outline.not_mem_indented {depth : Nat} {text : List Char} (h : '\n' ∉ text) :
    '\n' ∉ indented depth text := by
  rw [indented, List.mem_append]
  rintro (hpad | htext)
  · have := List.eq_of_mem_replicate hpad
    contradiction
  · exact h htext

/-! ## Headers -/

/-- Words that are parameters one by one can be read together. -/
theorem Parameter.exists_map_read? {ts : List String}
    (h : ∀ t ∈ ts, ∃ p, Parameter.read? t.toList = some p) :
    ∃ ps : List Parameter, (ts.map String.toList).map Parameter.read? = ps.map some ∧
      ps.map Parameter.token = ts := by
  induction ts with
  | nil => exact ⟨[], rfl, rfl⟩
  | cons t rest ih =>
      obtain ⟨p, hp⟩ := h t List.mem_cons_self
      obtain ⟨ps, hread, htokens⟩ := ih fun t' ht => h t' (List.mem_cons_of_mem t ht)
      refine ⟨p :: ps, ?_, ?_⟩
      · rw [List.map_cons, List.map_cons, List.map_cons, hp, hread]
      · rw [List.map_cons, htokens, String.toList_inj.mp (Parameter.token_of_read? hp)]

namespace Outline.Representable

variable {o : Outline}

/-- The first word of a header. -/
theorem toList_joined (o : Outline) :
    (Text.joined "," o.aliases).toList = List.intercalate [','] (o.aliases.map String.toList) := by
  rw [Text.joined, String.toList_ofList]
  rfl

/-- The names of a header are the pieces of its first word. -/
theorem pieces_joined (h : o.Representable) :
    Text.pieces (· == ',') (Text.joined "," o.aliases).toList = o.aliases.map String.toList := by
  rw [toList_joined]
  refine Text.pieces_intercalate rfl (by simpa using h.aliases_ne_nil) ?_
  intro s hs
  obtain ⟨a, ha, rfl⟩ := List.mem_map.mp hs
  exact Text.beq_eq_false_of_not_mem (h.aliases a ha).2.1

/-- The first word of a header is a word. -/
theorem word_joined (h : o.Representable) :
    (Text.joined "," o.aliases).toList ≠ [] ∧
      ∀ c ∈ (Text.joined "," o.aliases).toList, Text.isBlank c = false := by
  constructor
  · intro hnil
    have hpieces := h.pieces_joined
    rw [hnil, Text.pieces, eq_comm, List.map_eq_singleton_iff] at hpieces
    obtain ⟨a, ha, hempty⟩ := hpieces
    exact (h.aliases a (by simp [ha])).1 (String.toList_eq_nil_iff.mp hempty)
  · intro c hc
    rw [toList_joined] at hc
    rcases Text.mem_of_mem_intercalate hc with rfl | ⟨s, hs, hc⟩
    · decide
    · obtain ⟨a, ha, rfl⟩ := List.mem_map.mp hs
      exact (h.aliases a ha).2.2 c hc

/-- The words of a header are its names and its parameters. -/
theorem words_header (h : o.Representable) :
    Text.words (o.header ++ [' ']) =
      (Text.joined "," o.aliases).toList :: o.parameters.map String.toList := by
  have hwords : ∀ w ∈ (Text.joined "," o.aliases).toList :: o.parameters.map String.toList,
      w ≠ [] ∧ ∀ c ∈ w, Text.isBlank c = false := by
    intro w hw
    rcases List.mem_cons.mp hw with rfl | hw
    · exact h.word_joined
    · obtain ⟨t, ht, rfl⟩ := List.mem_map.mp hw
      obtain ⟨hblank, p, hp⟩ := h.parameters t ht
      refine ⟨?_, hblank⟩
      intro hnil
      rw [hnil] at hp
      contradiction
  rw [← Text.words_flatMap hwords, header, List.flatMap_map]

/-- The parameters of a header can be read. -/
theorem exists_readParameters (h : o.Representable) (number : Nat) :
    ∃ ps, Line.readParameters number false (o.parameters.map String.toList) = .ok ps ∧
      ps.map Parameter.token = o.parameters := by
  obtain ⟨ps, hread, htokens⟩ := Parameter.exists_map_read? fun t ht => (h.parameters t ht).2
  refine ⟨ps, Line.readParameters_eq_ok_iff.mpr ⟨hread, by simp, ?_⟩, htokens⟩
  intro p hp
  have hmem : p.token ∈ o.parameters.dropLast := by
    rw [← htokens, ← List.map_dropLast]
    exact List.mem_map.mpr ⟨p, hp, rfl⟩
  exact h.before_last _ hmem p (Line.token_of_map_read? hread (List.dropLast_subset ps hp)).2

/-- A header is not changed by trimming. -/
theorem trim_header (h : o.Representable) :
    Text.trim (o.header ++ [' ', '\x7b']) = o.header ++ [' ', '\x7b'] := by
  obtain ⟨hne, hblank⟩ := h.word_joined
  rw [Text.trim_eq_self_iff]
  constructor
  · intro c hc
    refine hblank c (List.mem_of_head? ?_)
    obtain ⟨d, rest, hword⟩ := List.exists_cons_of_ne_nil hne
    rw [header, hword] at hc
    rw [hword]
    exact hc
  · intro c hc
    rw [List.getLast?_append_of_ne_nil _ (by simp)] at hc
    cases hc
    decide

/-- **Headers** read back. -/
theorem exists_readHeader (h : o.Representable) (number : Nat) :
    ∃ ps, Line.readHeader ⟨number, o.header ++ [' ', '\x7b']⟩ =
        .ok { aliases := o.aliases, parameters := ps, line := some number } ∧
      ps.map Parameter.token = o.parameters := by
  obtain ⟨ps, hparams, htokens⟩ := h.exists_readParameters number
  refine ⟨ps, Line.readHeader_eq_ok_iff.mpr ?_, htokens⟩
  refine ⟨(Text.joined "," o.aliases).toList, o.parameters.map String.toList, ps, ?_, ?_,
    hparams, ?_⟩
  · have hopens : Line.opens ⟨number, o.header ++ [' ', '\x7b']⟩ = true := by
      simp [Line.opens]
    rw [if_pos hopens, ← h.words_header, show [' ', '\x7b'] = [' '] ++ ['\x7b'] from rfl,
      ← List.append_assoc, List.dropLast_concat]
  · rw [h.pieces_joined]
    intro name hname hnil
    obtain ⟨a, ha, rfl⟩ := List.mem_map.mp hname
    exact (h.aliases a ha).1 (String.toList_eq_nil_iff.mp hnil)
  · rw [h.pieces_joined, List.map_map]
    congr 1
    exact (List.map_id'' (fun a => String.ofList_toList) o.aliases).symm

end Outline.Representable

/-! ## Directives -/

namespace Line.Directive

/-- The line that states a directive. -/
def written (d : Directive) : List Char := d.keyword.toList ++ d.value

theorem getLast?_written {d : Directive} (hd : d.Stateable) :
    d.written.getLast? = some 'b' ∨
      d.written.getLast? = d.value.getLast? ∧ Text.IsValue d.value := by
  rcases hd with rfl | hvalue
  · exact .inl rfl
  · exact .inr ⟨List.getLast?_append_of_ne_nil _ hvalue.1, hvalue⟩

/-- The line of a directive is not changed by trimming. -/
theorem trim_written {d : Directive} (hd : d.Stateable) : Text.trim d.written = d.written := by
  rw [Text.trim_eq_self_iff]
  constructor
  · intro c hc
    cases d <;>
      · simp only [written, keyword, value] at hc
        obtain rfl := Option.some.inj hc
        decide
  · intro c hc
    rcases getLast?_written hd with hlast | ⟨hlast, hvalue⟩
    · rw [hlast] at hc
      cases hc
      decide
    · rw [hlast] at hc
      exact (Text.trim_eq_self_iff.mp hvalue.2.1).2 c hc

theorem not_mem_written {d : Directive} (hd : d.Stateable) : '\n' ∉ d.written := by
  rw [written, List.mem_append]
  rintro (hkeyword | hvalue)
  · cases d <;> simp [keyword] at hkeyword
  · rcases hd with rfl | hd
    · contradiction
    · exact hd.2.2.1 hvalue

/-- The line of a directive neither opens nor closes a command. -/
theorem opens_written {d : Directive} (hd : d.Stateable) (number : Nat) :
    Line.opens ⟨number, d.written⟩ = false ∧ Line.closes ⟨number, d.written⟩ = false := by
  constructor
  · rw [opens, decide_eq_false_iff_not]
    rcases getLast?_written hd with hlast | ⟨hlast, hvalue⟩
    · rw [hlast]
      decide
    · rw [hlast]
      exact hvalue.2.2.2
  · cases d <;> simp [closes, written, keyword]

/-- **Directives** read back. -/
theorem directive?_written {d : Directive} (hd : d.Stateable) (number : Nat) :
    Line.directive? ⟨number, d.written⟩ = some d := by
  have htrim : Text.trim d.value = d.value := by
    rcases hd with rfl | hvalue
    · rfl
    · exact hvalue.2.1
  have hafter : ∀ start rest : List Char, Text.after? start (start ++ rest) = some rest :=
    fun _ _ => Text.after?_eq_some_iff.mpr rfl
  cases d with
  | hook name =>
      simp only [directive?, written, keyword, value, hafter] at htrim ⊢
      rw [htrim]
  | permission name =>
      have h₁ : Text.after? "hook ".toList ("permission ".toList ++ name) = none := rfl
      simp only [directive?, written, keyword, value, h₁, hafter] at htrim ⊢
      rw [htrim]
  | users word =>
      have h₁ : Text.after? "hook ".toList ("users ".toList ++ word) = none := rfl
      have h₂ : Text.after? "permission ".toList ("users ".toList ++ word) = none := rfl
      simp only [directive?, written, keyword, value, h₁, h₂, hafter] at htrim ⊢
      rw [htrim]
  | help text =>
      have h₁ : Text.after? "hook ".toList ("help ".toList ++ text) = none := rfl
      have h₂ : Text.after? "permission ".toList ("help ".toList ++ text) = none := rfl
      have h₃ : Text.after? "users ".toList ("help ".toList ++ text) = none := rfl
      simp only [directive?, written, keyword, value, h₁, h₂, h₃, hafter] at htrim ⊢
      rw [htrim]
  | hidesub => rfl

/-- What a directive makes of a command does not depend on where it stands. -/
theorem apply_number {d : Directive} {n : Nat} {c c' : Command} (h : d.apply n c = .ok c')
    (m : Nat) : d.apply m c = .ok c' := by
  cases d with
  | users word =>
      rw [apply] at h ⊢
      cases haudience : Audience.ofWord? (String.ofList word) with
      | none => rw [haudience] at h; contradiction
      | some audience => rw [haudience] at h; exact h
  | _ => exact h

end Line.Directive

open Line (Directive)

namespace Outline

/-- The directives of an outline. -/
def stated (o : Outline) : List Directive :=
  (o.hook.map fun s => Directive.hook s.toList).toList ++
    (o.permission.map fun s => Directive.permission s.toList).toList ++
    (if o.audience = .everyone then [] else [Directive.users o.audience.word.toList]) ++
    (o.help.map fun s => Directive.help s.toList).toList ++
    if o.hidesSubcommands then [Directive.hidesub] else []

theorem directives_eq (o : Outline) : o.directives = o.stated.map Directive.written := by
  have htexts : ∀ (v : Option String) (state : List Char → Directive),
      ((v.map fun s => state s.toList).toList).map Directive.written =
        (v.map fun s => (state s.toList).written).toList := by
    intro v state
    cases v <;> rfl
  simp only [directives, stated, List.map_append, htexts, apply_ite (List.map Directive.written)]
  rfl

theorem Representable.stateable {o : Outline} (h : o.Representable) :
    ∀ d ∈ o.stated, d.Stateable := by
  intro d hd
  simp only [stated, List.mem_append, Option.mem_toList, Option.map_eq_some_iff] at hd
  rcases hd with (((⟨s, hs, rfl⟩ | ⟨s, hs, rfl⟩) | haudience) | ⟨s, hs, rfl⟩) | hhides
  · exact .inr (h.hook s hs)
  · exact .inr (h.permission s hs)
  · refine .inr ?_
    split at haudience
    · contradiction
    · rw [List.mem_singleton.mp haudience]
      cases o.audience <;> exact ⟨by decide, by decide, by decide, by decide⟩
  · exact .inr (h.help s hs)
  · split at hhides
    · exact .inl (List.mem_singleton.mp hhides)
    · contradiction

/-- The directives of an outline say all of it but names and parameters. -/
theorem foldlM_stated (o : Outline) (aliases : List String) (parameters : List Parameter)
    (line : Option Nat) :
    o.stated.foldlM (fun c d => d.apply 0 c) { aliases, parameters, line } =
      .ok { aliases, parameters, line, hook := o.hook, permission := o.permission,
            audience := o.audience, help := o.help, hidesSubcommands := o.hidesSubcommands } := by
  have happend : ∀ {xs ys : List Directive} {c c' : Command},
      xs.foldlM (fun c d => d.apply 0 c) c = .ok c' →
      (xs ++ ys).foldlM (fun c d => d.apply 0 c) c = ys.foldlM (fun c d => d.apply 0 c) c' := by
    intro xs ys c c' h
    rw [List.foldlM_append, h]
    rfl
  -- one kind of directive after the other, on what the ones before have made
  obtain ⟨-, -, hook, permission, audience, help, hides, -⟩ := o
  let c₁ : Command := { aliases, parameters, line, hook }
  let c₂ : Command := { c₁ with permission }
  let c₃ : Command := { c₂ with audience }
  let c₄ : Command := { c₃ with help }
  have hhook : ((hook.map fun s => Directive.hook s.toList).toList).foldlM
      (fun c d => d.apply 0 c) { aliases, parameters, line } = .ok c₁ := by
    cases hook with
    | none => rfl
    | some s => simp [c₁, Line.Directive.apply, bind, Except.bind, pure, Except.pure]
  have hpermission : ((permission.map fun s => Directive.permission s.toList).toList).foldlM
      (fun c d => d.apply 0 c) c₁ = .ok c₂ := by
    cases permission with
    | none => rfl
    | some s => simp [c₂, Line.Directive.apply, bind, Except.bind, pure, Except.pure]
  have haudience : (if audience = .everyone then []
      else [Directive.users audience.word.toList]).foldlM
      (fun c d => d.apply 0 c) c₂ = .ok c₃ := by
    cases audience <;> rfl
  have hhelp : ((help.map fun s => Directive.help s.toList).toList).foldlM
      (fun c d => d.apply 0 c) c₃ = .ok c₄ := by
    cases help with
    | none => rfl
    | some s => simp [c₄, Line.Directive.apply, bind, Except.bind, pure, Except.pure]
  rw [stated, List.append_assoc, List.append_assoc, List.append_assoc, happend hhook,
    happend hpermission, happend haudience, happend hhelp]
  cases hides <;> rfl

end Outline

/-! ## Runs -/

namespace Scan

/-- The lines of directives describe the innermost open command. -/
theorem run_directives {ds : List Directive} (hds : ∀ d ∈ ds, d.Stateable) {c c' : Command}
    (h : ds.foldlM (fun c d => d.apply 0 c) c = .ok c') (depth n header : Nat)
    (finished below : List Declaration) (outer : List OpenCommand) :
    run ⟨finished, ⟨header, c, below⟩ :: outer⟩
        (Line.numbered n ((ds.map Directive.written).map (Outline.indented depth))) =
      .ok ⟨finished, ⟨header, c', below⟩ :: outer⟩ := by
  induction ds generalizing c n with
  | nil =>
      cases h
      rfl
  | cons d rest ih =>
      have hd := hds d List.mem_cons_self
      rw [List.foldlM_cons] at h
      cases happly : d.apply 0 c with
      | error e => rw [happly] at h; contradiction
      | ok c₁ =>
          rw [happly] at h
          obtain ⟨hopens, hcloses⟩ := Directive.opens_written hd n
          have hstep : step ⟨finished, ⟨header, c, below⟩ :: outer⟩ ⟨n, d.written⟩ =
              .ok ⟨finished, ⟨header, c₁, below⟩ :: outer⟩ := by
            rw [step_directive hopens hcloses, Line.describe, Directive.directive?_written hd]
            dsimp only
            rw [Directive.apply_number happly n]
            rfl
          rw [List.map_cons, List.map_cons, Line.numbered,
            Outline.trim_indented depth (Directive.trim_written hd), run_cons_of_ok hstep]
          exact ih (fun d' hd' => hds d' (List.mem_cons_of_mem d hd')) h (n + 1)

/-- Commands closed inside an open one stand below it, in order. -/
theorem foldl_deliver_cons (finished : List Declaration) (header : Nat) (c : Command)
    (below : List Declaration) (outer : List OpenCommand) (ds : List Declaration) :
    ds.foldl deliver ⟨finished, ⟨header, c, below⟩ :: outer⟩ =
      ⟨finished, ⟨header, c, below ++ ds⟩ :: outer⟩ := by
  induction ds generalizing below with
  | nil => rw [List.append_nil]; rfl
  | cons d rest ih => rw [List.foldl_cons, deliver, ih, List.append_assoc]; rfl

theorem foldl_deliver_nil (finished ds : List Declaration) :
    ds.foldl deliver ⟨finished, []⟩ = ⟨finished ++ ds, []⟩ := by
  induction ds generalizing finished with
  | nil => rw [List.append_nil]; rfl
  | cons d rest ih => rw [List.foldl_cons, deliver, ih, List.append_assoc]; rfl

/-- The line after the commands inside an open one closes it. -/
theorem run_closer (depth n header : Nat) (finished : List Declaration) (c : Command)
    (below : List Declaration) (outer : List OpenCommand) :
    run ⟨finished, ⟨header, c, below⟩ :: outer⟩
        (Line.numbered n [Outline.indented depth ['\x7d']]) =
      .ok (deliver ⟨finished, outer⟩ (.mk c below)) := by
  have hstep : step ⟨finished, ⟨header, c, below⟩ :: outer⟩ ⟨n, ['\x7d']⟩ =
      .ok (deliver ⟨finished, outer⟩ (.mk c below)) :=
    step_closer (by simp [Line.opens]) (by simp [Line.closes]) finished ⟨header, c, below⟩ outer
  rw [Line.numbered, Outline.trim_indented depth (by decide), run_cons_of_ok hstep]
  rfl

mutual

/-- **Writing**: the lines of a command lead to where it is delivered, at any
depth and with any commands open around it. -/
theorem run_sourceLines (depth n : Nat) (finished : List Declaration)
    (outer : List OpenCommand) : (o : Outline) → o.Writable →
    ∃ d, d.outline = o ∧
      run ⟨finished, outer⟩ (Line.numbered n (o.sourceLines depth)) =
        .ok (deliver ⟨finished, outer⟩ d)
  | ⟨aliases, parameters, hook, permission, audience, help, hides, children⟩, h => by
      obtain ⟨hhead, hchildren⟩ := h
      let o : Outline := ⟨aliases, parameters, hook, permission, audience, help, hides, []⟩
      obtain ⟨ps, hheader, htokens⟩ := hhead.exists_readHeader n
      -- the command as its header and its directives describe it
      let c₀ : Command := { aliases, parameters := ps, line := some n }
      let c : Command := { aliases, parameters := ps, line := some n, hook, permission, audience,
                           help, hidesSubcommands := hides }
      have hopen : step ⟨finished, outer⟩ ⟨n, o.header ++ [' ', '\x7b']⟩ =
          .ok ⟨finished, ⟨n, c₀, []⟩ :: outer⟩ := by
        rw [step_header (by simp [Line.opens]), hheader]
        rfl
      have hdirectives := run_directives hhead.stateable
        (o.foldlM_stated aliases ps (some n)) (depth + 1) (n + 1) n finished [] outer
      obtain ⟨ds, hds, hbelow⟩ := run_sourceLinesOfAll (depth + 1) (n + 1 + o.directives.length)
        ⟨finished, ⟨n, c, []⟩ :: outer⟩ children hchildren
      rw [foldl_deliver_cons, List.nil_append] at hbelow
      refine ⟨.mk c ds, ?_, ?_⟩
      · rw [Declaration.outline, hds, Outline.ofCommand, htokens]
      · rw [Outline.sourceLines]
        show run ⟨finished, outer⟩ (Line.numbered n
          (Outline.indented depth (o.header ++ [' ', '\x7b']) ::
            o.directives.map (Outline.indented (depth + 1)) ++
            Outline.sourceLinesOfAll (depth + 1) children ++ [Outline.indented depth ['\x7d']])) = _
        rw [List.cons_append, List.cons_append, Line.numbered,
          Outline.trim_indented depth hhead.trim_header, run_cons_of_ok hopen, List.append_assoc,
          Line.numbered_append, Outline.directives_eq, run_append_of_ok hdirectives,
          Line.numbered_append, List.length_map, ← Outline.directives_eq, run_append_of_ok hbelow]
        exact run_closer _ _ _ _ _ _ _

theorem run_sourceLinesOfAll (depth n : Nat) (s : Scan) : (os : List Outline) →
    Outline.WritableAll os →
    ∃ ds, Declaration.outlines ds = os ∧
      run s (Line.numbered n (Outline.sourceLinesOfAll depth os)) = .ok (ds.foldl deliver s)
  | [], _ => ⟨[], rfl, rfl⟩
  | o :: rest, h => by
      obtain ⟨ho, hrest⟩ := h
      obtain ⟨d, hd, hhere⟩ := run_sourceLines depth n s.finished s.stack o ho
      obtain ⟨ds, hds, hlater⟩ := run_sourceLinesOfAll depth (n + (o.sourceLines depth).length)
        (s.deliver d) rest hrest
      refine ⟨d :: ds, by rw [Declaration.outlines, hd, hds], ?_⟩
      rw [Outline.sourceLinesOfAll, Line.numbered_append, run_append_of_ok hhere]
      exact hlater

end

end Scan

namespace Outline

theorem Representable.not_mem_header {o : Outline} (h : o.Representable) : '\n' ∉ o.header := by
  have hfeed : Text.isBlank '\n' = true := by decide
  rw [header, List.mem_append, List.mem_flatMap]
  rintro (hword | ⟨t, ht, hmem⟩)
  · rw [h.word_joined.2 '\n' hword] at hfeed
    contradiction
  · rcases List.mem_cons.mp hmem with hblank | hmem
    · contradiction
    · rw [(h.parameters t ht).1 '\n' hmem] at hfeed
      contradiction

mutual

/-- What is written has no line feeds but those that end its lines. -/
theorem Writable.not_mem_sourceLines (depth : Nat) : (o : Outline) → o.Writable →
    ∀ l ∈ o.sourceLines depth, '\n' ∉ l
  | ⟨aliases, parameters, hook, permission, audience, help, hides, children⟩, h, l, hl => by
      obtain ⟨hhead, hchildren⟩ := h
      rw [sourceLines] at hl
      simp only [List.mem_append, List.mem_cons, List.not_mem_nil, or_false, List.mem_map] at hl
      rcases hl with ((rfl | ⟨text, htext, rfl⟩) | hl) | rfl
      · refine not_mem_indented ?_
        rw [List.mem_append]
        rintro (hheader | hend)
        · exact hhead.not_mem_header hheader
        · exact absurd hend (by decide)
      · rw [directives_eq] at htext
        obtain ⟨d, hd, rfl⟩ := List.mem_map.mp htext
        exact not_mem_indented (Directive.not_mem_written (hhead.stateable d hd))
      · exact WritableAll.not_mem_sourceLines (depth + 1) children hchildren l hl
      · exact not_mem_indented (by decide)

theorem WritableAll.not_mem_sourceLines (depth : Nat) : (os : List Outline) → WritableAll os →
    ∀ l ∈ sourceLinesOfAll depth os, '\n' ∉ l
  | [], _, l, hl => by
      rw [sourceLinesOfAll] at hl
      contradiction
  | o :: rest, h, l, hl => by
      rw [sourceLinesOfAll, List.mem_append] at hl
      rcases hl with hl | hl
      · exact Writable.not_mem_sourceLines depth o h.1 l hl
      · exact WritableAll.not_mem_sourceLines depth rest h.2 l hl

end

end Outline

/-! ## Commands and their outlines -/

namespace Branch

theorem outlines_eq_map (bs : List Branch) : outlines bs = bs.map outline := by
  induction bs with
  | nil => rfl
  | cons b rest ih => rw [outlines, List.map_cons, ih]

mutual

theorem writable_outline_iff : (b : Branch) →
    (b.outline.Writable ↔ ∀ e ∈ b.entries, e.2.Representable)
  | mk id c bs => by
      rw [outline, Outline.writable_ofCommand, writableAll_outlines_iff bs, entries,
        List.forall_mem_cons]

theorem writableAll_outlines_iff : (bs : List Branch) →
    (Outline.WritableAll (outlines bs) ↔ ∀ e ∈ entriesOfAll bs, e.2.Representable)
  | [] => by simp [outlines, Outline.WritableAll, entriesOfAll]
  | b :: rest => by
      rw [outlines, Outline.WritableAll, writable_outline_iff b, writableAll_outlines_iff rest,
        entriesOfAll, List.forall_mem_append]

end

end Branch

namespace Forest

/-- The outlines of a forest are those of its roots. -/
theorem outlines_eq_filterMap (f : Forest) : f.outlines = f.roots.filterMap f.outline? := by
  rw [outlines, Branch.outlines_eq_map, branches, List.map_filterMap]
  rfl

/-- An outline can be written if all commands in the subtree are
representable. -/
theorem WellFormed.writable_outline?_iff {f : Forest} (hf : f.WellFormed) {id : CommandId}
    {o : Outline} (h : f.outline? id = some o) :
    o.Writable ↔ ∀ n c, f.Below id n → f.find? n = some c → c.Representable := by
  obtain ⟨b, hb, rfl⟩ := Option.map_eq_some_iff.mp h
  rw [b.writable_outline_iff]
  constructor
  · intro hall n c hbelow hc
    exact hall (n, c) ((hf.mem_entries_iff hb).mpr ⟨hbelow, hc⟩)
  · rintro hall ⟨n, c⟩ hmem
    obtain ⟨hbelow, hc⟩ := (hf.mem_entries_iff hb).mp hmem
    exact hall n c hbelow hc

/-- All outlines can be written if all commands are representable. -/
theorem WellFormed.writableAll_outlines_iff {f : Forest} (hf : f.WellFormed) :
    Outline.WritableAll f.outlines ↔ ∀ id c, f.find? id = some c → c.Representable := by
  rw [outlines, Branch.writableAll_outlines_iff]
  constructor
  · intro hall id c hc
    obtain ⟨r, hr, hbelow⟩ := hf.exists_root_below hc
    obtain ⟨d, hd, -⟩ := (hf.mem_roots r).mp hr
    obtain ⟨bs, hb, -⟩ := hf.exists_branch hd
    refine hall (id, c) (Branch.mem_entriesOfAll.mpr ⟨_, List.mem_filterMap.mpr ⟨r, hr, hb⟩, ?_⟩)
    exact (hf.mem_entries_iff hb).mpr ⟨hbelow, hc⟩
  · rintro hall ⟨id, c⟩ hmem
    obtain ⟨b, hbranch, hmem⟩ := Branch.mem_entriesOfAll.mp hmem
    obtain ⟨r, -, hb⟩ := List.mem_filterMap.mp hbranch
    exact hall id c ((hf.mem_entries_iff hb).mp hmem).2

/-- There is one outline for every root. -/
theorem WellFormed.map_outline?_roots {f : Forest} (hf : f.WellFormed) :
    f.roots.map f.outline? = f.outlines.map some := by
  have hbranches := hf.map_branch? fun r hr => by
    obtain ⟨c, hc, -⟩ := (hf.mem_roots r).mp hr
    exact ⟨c, hc⟩
  have houtline : f.outline? = Option.map Branch.outline ∘ f.branch? := rfl
  rw [outlines, Branch.outlines_eq_map, branches, houtline, ← List.map_map, hbranches,
    List.map_map, List.map_map]
  rfl

theorem WellFormed.outlines_eq_singleton_iff {f : Forest} (hf : f.WellFormed) {o : Outline} :
    f.outlines = [o] ↔ ∃ root, f.roots = [root] ∧ f.outline? root = some o := by
  have hroots := hf.map_outline?_roots
  constructor
  · intro h
    rw [h, List.map_singleton, List.map_eq_singleton_iff] at hroots
    exact hroots
  · rintro ⟨root, hroot, ho⟩
    rw [hroot, List.map_singleton, ho, eq_comm, List.map_eq_singleton_iff] at hroots
    obtain ⟨o', houtlines, heq⟩ := hroots
    rw [houtlines, Option.some.inj heq]

/-! ## Definitions -/

/-- Outlines that can be written are read back, and nothing is reported. -/
theorem exists_load_sourceOfAll {os : List Outline} (h : Outline.WritableAll os) :
    ∃ g, ({} : Forest).load (Outline.sourceOfAll os) = .ok (g.roots, g, none) ∧
      g.outlines = os := by
  obtain ⟨ds, hds, hrun⟩ := Scan.run_sourceLinesOfAll 0 1 {} os h
  have hlines : Line.ofSource (Outline.sourceOfAll os).toList =
      Line.numbered 1 (Outline.sourceLinesOfAll 0 os) := by
    rw [Line.ofSource, Outline.sourceOfAll, String.toList_ofList,
      Text.lines_unlines (Outline.WritableAll.not_mem_sourceLines 0 os h)]
  refine ⟨({} : Forest).plantAll none ds, ?_, ?_⟩
  · rw [load_empty, hlines, hrun, Scan.foldl_deliver_nil]
    rfl
  · rw [outlines_plantAll_empty, hds]

/-- Outlines read back exactly if they can be written. -/
theorem load_sourceOfAll_iff {os : List Outline} :
    (∃ ids g report, ({} : Forest).load (Outline.sourceOfAll os) = .ok (ids, g, report) ∧
      g.outlines = os) ↔ Outline.WritableAll os := by
  constructor
  · rintro ⟨ids, g, report, hload, rfl⟩
    exact writableAll_of_load hload
  · intro h
    obtain ⟨g, hload, houtlines⟩ := exists_load_sourceOfAll h
    exact ⟨g.roots, g, none, hload, houtlines⟩

theorem sourceOfAll_singleton (o : Outline) : Outline.sourceOfAll [o] = o.toSource := by
  rw [Outline.sourceOfAll, Outline.sourceLinesOfAll, Outline.sourceLinesOfAll, List.append_nil,
    Outline.toSource]

/-- **Round trip**: the definition written from a forest reads back with the
same outlines exactly if every command of the forest is representable, and
the one written from a command reads back as a single root with its outline
exactly if every command in its subtree is.  All that can be read from any
source is representable, so it is written and read back without loss. -/
theorem reads_back_iff_representable {f : Forest} (hf : f.Reachable) :
    ((∃ ids g report,
        ({} : Forest).load (Outline.sourceOfAll f.outlines) = .ok (ids, g, report) ∧
        g.outlines = f.outlines) ↔
      ∀ id c, f.find? id = some c → c.Representable) ∧
    (∀ id o, f.outline? id = some o →
      ((∃ ids g report root, ({} : Forest).load o.toSource = .ok (ids, g, report) ∧
          g.roots = [root] ∧ g.outline? root = some o) ↔
        ∀ n c, f.Below id n → f.find? n = some c → c.Representable)) ∧
    (∀ source ids g report, ({} : Forest).load source = .ok (ids, g, report) →
      (∀ id c, g.find? id = some c → c.Representable) ∧
      ∃ ids' g' report',
        ({} : Forest).load (Outline.sourceOfAll g.outlines) = .ok (ids', g', report') ∧
        g'.outlines = g.outlines) := by
  have hwf := hf.wellFormed
  refine ⟨?_, ?_, ?_⟩
  · rw [load_sourceOfAll_iff, hwf.writableAll_outlines_iff]
  · intro id o ho
    rw [← hwf.writable_outline?_iff ho, ← sourceOfAll_singleton]
    have hall : Outline.WritableAll [o] ↔ o.Writable := by simp [Outline.WritableAll]
    rw [← hall, ← load_sourceOfAll_iff]
    constructor
    · rintro ⟨ids, g, report, root, hload, hroot, houtline⟩
      exact ⟨ids, g, report, hload,
        (wellFormed_empty.of_load hload).outlines_eq_singleton_iff.mpr ⟨root, hroot, houtline⟩⟩
    · rintro ⟨ids, g, report, hload, houtlines⟩
      obtain ⟨root, hroot, houtline⟩ :=
        (wellFormed_empty.of_load hload).outlines_eq_singleton_iff.mp houtlines
      exact ⟨ids, g, report, root, hload, hroot, houtline⟩
  · intro source ids g report hload
    have hwritable := writableAll_of_load hload
    exact ⟨(wellFormed_empty.of_load hload).writableAll_outlines_iff.mp hwritable,
      load_sourceOfAll_iff.mpr hwritable⟩

/-- A forest with a command that takes the rest of the line. -/
def mailbox : Forest :=
  (({} : Forest).perform
    (.appendRoot { aliases := ["mail", "m"], help := some "Mail commands" })).perform
    (.appendUnder 0 { aliases := ["send"], hook := some "send",
                      parameters := [⟨"player", "to", none⟩, ⟨"multistring", "text", none⟩] })

theorem reachable_mailbox : mailbox.Reachable := .after _ (.after _ .empty)

/-- All of it can be declared, so it reads back. -/
theorem reads_back_mailbox :
    mailbox.Reachable ∧ ∃ ids g report,
      ({} : Forest).load (Outline.sourceOfAll mailbox.outlines) = .ok (ids, g, report) ∧
      g.outlines = mailbox.outlines := by
  refine ⟨reachable_mailbox, (reads_back_iff_representable reachable_mailbox).1.mpr ?_⟩
  intro id c hc
  match id with
  | 0 =>
      cases hc
      decide
  | 1 =>
      cases hc
      decide
  | n + 2 => contradiction

end Forest

end CommandForest
