import CommandForest.Outline.Json
import CommandForest.Proofs.JsonText

/-!
# CommandForest.Proofs.OutlineJson

Outlines that are written in the JSON format are read back as they were, down
to the nesting that the reader takes (`Outline.readJson_jsonOfAll`).

* The fields of a written outline are those of a list of entries that have a
  value (`Outline.toJson_eq`), and each name stands for one entry, so that
  looking it up finds this value or none (`Json.field?_present`).
* A field that is left out has the usual value, which is the one it is left out
  for; so each field is restored, with or without a value.
* The outlines below are restored by induction, one level down for each list
  and each outline (`Outline.ofJson_toJson`).
-/

namespace CommandForest

/-! ## Records -/

namespace Json

/-- The entries of a record that have a value. -/
def present (entries : List (String × Option Json)) : List (String × Json) :=
  entries.filterMap fun (name, value) => value.map fun value => (name, value)

/-- Fields as an object has them. -/
def keyed (fields : List (String × Json)) : List (Option String × Json) :=
  fields.map fun (name, value) => (some name, value)

/-- Values that are decoded one by one are decoded together. -/
theorem mapM_map_eq_some {α β : Type} {encode : α → β} {decode : β → Option α}
    (h : ∀ a, decode (encode a) = some a) (as : List α) :
    (as.map encode).mapM decode = some as := by
  induction as with
  | nil => rfl
  | cons a as ih => rw [List.map_cons, List.mapM_cons, h, ih]; rfl

theorem record?_keyed (names : List String) (fields : List (String × Json)) :
    (object (keyed fields)).record? names = some fields := by
  rw [record?, keyed]
  refine mapM_map_eq_some (fun field => ?_) fields
  rfl

theorem present_cons (name : String) (value : Option Json)
    (entries : List (String × Option Json)) :
    present ((name, value) :: entries) =
      (value.map fun value => (name, value)).toList ++ present entries := by
  cases value <;> rfl

theorem keyed_present_cons (name : String) (value : Option Json)
    (entries : List (String × Option Json)) :
    keyed (present ((name, value) :: entries)) =
      (value.map fun value => (some name, value)).toList ++ keyed (present entries) := by
  cases value <;> rfl

/-- Looking a name up among entries that have another one. -/
theorem filter_present_eq_nil {entries : List (String × Option Json)} {name : String}
    (h : name ∉ entries.map Prod.fst) :
    (present entries).filter (fun entry => entry.1 == name) = [] := by
  refine List.filter_eq_nil_iff.mpr fun entry hentry hname => h ?_
  obtain ⟨e, he, heq⟩ := List.mem_filterMap.mp hentry
  obtain ⟨value, -, rfl⟩ := Option.map_eq_some_iff.mp heq
  exact (beq_iff_eq.mp hname) ▸ List.mem_map_of_mem he

/-- If names stand for one entry each, looking one up finds its value. -/
theorem field?_present {entries : List (String × Option Json)}
    (h : (entries.map Prod.fst).Nodup) {name : String} {value : Option Json}
    (hmem : (name, value) ∈ entries) : field? (present entries) name = some value := by
  have hfilter : (present entries).filter (fun entry => entry.1 == name) =
      (value.map fun value => (name, value)).toList := by
    induction entries with
    | nil => contradiction
    | cons entry rest ih =>
        obtain ⟨other, v⟩ := entry
        obtain ⟨hother, hrest⟩ := List.nodup_cons.mp h
        rw [present_cons, List.filter_append]
        rcases List.mem_cons.mp hmem with heq | hlater
        · cases heq
          rw [filter_present_eq_nil hother, List.append_nil]
          cases value <;> simp
        · have hne : other ≠ name := by
            rintro rfl
            exact hother (List.mem_map.mpr ⟨(other, value), hlater, rfl⟩)
          rw [ih hrest hlater]
          cases v <;> simp [hne]
  rw [field?, hfilter]
  cases value <;> rfl

/-- A field that is there is decoded, and one that is left out has the usual
value. -/
theorem fieldOr_present {α : Type} {entries : List (String × Option Json)}
    (h : (entries.map Prod.fst).Nodup) {name : String} {value : Option Json}
    (hmem : (name, value) ∈ entries) (decode : Json → Option α) (usual : α) :
    fieldOr (present entries) name decode usual = (value.map decode).getD (some usual) := by
  rw [fieldOr, field?_present h hmem]
  cases value <;> rfl

/-- A field is restored if its value stands for what was written, and if it is
left out for the usual value only. -/
theorem fieldOr_present_eq_some {α : Type} {entries : List (String × Option Json)}
    (h : (entries.map Prod.fst).Nodup) {name : String} {value : Option Json}
    (hmem : (name, value) ∈ entries) {decode : Json → Option α} {usual written : α}
    (hthere : ∀ v, value = some v → decode v = some written)
    (hleft : value = none → usual = written) :
    fieldOr (present entries) name decode usual = some written := by
  rw [fieldOr_present h hmem]
  cases value with
  | none => rw [hleft rfl]; rfl
  | some v => exact hthere v rfl

/-! ## Nesting -/

mutual

/-- How many arrays and objects stand around each other. -/
def depth : Json → Nat
  | array items => depthOfItems items + 1
  | object fields => depthOfFields fields + 1
  | _ => 0

/-- The depth of the deepest item. -/
def depthOfItems : List Json → Nat
  | [] => 0
  | item :: items => max item.depth (depthOfItems items)

/-- The depth of the deepest value in a field. -/
def depthOfFields : List (Option String × Json) → Nat
  | [] => 0
  | (_, value) :: fields => max value.depth (depthOfFields fields)

end

theorem depthOfFields_keyed_present (name : String) (value : Option Json)
    (entries : List (String × Option Json)) :
    depthOfFields (keyed (present ((name, value) :: entries))) =
      max ((value.map depth).getD 0) (depthOfFields (keyed (present entries))) := by
  rw [keyed_present_cons]
  cases value with
  | none => simp
  | some v => simp [depthOfFields]

theorem textualFields_keyed_present {entries : List (String × Option Json)}
    (h : ∀ name value, (name, some value) ∈ entries → value.Textual) :
    TextualFields (keyed (present entries)) := by
  induction entries with
  | nil => trivial
  | cons entry rest ih =>
      obtain ⟨name, value⟩ := entry
      have hrest := ih fun other v hv => h other v (List.mem_cons_of_mem _ hv)
      rw [keyed_present_cons]
      cases value with
      | none => exact hrest
      | some v => exact ⟨rfl, h name v List.mem_cons_self, hrest⟩

end Json

namespace Outline

open Json (present keyed)

/-- What a written outline has in its fields; those that say nothing have no
value. -/
def entries (o : Outline) : List (String × Option Json) := [
  ("aliases", some (textsToJson o.aliases)),
  ("arguments", if o.parameters.isEmpty then none else some (textsToJson o.parameters)),
  ("hook", o.hook.map fun text => .string (some text)),
  ("permission", o.permission.map fun text => .string (some text)),
  ("audience", some (.string (some o.audience.word))),
  ("help", o.help.map fun text => .string (some text)),
  ("hide_sub", if o.hidesSubcommands then some (.bool true) else none),
  ("children", if o.children.isEmpty then none else some (.array (allToJson o.children)))]

theorem nodup_entries (o : Outline) : (o.entries.map Prod.fst).Nodup := by
  show ["aliases", "arguments", "hook", "permission", "audience", "help", "hide_sub",
    "children"].Nodup
  decide

theorem textField_eq (name : String) (text : Option String) :
    textField name text =
      ((text.map fun s => Json.string (some s)).map fun value => (some name, value)).toList := by
  rw [textField, Option.map_map]
  rfl

/-- An outline is written with the fields that have a value. -/
theorem toJson_eq (o : Outline) : o.toJson = .object (keyed (present o.entries)) := by
  cases o with
  | mk aliases parameters hook permission audience help hidesSubcommands children =>
      simp only [toJson, entries, Json.keyed_present_cons, textField_eq]
      cases parameters.isEmpty <;> cases hidesSubcommands <;> cases children.isEmpty <;>
        simp [keyed, present]

/-! ## Fields -/

theorem textsOfJson_textsToJson (texts : List String) :
    textsOfJson (textsToJson texts) = some texts := by
  show (texts.map fun s => Json.string (some s)).mapM Json.text? = some texts
  refine Json.mapM_map_eq_some (fun text => ?_) texts
  rfl

section

variable (o : Outline)

theorem field?_aliases :
    Json.field? (present o.entries) "aliases" = some (some (textsToJson o.aliases)) :=
  Json.field?_present o.nodup_entries (by simp [entries])

theorem fieldOr_arguments :
    Json.fieldOr (present o.entries) "arguments" textsOfJson [] = some o.parameters := by
  have hmem : ("arguments", if o.parameters.isEmpty then none else
      some (textsToJson o.parameters)) ∈ o.entries := by simp [entries]
  refine Json.fieldOr_present_eq_some o.nodup_entries hmem (fun v hv => ?_) fun hnone => ?_
  · obtain ⟨-, rfl⟩ : ¬ o.parameters = [] ∧ textsToJson o.parameters = v := by simpa using hv
    exact textsOfJson_textsToJson o.parameters
  · have hempty : o.parameters = [] := by simpa using hnone
    exact hempty.symm

/-- A text is restored, be it there or not. -/
theorem fieldOr_text {name : String} {text : Option String}
    (h : (name, text.map fun s => Json.string (some s)) ∈ o.entries) :
    Json.fieldOr (present o.entries) name optionalText none = some text := by
  refine Json.fieldOr_present_eq_some o.nodup_entries h (fun v hv => ?_) fun hnone => ?_
  · obtain ⟨s, rfl, rfl⟩ := Option.map_eq_some_iff.mp hv
    rfl
  · rw [Option.map_eq_none_iff.mp hnone]

theorem fieldOr_hook :
    Json.fieldOr (present o.entries) "hook" optionalText none = some o.hook :=
  o.fieldOr_text (by simp [entries])

theorem fieldOr_permission :
    Json.fieldOr (present o.entries) "permission" optionalText none = some o.permission :=
  o.fieldOr_text (by simp [entries])

theorem fieldOr_help :
    Json.fieldOr (present o.entries) "help" optionalText none = some o.help :=
  o.fieldOr_text (by simp [entries])

theorem fieldOr_audience (nested : Bool) :
    Json.fieldOr (present o.entries) "audience" (audienceOfJson nested) .everyone =
      some o.audience := by
  have hmem : ("audience", some (.string (some o.audience.word))) ∈ o.entries := by
    simp [entries]
  rw [Json.fieldOr_present o.nodup_entries hmem]
  exact Audience.ofWord?_word o.audience

theorem fieldOr_hidesSubcommands :
    Json.fieldOr (present o.entries) "hide_sub" Json.bool? false = some o.hidesSubcommands := by
  have hmem : ("hide_sub", if o.hidesSubcommands then some (.bool true) else none) ∈ o.entries := by
    simp [entries]
  rw [Json.fieldOr_present o.nodup_entries hmem]
  cases o.hidesSubcommands <;> rfl

theorem fieldOr_children (decode : Json → Option (List Outline)) :
    Json.fieldOr (present o.entries) "children" decode [] =
      if o.children.isEmpty then some [] else decode (.array (allToJson o.children)) := by
  have hmem : ("children", if o.children.isEmpty then none else
      some (.array (allToJson o.children))) ∈ o.entries := by simp [entries]
  rw [Json.fieldOr_present o.nodup_entries hmem]
  split <;> rfl

end

/-! ## Values -/

theorem depth_textsToJson (texts : List String) : (textsToJson texts).depth = 1 := by
  have hitems : Json.depthOfItems (texts.map fun s => .string (some s)) = 0 := by
    induction texts with
    | nil => rfl
    | cons text texts ih => rw [List.map_cons, Json.depthOfItems, ih]; rfl
  rw [textsToJson, Json.depth, hitems]

/-- The value of an outline has two levels more than those below it: the object
and its arrays. -/
theorem depth_toJson (o : Outline) :
    o.toJson.depth = Json.depthOfItems (allToJson o.children) + 2 := by
  have htext : ∀ text : Option String,
      ((text.map fun s => Json.string (some s)).map Json.depth).getD 0 = 0 := by
    intro text
    cases text <;> rfl
  have harguments : ((if o.parameters.isEmpty then none else
      some (textsToJson o.parameters)).map Json.depth).getD 0 ≤ 1 := by
    split <;> simp [depth_textsToJson]
  have hhides : ((if o.hidesSubcommands then some (Json.bool true) else none).map
      Json.depth).getD 0 = 0 := by
    split <;> rfl
  have hchildren : max 1 (((if o.children.isEmpty then none else
      some (Json.array (allToJson o.children))).map Json.depth).getD 0) =
        Json.depthOfItems (allToJson o.children) + 1 := by
    cases o.children <;> simp [allToJson, Json.depthOfItems, Json.depth]
  have haudience : (Json.string (some o.audience.word)).depth = 0 := rfl
  have hnil : Json.depthOfFields (keyed (present [])) = 0 := rfl
  rw [toJson_eq, Json.depth]
  simp only [entries, Json.depthOfFields_keyed_present, htext, Option.map_some, Option.getD_some,
    depth_textsToJson]
  omega

theorem textual_textsToJson (texts : List String) : (textsToJson texts).Textual := by
  show Json.TextualItems (texts.map fun s => .string (some s))
  induction texts with
  | nil => trivial
  | cons text texts ih => exact ⟨rfl, ih⟩

mutual

theorem textual_toJson : (o : Outline) → o.toJson.Textual
  | ⟨aliases, parameters, hook, permission, audience, help, hidesSubcommands, children⟩ => by
      have htext : ∀ {text : Option String} {value : Json},
          some value = text.map (fun s => .string (some s)) → value.Textual := by
        intro text value h
        obtain ⟨s, -, rfl⟩ := Option.map_eq_some_iff.mp h.symm
        exact rfl
      rw [toJson_eq, Json.Textual]
      refine Json.textualFields_keyed_present fun name value h => ?_
      simp only [entries, List.mem_cons, Prod.mk.injEq, List.not_mem_nil, or_false] at h
      rcases h with ⟨-, h⟩ | ⟨-, h⟩ | ⟨-, h⟩ | ⟨-, h⟩ | ⟨-, h⟩ | ⟨-, h⟩ | ⟨-, h⟩ | ⟨-, h⟩
      · cases h
        exact textual_textsToJson aliases
      · obtain ⟨-, rfl⟩ : ¬ parameters = [] ∧ value = textsToJson parameters := by simpa using h
        exact textual_textsToJson parameters
      · exact htext h
      · exact htext h
      · cases h
        exact rfl
      · exact htext h
      · obtain ⟨-, rfl⟩ : hidesSubcommands = true ∧ value = Json.bool true := by simpa using h
        trivial
      · obtain ⟨-, rfl⟩ : ¬ children = [] ∧ value = Json.array (allToJson children) := by
          simpa using h
        exact textualItems_allToJson children

theorem textualItems_allToJson : (os : List Outline) → Json.TextualItems (allToJson os)
  | [] => trivial
  | o :: rest => ⟨textual_toJson o, textualItems_allToJson rest⟩

end

mutual

/-- **An outline is restored** from its value, down to the nesting that is
allowed. -/
theorem ofJson_toJson : (o : Outline) → (levels : Nat) →
    ofJson levels o.toJson = if o.toJson.depth < levels then some o else none
  | ⟨aliases, parameters, hook, permission, audience, help, hidesSubcommands, children⟩, 0 => by
      simp [ofJson]
  | ⟨aliases, parameters, hook, permission, audience, help, hidesSubcommands, children⟩, 1 => by
      rw [depth_toJson]
      simp [ofJson]
  | ⟨aliases, parameters, hook, permission, audience, help, hidesSubcommands, children⟩,
    levels + 2 => by
      rw [depth_toJson, toJson_eq, ofJson]
      simp only [Json.record?_keyed, field?_aliases, Option.bind_eq_bind, Option.bind_some]
      -- without a level for its arrays, not even the aliases are taken
      by_cases hlevels : 0 < levels
      · simp only [hlevels, decide_true, if_true, textsOfJson_textsToJson, fieldOr_arguments,
          fieldOr_hook, fieldOr_permission, fieldOr_audience, fieldOr_help,
          fieldOr_hidesSubcommands, fieldOr_children, Option.bind_some]
        have hbelow : (if children.isEmpty then some [] else
            (Json.array (allToJson children)).items?.bind (List.mapM (ofJson levels))) =
              if Json.depthOfItems (allToJson children) < levels then some children else none := by
          rw [← mapM_ofJson hlevels children]
          cases children <;> rfl
        rw [hbelow]
        simp only [Nat.add_lt_add_iff_right]
        split <;> rfl
      · have hdeep : levels ≤ Json.depthOfItems (allToJson children) := by omega
        simp [hlevels, hdeep]

theorem mapM_ofJson {levels : Nat} (h : 0 < levels) : (os : List Outline) →
    (allToJson os).mapM (ofJson levels) =
      if Json.depthOfItems (allToJson os) < levels then some os else none
  | [] => by rw [allToJson, Json.depthOfItems, if_pos h]; rfl
  | o :: rest => by
      rw [allToJson, List.mapM_cons, ofJson_toJson o levels, mapM_ofJson h rest, Json.depthOfItems]
      by_cases hfirst : o.toJson.depth < levels
      · by_cases hrest : Json.depthOfItems (allToJson rest) < levels
        · rw [if_pos hfirst, if_pos hrest, if_pos (Nat.max_lt.mpr ⟨hfirst, hrest⟩)]
          rfl
        · rw [if_pos hfirst, if_neg hrest, if_neg fun hmax => hrest (Nat.max_lt.mp hmax).2]
          rfl
      · rw [if_neg hfirst, if_neg fun hmax => hfirst (Nat.max_lt.mp hmax).1]
        rfl

end

mutual

/-- How many outlines stand below each other. -/
def height : Outline → Nat
  | ⟨_, _, _, _, _, _, _, children⟩ => heightAll children + 1

/-- The height of the highest outline. -/
def heightAll : List Outline → Nat
  | [] => 0
  | o :: rest => max o.height (heightAll rest)

end

mutual

theorem depth_toJson_eq_height : (o : Outline) → o.toJson.depth = 2 * o.height
  | ⟨aliases, parameters, hook, permission, audience, help, hidesSubcommands, children⟩ => by
      rw [depth_toJson, depthOfItems_allToJson children, height]
      omega

theorem depthOfItems_allToJson : (os : List Outline) →
    Json.depthOfItems (allToJson os) = 2 * heightAll os
  | [] => rfl
  | o :: rest => by
      rw [allToJson, Json.depthOfItems, depth_toJson_eq_height o, depthOfItems_allToJson rest,
        heightAll]
      omega

end

/-- **The JSON text of outlines** reads back as the same outlines, whatever
texts they have and whatever they leave out, unless arrays and objects stand
deeper around each other than the reader takes.  Each outline takes two of
these levels, and the list itself one.  What is left out of the object of an
outline are the fields that say nothing. -/
theorem readJson_jsonOfAll (os : List Outline) :
    readJson (jsonOfAll os) =
      (if (Json.array (allToJson os)).depth < nestingLimit then some os else none) ∧
    (Json.array (allToJson os)).depth = 2 * heightAll os + 1 ∧
    ∀ o : Outline, o.toJson = .object (keyed (present o.entries)) := by
  have htextual : (Json.array (allToJson os)).Textual := textualItems_allToJson os
  have hitems : listOfJson (.array (allToJson os)) =
      (allToJson os).mapM (ofJson (nestingLimit - 1)) := rfl
  have hlimit : Json.depthOfItems (allToJson os) < nestingLimit - 1 ↔
      (Json.array (allToJson os)).depth < nestingLimit := by
    rw [Json.depth, nestingLimit]
    omega
  refine ⟨?_, ?_, toJson_eq⟩
  · rw [readJson, jsonOfAll, Json.read_render htextual, Option.bind_some, hitems,
      mapM_ofJson (by decide)]
    simp only [hlimit]
  · rw [Json.depth, depthOfItems_allToJson]

end Outline

end CommandForest
