import CommandForest.Json.Printer
import CommandForest.Json.Reader

/-!
# CommandForest.Proofs.JsonText

Reading undoes writing: the text that is written for a value reads as this
value, if each of its strings has a text and it has no numbers
(`Json.read_render`).

* A written character is read back on its own, whatever follows
  (`readString_escapeChar`), and so a string is up to its closing quote.
* A written value is read back whatever follows, with blanks before it and
  enough fuel (`readValue_write`).  Two units for each character are enough,
  since every step down into a value or on to the next one passes a character.
-/

namespace CommandForest.Json

/-! ## Strings -/

/-- A letter after a backslash, which is not the one before four digits. -/
theorem readString_letter {c x : Char} (h : escapedChar? c = some x) (rest : List Char) :
    readString ('\\' :: c :: rest) = (readString rest).push x := by
  have hu : c ≠ 'u' := by
    rintro rfl
    contradiction
  rw [readString, h]
  exact fun _ _ _ _ _ hc => absurd hc hu

/-- Four digits that write a character on their own. -/
theorem readString_digits {a b c d : Char} {unit : Nat} (h : codeUnit? a b c d = some unit)
    (hunit : unit < 0xD800) (rest : List Char) :
    readString ('\\' :: 'u' :: a :: b :: c :: d :: rest) =
      (readString rest).push (Char.ofNat unit) := by
  have hlow : isLowSurrogate unit = false := by
    rw [isLowSurrogate, decide_eq_false (by omega), Bool.false_and]
  have hhigh : isHighSurrogate unit = false := by
    rw [isHighSurrogate, decide_eq_false (by omega), Bool.false_and]
  rw [readString, h]
  simp only [hlow, hhigh]
  rfl

/-- A character that stands for itself. -/
theorem readString_plain {c : Char} (hquote : c ≠ '"') (hbackslash : c ≠ '\\')
    (h : ¬ c.toNat < 0x20) (rest : List Char) :
    readString (c :: rest) = (readString rest).push c := by
  rw [readString, if_neg h]
  · exact hquote
  · exact fun _ _ _ _ _ hc => absurd hc hbackslash
  · exact fun _ _ hc => absurd hc hbackslash

theorem codeUnit?_hexDigit : ∀ n < 0x20,
    codeUnit? '0' '0' (hexDigit (n / 16)) (hexDigit (n % 16)) = some n := by
  decide +kernel

/-- **A written character** is read back. -/
theorem readString_escapeChar (c : Char) (rest : List Char) :
    readString (escapeChar c ++ rest) = (readString rest).push c := by
  -- the characters that have a letter
  by_cases hquote : c = '"'
  · subst hquote
    exact readString_letter rfl rest
  by_cases hbackslash : c = '\\'
  · subst hbackslash
    exact readString_letter rfl rest
  by_cases hbackspace : c = '\x08'
  · subst hbackspace
    exact readString_letter rfl rest
  by_cases hformFeed : c = '\x0c'
  · subst hformFeed
    exact readString_letter rfl rest
  by_cases hlineFeed : c = '\n'
  · subst hlineFeed
    exact readString_letter rfl rest
  by_cases hreturn : c = '\r'
  · subst hreturn
    exact readString_letter rfl rest
  by_cases htab : c = '\t'
  · subst htab
    exact readString_letter rfl rest
  by_cases hcontrol : c.toNat < 0x20
  · have hescape : escapeChar c =
        ['\\', 'u', '0', '0', hexDigit (c.toNat / 16), hexDigit (c.toNat % 16)] := by
      simp [escapeChar, hquote, hbackslash, hbackspace, hformFeed, hlineFeed, hreturn, htab,
        hcontrol]
    have hread := readString_digits (codeUnit?_hexDigit c.toNat hcontrol) (by omega) rest
    rw [Char.ofNat_toNat] at hread
    rw [hescape]
    exact hread
  · have hescape : escapeChar c = [c] := by
      simp [escapeChar, hquote, hbackslash, hbackspace, hformFeed, hlineFeed, hreturn, htab,
        hcontrol]
    rw [hescape]
    exact readString_plain hquote hbackslash hcontrol rest

/-- **A written string** is read back. -/
theorem readString_flatMap (s rest : List Char) :
    readString (s.flatMap escapeChar ++ '"' :: rest) = some (some s, rest) := by
  induction s with
  | nil => rfl
  | cons c s ih =>
      rw [List.flatMap_cons, List.append_assoc, readString_escapeChar, ih]
      rfl

/-! ## Blanks -/

theorem skipSpaces_newLine (depth : Nat) (s : List Char) :
    skipSpaces (newLine depth ++ s) = skipSpaces s := by
  have hspaces : ∀ n, (List.replicate n ' ' ++ s).dropWhile isSpace = s.dropWhile isSpace := by
    intro n
    rw [List.dropWhile_append_of_pos]
    intro c hc
    rw [List.eq_of_mem_replicate hc]
    rfl
  exact hspaces (2 * depth)

theorem skipSpaces_cons {c : Char} (h : isSpace c = false) (s : List Char) :
    skipSpaces (c :: s) = c :: s := by
  rw [skipSpaces, List.dropWhile_cons_of_neg (by simp [h])]

/-! ## Values -/

mutual

/-- A value without numbers, in which all strings and keys have a text. -/
def Textual : Json → Prop
  | null | bool _ => True
  | number _ => False
  | string text => text.isSome = true
  | array items => TextualItems items
  | object fields => TextualFields fields

/-- Items that are all textual. -/
def TextualItems : List Json → Prop
  | [] => True
  | item :: items => item.Textual ∧ TextualItems items

/-- Fields that are all textual, with their keys. -/
def TextualFields : List (Option String × Json) → Prop
  | [] => True
  | (key, value) :: fields => key.isSome = true ∧ value.Textual ∧ TextualFields fields

end

/-- A written string starts with a quote, and is read back after it. -/
theorem readString_writeString {text : Option String} (h : text.isSome = true)
    (rest : List Char) : ∃ s, writeString text ++ rest = '"' :: s ∧
      (readString s).map (fun (read, after) => (ofText read, after)) = some (text, rest) := by
  obtain ⟨t, rfl⟩ := Option.isSome_iff_exists.mp h
  refine ⟨t.toList.flatMap escapeChar ++ '"' :: rest, by simp [writeString, writeText], ?_⟩
  rw [readString_flatMap]
  simp [ofText]

theorem onLines_cons (depth : Nat) (line : List Char) (lines : List (List Char)) :
    onLines depth (line :: lines) =
      newLine depth ++ line ++ if lines = [] then [] else ',' :: onLines depth lines := by
  cases lines with
  | nil => simp [onLines]
  | cons second lines => simp [onLines, List.intercalate]

/-- What a written value starts with tells it from a closer. -/
theorem exists_write (depth : Nat) (v : Json) (h : v.Textual) :
    ∃ c s, write depth v = c :: s ∧ isSpace c = false ∧ c ≠ ']' := by
  cases v with
  | null => exact ⟨_, _, rfl, rfl, by decide⟩
  | bool b => cases b <;> exact ⟨_, _, rfl, rfl, by decide⟩
  | number literal => exact absurd h id
  | string text => exact ⟨_, _, rfl, rfl, by decide⟩
  | array items => cases items <;> exact ⟨_, _, rfl, rfl, by decide⟩
  | object fields => cases fields <;> exact ⟨_, _, rfl, rfl, by decide⟩

theorem skipSpaces_write (depth : Nat) {v : Json} (h : v.Textual) (rest : List Char) :
    skipSpaces (write depth v ++ rest) = write depth v ++ rest := by
  obtain ⟨c, s, hwrite, hspace, -⟩ := exists_write depth v h
  rw [hwrite]
  exact skipSpaces_cons hspace (s ++ rest)

theorem onLines_writeItems (depth : Nat) (item : Json) (items : List Json) :
    onLines depth (writeItems depth (item :: items)) = newLine depth ++ write depth item ++
      if items = [] then [] else ',' :: onLines depth (writeItems depth items) := by
  rw [writeItems, onLines_cons]
  cases items <;> simp [writeItems]

theorem onLines_writeFields (depth : Nat) (key : Option String) (value : Json)
    (fields : List (Option String × Json)) :
    onLines depth (writeFields depth ((key, value) :: fields)) =
      newLine depth ++ (writeString key ++ ": ".toList ++ write depth value) ++
        if fields = [] then [] else ',' :: onLines depth (writeFields depth fields) := by
  rw [writeFields, onLines_cons]
  cases fields <;> simp [writeFields]

/-- Items do not start with a closer. -/
theorem skipSpaces_writeItems_ne (depth : Nat) {item : Json} (h : item.Textual)
    (items : List Json) (rest after : List Char) :
    skipSpaces (onLines depth (writeItems depth (item :: items)) ++ rest) ≠ ']' :: after := by
  obtain ⟨c, s, hwrite, -, hclose⟩ := exists_write depth item h
  simp only [onLines_writeItems, List.append_assoc, skipSpaces_newLine]
  rw [skipSpaces_write _ h, hwrite]
  exact fun heq => hclose (List.cons.inj heq).1

/-- Fields start with the quote of a key. -/
theorem skipSpaces_writeFields_ne (depth : Nat) (key : Option String) (value : Json)
    (fields : List (Option String × Json)) (rest after : List Char) :
    skipSpaces (onLines depth (writeFields depth ((key, value) :: fields)) ++ rest) ≠
      '\x7d' :: after := by
  simp only [onLines_writeFields, List.append_assoc, skipSpaces_newLine]
  exact fun heq => absurd (List.cons.inj heq).1 (by decide)

/-- An array that does not close at once. -/
theorem readValue_array {s rest : List Char} (hs : skipSpaces s = '[' :: rest)
    (hopen : ∀ after, skipSpaces rest ≠ ']' :: after) (fuel : Nat) :
    readValue (fuel + 1) s =
      (readItems fuel rest).map fun (items, rest) => (array items, rest) := by
  simp only [readValue, hs]

/-- An object that does not close at once. -/
theorem readValue_object {s rest : List Char} (hs : skipSpaces s = '\x7b' :: rest)
    (hopen : ∀ after, skipSpaces rest ≠ '\x7d' :: after) (fuel : Nat) :
    readValue (fuel + 1) s =
      (readFields fuel rest).map fun (fields, rest) => (object fields, rest) := by
  simp only [readValue, hs]

/-- The first item of an array, once it is read, which a closer or a comma
follows. -/
theorem readItems_item {fuel : Nat} {s : List Char} {item : Json} {after : List Char}
    (h : readValue fuel s = some (item, after)) :
    (∀ rest, skipSpaces after = ']' :: rest → readItems (fuel + 1) s = some ([item], rest)) ∧
    ∀ rest, skipSpaces after = ',' :: rest → readItems (fuel + 1) s =
      (readItems fuel rest).map fun (items, rest) => (item :: items, rest) := by
  rw [readItems, h]
  constructor
  · intro rest hclose
    simp only [hclose]
  · intro rest hcomma
    simp only [hcomma]

/-- The first field of an object, once its value is read, which a closer or a
comma follows. -/
theorem readFields_field (depth : Nat) {key : Option String} (hkey : key.isSome = true)
    {value : Json} {fuel : Nat} {after : List Char}
    (hvalue : readValue fuel (' ' :: (write depth value ++ after)) = some (value, after)) :
    (∀ rest, skipSpaces after = '\x7d' :: rest →
      readFields (fuel + 1)
          (newLine depth ++ (writeString key ++ ": ".toList ++ write depth value) ++ after) =
        some ([(key, value)], rest)) ∧
    ∀ rest, skipSpaces after = ',' :: rest →
      readFields (fuel + 1)
          (newLine depth ++ (writeString key ++ ": ".toList ++ write depth value) ++ after) =
        (readFields fuel rest).map fun (fields, rest) => ((key, value) :: fields, rest) := by
  obtain ⟨s, hs, hread⟩ :=
    readString_writeString hkey (':' :: ' ' :: (write depth value ++ after))
  obtain ⟨⟨text, rest⟩, hstring, heq⟩ := Option.map_eq_some_iff.mp hread
  simp only [Prod.mk.injEq] at heq
  obtain ⟨rfl, rfl⟩ := heq
  have hopen : skipSpaces (newLine depth ++
      (writeString (ofText text) ++ ": ".toList ++ write depth value) ++ after) = '"' :: s := by
    rw [List.append_assoc, skipSpaces_newLine, ← skipSpaces_cons (c := '"') rfl s, ← hs]
    simp
  have hcolon : ∀ s, skipSpaces (':' :: s) = ':' :: s := skipSpaces_cons rfl
  rw [readFields, hopen]
  constructor
  · intro rest hclose
    simp only [hstring, hcolon, hvalue, hclose]
  · intro rest hcomma
    simp only [hstring, hcolon, hvalue, hcomma]

mutual

/-- **A written value** is read back, whatever follows. -/
theorem readValue_write (depth : Nat) (rest : List Char) : (v : Json) → v.Textual →
    ∀ (fuel : Nat) {s : List Char}, skipSpaces s = write depth v ++ rest →
      2 * (write depth v).length ≤ fuel → readValue fuel s = some (v, rest)
  | null, _, fuel + 1, s, hs, _ => by
      rw [readValue, hs]
      rfl
  | bool true, _, fuel + 1, s, hs, _ => by
      rw [readValue, hs]
      rfl
  | bool false, _, fuel + 1, s, hs, _ => by
      rw [readValue, hs]
      rfl
  | string text, h, fuel + 1, s, hs, _ => by
      obtain ⟨after, hafter, hread⟩ := readString_writeString h rest
      rw [write, hafter] at hs
      rw [readValue, hs]
      obtain ⟨⟨read, rest'⟩, hstring, heq⟩ := Option.map_eq_some_iff.mp hread
      cases heq
      simp only [hstring]
      rfl
  | array [], _, fuel + 1, s, hs, _ => by
      rw [readValue, hs]
      rfl
  | array (item :: items), h, fuel + 1, s, hs, hfuel => by
      have hopen := skipSpaces_writeItems_ne (depth + 1) h.1 items (newLine depth ++ ']' :: rest)
      rw [← List.append_assoc] at hopen
      rw [readValue_array (by rw [hs]; simp [write]) hopen, readItems_write (depth + 1) depth rest
        (item :: items) h (by simp) fuel (by simp [write] at hfuel; omega)]
      rfl
  | object [], _, fuel + 1, s, hs, _ => by
      rw [readValue, hs]
      rfl
  | object ((key, value) :: fields), h, fuel + 1, s, hs, hfuel => by
      have hopen := skipSpaces_writeFields_ne (depth + 1) key value fields
        (newLine depth ++ '\x7d' :: rest)
      rw [← List.append_assoc] at hopen
      rw [readValue_object (by rw [hs]; simp [write]) hopen, readFields_write (depth + 1) depth rest
        ((key, value) :: fields) h (by simp) fuel (by simp [write] at hfuel; omega)]
      rfl
  | v, h, 0, s, _, hfuel => by
      -- nothing is written without a character
      obtain ⟨c, t, hwrite, -⟩ := exists_write depth v h
      simp [hwrite] at hfuel

theorem readItems_write (depth below : Nat) (rest : List Char) : (items : List Json) →
    TextualItems items → items ≠ [] → ∀ fuel : Nat,
      2 * (onLines depth (writeItems depth items)).length + 1 ≤ fuel →
        readItems fuel (onLines depth (writeItems depth items) ++ newLine below ++ ']' :: rest) =
          some (items, rest)
  | item :: items, h, _, fuel + 1, hfuel => by
      -- the line feed before an item pays for the step to it
      obtain ⟨hitem, hitems⟩ := h
      rw [onLines_writeItems] at hfuel ⊢
      simp only [List.length_append] at hfuel
      have hfirst := fun after => readItems_item (readValue_write depth after item hitem fuel
        (s := newLine depth ++ (write depth item ++ after))
        (by rw [skipSpaces_newLine, skipSpaces_write depth hitem]) (by omega))
      simp only [List.append_assoc]
      cases items with
      | nil =>
          rw [if_pos rfl]
          refine (hfirst _).1 rest ?_
          rw [List.nil_append, skipSpaces_newLine, skipSpaces_cons rfl]
      | cons second more =>
          rw [if_neg (by simp)] at hfuel ⊢
          have hmore := readItems_write depth below rest (second :: more) hitems (by simp)
            fuel (by rw [List.length_cons] at hfuel; omega)
          rw [List.cons_append, (hfirst _).2 _ (skipSpaces_cons rfl _), ← List.append_assoc, hmore]
          rfl

theorem readFields_write (depth below : Nat) (rest : List Char) :
    (fields : List (Option String × Json)) → TextualFields fields → fields ≠ [] → ∀ fuel : Nat,
      2 * (onLines depth (writeFields depth fields)).length + 1 ≤ fuel →
        readFields fuel
            (onLines depth (writeFields depth fields) ++ newLine below ++ '\x7d' :: rest) =
          some (fields, rest)
  | (key, value) :: fields, h, _, fuel + 1, hfuel => by
      obtain ⟨hkey, hvalue, hfields⟩ := h
      rw [onLines_writeFields] at hfuel ⊢
      simp only [List.length_append] at hfuel
      have hfirst := fun after => readFields_field depth hkey
        (readValue_write depth after value hvalue fuel
          (s := ' ' :: (write depth value ++ after)) (skipSpaces_write depth hvalue after)
          (by omega))
      rw [List.append_assoc, List.append_assoc]
      cases fields with
      | nil =>
          rw [if_pos rfl]
          refine (hfirst _).1 rest ?_
          rw [List.nil_append, skipSpaces_newLine, skipSpaces_cons rfl]
      | cons second more =>
          rw [if_neg (by simp)] at hfuel ⊢
          have hmore := readFields_write depth below rest (second :: more) hfields (by simp)
            fuel (by rw [List.length_cons] at hfuel; omega)
          rw [List.cons_append, (hfirst _).2 _ (skipSpaces_cons rfl _), ← List.append_assoc, hmore]
          rfl

end

/-- **Reading undoes writing** for textual values. -/
theorem read_render {v : Json} (h : v.Textual) : read v.render = some v := by
  have hskip : skipSpaces (write 0 v) = write 0 v ++ [] := by
    rw [← skipSpaces_write 0 h [], List.append_nil]
  rw [read, render, String.toList_ofList]
  simp only [readValue_write 0 [] v h _ hskip (Nat.le_add_right _ 2)]
  rfl

end CommandForest.Json
