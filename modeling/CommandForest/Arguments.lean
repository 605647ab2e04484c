import CommandForest.Value

/-!
# CommandForest.Arguments

What a handler takes that declares kinds:

* `ValueKind.content?` takes out of a value what it holds, if the value is of the kind;
* `Arguments` hold something of each kind, and `Arguments.ofValues?` takes them out of as many values
  as there are kinds, one after the other.

There are arguments in values exactly if they are of the kinds
(`Arguments.isSome_ofValues?_iff`), and the arguments make up the values again
(`Arguments.ofValues?_eq_some_iff`).
-/

namespace CommandForest

/-! ## One value -/

namespace PayloadKind

/-- What a payload holds, if it is of this kind. -/
def content? : (kind : PayloadKind) → Payload → Option kind.Carrier
  | text, payload => payload.text?
  | word, payload => payload.word?
  | named name, payload => payload.named? name

theorem content?_eq_some_iff {kind : PayloadKind} {payload : Payload} {content : kind.Carrier} :
    kind.content? payload = some content ↔ payload = ⟨kind, content⟩ := by
  obtain ⟨own, held⟩ := payload
  cases kind with
  | text => cases own <;> simp [content?, Payload.text?]
  | word => cases own <;> simp [content?, Payload.word?]
  | named name =>
    cases own with
    | text | word => simp [content?, Payload.named?]
    | named ownName =>
      by_cases h : ownName = name
      · subst h
        simp [content?, Payload.named?]
      · simp [content?, Payload.named?, h]

end PayloadKind

namespace ValueKind

/-- What a value of this kind holds. -/
abbrev Carrier : ValueKind → Type
  | string => String
  | int => Int64
  | double => Number.Binary64
  | custom kind => kind.Carrier

/-- The value of this kind that holds the content. -/
def value : (kind : ValueKind) → kind.Carrier → Value
  | string, s => .string s
  | int, n => .int n
  | double, x => .double x
  | custom kind, content => .custom ⟨kind, content⟩

@[simp] theorem kind_value (kind : ValueKind) (content : kind.Carrier) :
    (kind.value content).kind = kind := by
  cases kind <;> rfl

/-- What a value holds, if it is of this kind. -/
def content? : (kind : ValueKind) → Value → Option kind.Carrier
  | string, v => v.string?
  | int, v => v.int?
  | double, v => v.double?
  | custom kind, v => v.payload?.bind kind.content?

theorem content?_eq_some_iff {kind : ValueKind} {v : Value} {content : kind.Carrier} :
    kind.content? v = some content ↔ v = kind.value content := by
  cases kind with
  | string => cases v <;> simp [content?, value, Value.string?]
  | int => cases v <;> simp [content?, value, Value.int?]
  | double => cases v <;> simp [content?, value, Value.double?]
  | custom kind =>
    cases v <;> simp [content?, value, Value.payload?, PayloadKind.content?_eq_some_iff]

end ValueKind

/-- A value holds something of its own kind. -/
theorem Value.exists_value (v : Value) : ∃ content, v.kind.value content = v := by
  cases v with
  | string s => exact ⟨s, rfl⟩
  | int n => exact ⟨n, rfl⟩
  | double x => exact ⟨x, rfl⟩
  | custom payload => exact ⟨payload.content, rfl⟩

/-! ## All values -/

/-- Something of each kind, in order. -/
inductive Arguments : List ValueKind → Type
  | nil : Arguments []
  | cons {kind : ValueKind} {kinds : List ValueKind} (content : kind.Carrier)
      (rest : Arguments kinds) : Arguments (kind :: kinds)

namespace Arguments

/-- The values that hold the arguments. -/
def values : {kinds : List ValueKind} → Arguments kinds → List Value
  | _, nil => []
  | kind :: _, cons content rest => kind.value content :: rest.values

/-- Takes arguments out of values, one for each kind. -/
def ofEach? : (kinds : List ValueKind) → List Value → Option (Arguments kinds)
  | [], _ => some nil
  | _ :: _, [] => none
  | kind :: kinds, v :: more => do
    let content ← kind.content? v
    let rest ← ofEach? kinds more
    return cons content rest

/-- Takes arguments of these kinds out of values, if there are as many of them. -/
def ofValues? (kinds : List ValueKind) (values : List Value) : Option (Arguments kinds) :=
  if values.length = kinds.length then ofEach? kinds values else none

variable {kinds : List ValueKind}

/-- The values that hold arguments are of their kinds. -/
theorem kinds_values (arguments : Arguments kinds) : arguments.values.map Value.kind = kinds := by
  induction arguments with
  | nil => rfl
  | cons content rest ih => rw [values, List.map_cons, ValueKind.kind_value, ih]

/-- Any values hold arguments of their own kinds. -/
theorem exists_values (vs : List Value) :
    ∃ arguments : Arguments (vs.map Value.kind), arguments.values = vs := by
  induction vs with
  | nil => exact ⟨nil, rfl⟩
  | cons v more ih =>
    obtain ⟨content, hcontent⟩ := v.exists_value
    obtain ⟨rest, hrest⟩ := ih
    exact ⟨cons content rest, by rw [values, hcontent, hrest]⟩

theorem ofEach?_eq_some_iff {vs : List Value} (hlength : vs.length = kinds.length)
    {arguments : Arguments kinds} :
    ofEach? kinds vs = some arguments ↔ vs = arguments.values := by
  induction arguments generalizing vs with
  | nil =>
    obtain rfl : vs = [] := List.length_eq_zero_iff.mp hlength
    simp [ofEach?, values]
  | cons content rest ih =>
    cases vs with
    | nil => contradiction
    | cons v more =>
      have hmore := ih (Nat.succ.inj hlength)
      simp [ofEach?, values, Option.bind_eq_some_iff, ValueKind.content?_eq_some_iff, hmore]

/-- **Arguments are taken out** of the values that hold them. -/
theorem ofValues?_eq_some_iff {vs : List Value} {arguments : Arguments kinds} :
    ofValues? kinds vs = some arguments ↔ vs = arguments.values := by
  rw [ofValues?]
  split
  · next hlength => exact ofEach?_eq_some_iff hlength
  · next hlength =>
    refine ⟨fun h => by contradiction, fun h => absurd ?_ hlength⟩
    rw [h, ← List.length_map (f := Value.kind), arguments.kinds_values]

/-- There are arguments of these kinds in values of these kinds, and in no others. -/
theorem isSome_ofValues?_iff {vs : List Value} :
    (ofValues? kinds vs).isSome ↔ vs.map Value.kind = kinds := by
  rw [Option.isSome_iff_exists]
  constructor
  · rintro ⟨arguments, h⟩
    rw [ofValues?_eq_some_iff.mp h, arguments.kinds_values]
  · rintro rfl
    obtain ⟨arguments, h⟩ := exists_values vs
    exact ⟨arguments, ofValues?_eq_some_iff.mpr h.symm⟩

end Arguments

end CommandForest
