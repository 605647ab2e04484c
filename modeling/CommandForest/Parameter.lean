import CommandForest.Number.Decimal
import CommandForest.Provider

/-!
# CommandForest.Parameter

The parameters that a command declares, written `type:name`:

* the type is one of four built-in names in any ASCII case, or the name of a type provider;
* stars around the type do not count, except that a leading one hides the type in help;
* a parameter settles on the first provider found for its type and keeps it, so a provider that is
  replaced later does not reach it.
-/

namespace CommandForest

/-! ## Kinds of parameters -/

/-- What a parameter makes of a word. -/
inductive ParameterKind
  | string
  | int
  | double
  | multistring
  | custom (name : String)
deriving DecidableEq

/-- Drops the stars at both ends. -/
def stripStars (s : List Char) : List Char :=
  ((s.dropWhile (· == '*')).reverse.dropWhile (· == '*')).reverse

/-- The kind that the type part of a parameter stands for. -/
def ParameterKind.ofType (rawType : String) : ParameterKind :=
  let bare := stripStars rawType.toList
  let word := Text.lowerAscii bare
  if word = "string".toList then string
  else if word = "int".toList then int
  else if word = "double".toList then double
  else if word = "multistring".toList then multistring
  else custom (String.ofList bare)

/-- A declared parameter: its type as written, its name, and the provider it has settled on. -/
structure Parameter where
  rawType : String
  name : String
  settled : Option Provider := none

namespace Parameter

/-! ## Reading and writing -/

/-- Reads `type:name`. Both parts must be there, the type with more than stars. -/
def read? (token : List Char) : Option Parameter :=
  match Text.cut ':' token with
  | none => none
  | some (rawType, name) =>
    if (stripStars rawType).isEmpty || name.isEmpty then none
    else some { rawType := String.ofList rawType, name := String.ofList name }

/-- The parameter as a header writes it. -/
def token (p : Parameter) : String := p.rawType ++ ":" ++ p.name

/-- Writing a parameter that was read gives the same text. -/
theorem token_of_read? {token : List Char} {p : Parameter} (h : read? token = some p) :
    p.token.toList = token := by
  unfold read? at h
  split at h
  · cases h
  · rename_i rawType name hcut
    split at h
    · cases h
    · cases h
      simp [Parameter.token, Text.eq_append_of_cut hcut]

/-- What the parameter makes of a word. -/
def kind (p : Parameter) : ParameterKind := .ofType p.rawType

/-- Whether the parameter takes the rest of the line. -/
def takesRest (p : Parameter) : Bool := p.kind = .multistring

/-! ## Providers -/

/-- The provider of a custom parameter: the one it has settled on, or else the one in scope. -/
def provider? (p : Parameter) (scope : Providers) : Option Provider :=
  match p.kind with
  | .custom name => p.settled <|> scope.find? name
  | _ => none

/-- Keeps the provider found in scope, if there is one and none is kept already. -/
def settle (p : Parameter) (scope : Providers) : Parameter :=
  { p with settled := p.provider? scope <|> p.settled }

/-- Settling does not change which provider is found. -/
@[simp] theorem provider?_settle (p : Parameter) (scope : Providers) :
    (p.settle scope).provider? scope = p.provider? scope := by
  have hk : (p.settle scope).kind = p.kind := rfl
  simp only [provider?, hk]
  split
  · rename_i name h
    simp only [settle, provider?, h]
    cases p.settled <;> cases scope.find? name <;> rfl
  · rfl

/-- A parameter settles once. -/
theorem settle_settle (p : Parameter) (scope : Providers) :
    (p.settle scope).settle scope = p.settle scope := by
  have h := provider?_settle p scope
  simp only [settle] at h ⊢
  rw [h]
  cases p.provider? scope <;> rfl

/-- The kind of value that conversion yields, unless it depends on an unknown provider. -/
def yields (p : Parameter) (scope : Providers) : Option ValueKind :=
  match p.kind with
  | .string | .multistring => some .string
  | .int => some .int
  | .double => some .double
  | .custom _ => (p.provider? scope).map fun provider => .custom provider.kind

/-- The type as help shows it. -/
def shownType (p : Parameter) (scope : Providers) : String :=
  match p.kind with
  | .custom name => Text.lowered (((p.provider? scope).map Provider.name).getD name)
  | _ => String.ofList (Text.lower (stripStars p.rawType.toList))

/-- Whether help leaves the type out. -/
def hidesType (p : Parameter) : Bool := Text.begins "*" p.rawType

/-- The parameter in help: `<type:name>`, but `<type>` if the name is `_`, and `<name>` if the type
is hidden. -/
def display (p : Parameter) (scope : Providers) : String :=
  if p.hidesType then "<" ++ p.name ++ ">"
  else if p.name = "_" then "<" ++ p.shownType scope ++ ">"
  else "<" ++ p.shownType scope ++ ":" ++ p.name ++ ">"

end Parameter

end CommandForest
