import CommandForest.Arguments
import CommandForest.Sender
import CommandForest.Text.Quoted

/-!
# CommandForest.Handler

Handlers answer commands:

* a `Handler` turns a sender and values into a `Response`, and may declare which kinds of values it
  takes;
* `Handler.typed` takes its arguments out of the values, and refuses values of other kinds than it
  declares (`Handler.respond_typed`);
* `Handlers` holds one handler for each hook, and the first one stays.
-/

namespace CommandForest

/-! ## Responses -/

/-- Why a handler failed. -/
inductive Failure
  /-- The values were not of the kinds that the handler takes. -/
  | signature (given declared : List ValueKind)
  /-- The causes, outermost first. -/
  | causes (chain : List String)

namespace Failure

/-- The wording of a failure. -/
def message : Failure → String
  | signature given declared =>
    "handler takes (" ++ kindList declared ++ ") but was given (" ++ kindList given ++ ")"
  | causes chain => Text.joined ": " chain

end Failure

/-- What a handler sends, and why it failed if it did. -/
structure Response where
  messages : List String
  failure : Option Failure := none

/-! ## Handlers -/

/-- An answer to commands, with the kinds of values that it takes if it declares them. -/
structure Handler where
  signature : Option (List ValueKind)
  respond : Sender → List Value → Response

namespace Handler

/-- A handler that takes arguments of exactly these kinds. -/
def typed (declared : List ValueKind) (body : Sender → List Value → Response) : Handler where
  signature := some declared
  respond sender values :=
    match Arguments.ofValues? declared values with
    | some arguments => body sender arguments.values
    | none => { messages := [], failure := some (.signature (values.map Value.kind) declared) }

/-- The arguments are there if the kinds agree, and make up the values. -/
theorem respond_typed (declared : List ValueKind) (body : Sender → List Value → Response)
    (sender : Sender) (values : List Value) :
    (typed declared body).respond sender values =
      if values.map Value.kind = declared then body sender values
      else { messages := [], failure := some (.signature (values.map Value.kind) declared) } := by
  rw [typed]
  dsimp only
  cases harguments : Arguments.ofValues? declared values with
  | some arguments =>
    have hvalues := Arguments.ofValues?_eq_some_iff.mp harguments
    rw [if_pos (by rw [hvalues, arguments.kinds_values]), hvalues]
  | none =>
    have hkinds : values.map Value.kind ≠ declared := fun h => by
      have hsome := Arguments.isSome_ofValues?_iff.mpr h
      simp [harguments] at hsome
    rw [if_neg hkinds]

/-- A handler that takes any values. -/
def untyped (body : Sender → List Value → Response) : Handler where
  signature := none
  respond := body

/-- The same handler with its signature kept to itself. -/
def undeclared (h : Handler) : Handler := { h with signature := none }

/-! ## Ready-made handlers -/

/-- Sends the hook and the values in parentheses. -/
def echo (hook : String) : Handler :=
  untyped fun _ values =>
    { messages := [hook ++ "(" ++ Text.joined ", " (values.map Value.render) ++ ")"] }

/-- The message that shows the hook and the values with their payloads in brackets. -/
def revealed (label : PayloadKind → String) (hook : String) (values : List Value) : Response :=
  { messages := [hook ++ "[" ++ Text.joined "|" (values.map (Value.reveal label)) ++ "]"] }

/-- Sends the hook and the values with their payloads. -/
def reveal (label : PayloadKind → String) (hook : String) : Handler :=
  untyped fun _ values => revealed label hook values

/-- Sends the messages and then fails. -/
def failing (messages chain : List String) : Handler :=
  untyped fun _ _ => { messages := messages, failure := some (.causes chain) }

end Handler

/-! ## Handlers by hook -/

/-- A hook was offered a second handler. -/
structure DuplicateHook where
  hook : String

/-- The wording of the refusal. -/
def DuplicateHook.message (e : DuplicateHook) : String :=
  "hook '" ++ e.hook ++ "' already has a handler"

/-- One handler for each hook. -/
structure Handlers where
  entries : List (String × Handler) := []

namespace Handlers

/-- The handler of a hook. -/
def find? (hs : Handlers) (hook : String) : Option Handler :=
  (hs.entries.find? fun entry => entry.1 == hook).map Prod.snd

/-- Whether a hook has a handler. -/
def contains (hs : Handlers) (hook : String) : Bool := hs.entries.any fun entry => entry.1 == hook

/-- How many hooks have a handler. -/
def size (hs : Handlers) : Nat := hs.entries.length

/-- Adds the handler of a new hook. -/
def insert (hs : Handlers) (hook : String) (handler : Handler) : Except DuplicateHook Handlers :=
  if hs.contains hook then .error ⟨hook⟩ else .ok ⟨(hook, handler) :: hs.entries⟩

/-- A handler just added is found under its hook. -/
theorem find?_of_insert {hs grown : Handlers} {hook : String} {handler : Handler}
    (h : hs.insert hook handler = .ok grown) : grown.find? hook = some handler := by
  unfold insert at h
  split at h
  · cases h
  · cases h
    simp [find?]

/-- The hooks in order. -/
def hooks (hs : Handlers) : List String :=
  (hs.entries.map Prod.fst).mergeSort fun a b => a ≤ b

/-- The listing of the hooks. -/
def describe (hs : Handlers) : String :=
  "HandlerRegistry \x7b hooks: [" ++ Text.joined ", " (hs.hooks.map Text.quoted) ++ "] \x7d"

end Handlers

end CommandForest
