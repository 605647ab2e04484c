/-!
# CommandForest.Sender

Whoever issues a command: the console or a player, and the permissions they hold. An `Audience`
says which of the two a command is for.
-/

namespace CommandForest

/-! ## Senders -/

/-- The two kinds of issuers. -/
inductive SenderKind
  | console
  | player
deriving DecidableEq

/-- An issuer of commands. -/
structure Sender where
  kind : SenderKind
  holds : String → Bool

namespace Sender

/-- A sender who holds exactly the granted permissions; the grant `*` grants all of them. -/
def ofGrants (kind : SenderKind) (grants : List String) : Sender where
  kind := kind
  holds permission := grants.contains "*" || grants.contains permission

end Sender

/-! ## Audiences -/

/-- Whom a command is for. -/
inductive Audience
  | everyone
  | console
  | player
deriving DecidableEq

namespace Audience

/-- The word that definitions and outlines use. -/
def word : Audience → String
  | everyone => "everyone"
  | console => "console"
  | player => "player"

/-- The audience that a word stands for. -/
def ofWord? (s : String) : Option Audience :=
  if s = "everyone" then some everyone
  else if s = "console" then some console
  else if s = "player" then some player
  else none

/-- Reading the word of an audience gives it back. -/
@[simp] theorem ofWord?_word (a : Audience) : ofWord? a.word = some a := by
  cases a <;> decide

/-- Whether senders of this kind belong to the audience. -/
def admits : Audience → SenderKind → Bool
  | everyone, _ => true
  | console, kind => kind = .console
  | player, kind => kind = .player

end Audience

end CommandForest
