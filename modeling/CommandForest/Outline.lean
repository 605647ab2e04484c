import CommandForest.Branch
import CommandForest.Definition

/-!
# CommandForest.Outline

What is declared of a command and of the commands below it, without what it is bound to:

* `Forest.outline?` takes the outline of a command;
* `Outline.declare` turns outlines back into declarations.
-/

namespace CommandForest

/-- The declared form of a command. Parameters are written `type:name`. -/
structure Outline where
  aliases : List String
  parameters : List String := []
  hook : Option String := none
  permission : Option String := none
  audience : Audience := .everyone
  help : Option String := none
  hidesSubcommands : Bool := false
  children : List Outline := []

namespace Outline

/-! ## Equality -/

/-- Equality of all that is not below. -/
def sameHead (a b : Outline) : Bool :=
  a.aliases = b.aliases && a.parameters = b.parameters && a.hook = b.hook &&
    a.permission = b.permission && a.audience = b.audience && a.help = b.help &&
    a.hidesSubcommands = b.hidesSubcommands

mutual

/-- Equality of outlines. -/
def same : Outline → Outline → Bool
  | ⟨a₁, a₂, a₃, a₄, a₅, a₆, a₇, as⟩, ⟨b₁, b₂, b₃, b₄, b₅, b₆, b₇, bs⟩ =>
    sameHead ⟨a₁, a₂, a₃, a₄, a₅, a₆, a₇, []⟩ ⟨b₁, b₂, b₃, b₄, b₅, b₆, b₇, []⟩ && sameAll as bs

/-- Equality of lists of outlines. -/
def sameAll : List Outline → List Outline → Bool
  | [], [] => true
  | a :: as, b :: bs => same a b && sameAll as bs
  | _, _ => false

end

mutual

/-- `same` decides equality. -/
theorem same_iff_eq : ∀ a b : Outline, same a b = true ↔ a = b
  | ⟨a₁, a₂, a₃, a₄, a₅, a₆, a₇, as⟩, ⟨b₁, b₂, b₃, b₄, b₅, b₆, b₇, bs⟩ => by
    simp [same, sameHead, sameAll_iff_eq as bs, and_assoc]

/-- `sameAll` decides equality of lists. -/
theorem sameAll_iff_eq : ∀ as bs : List Outline, sameAll as bs = true ↔ as = bs
  | [], [] => by simp [sameAll]
  | [], b :: bs => by simp [sameAll]
  | a :: as, [] => by simp [sameAll]
  | a :: as, b :: bs => by simp [sameAll, same_iff_eq a b, sameAll_iff_eq as bs]

end

instance : DecidableEq Outline := fun a b => decidable_of_iff _ (same_iff_eq a b)

/-! ## To and from commands -/

/-- The outline of a command with these outlines below it. -/
def ofCommand (c : Command) (children : List Outline) : Outline where
  aliases := c.aliases
  parameters := c.parameters.map Parameter.token
  hook := c.hook
  permission := c.permission
  audience := c.audience
  help := c.help
  hidesSubcommands := c.hidesSubcommands
  children := children

/-- Reads the parameters of an outline; the first that is malformed is the answer otherwise. -/
def readParameters : List String → Except String (List Parameter)
  | [] => .ok []
  | token :: rest =>
    match Parameter.read? token.toList with
    | none => .error token
    | some p => (readParameters rest).map (p :: ·)

mutual

/-- The declaration of an outline, or the first malformed parameter, parents before children. -/
def declare : Outline → Except String Declaration
  | ⟨aliases, parameters, hook, permission, audience, help, hidesSubcommands, children⟩ =>
    match readParameters parameters with
    | .error token => .error token
    | .ok parameters =>
      (declareAll children).map fun below =>
        .mk { aliases, parameters, hook, permission, audience, help, hidesSubcommands } below

/-- The declarations of several outlines. -/
def declareAll : List Outline → Except String (List Declaration)
  | [] => .ok []
  | o :: rest =>
    match declare o with
    | .error token => .error token
    | .ok d => (declareAll rest).map (d :: ·)

end

end Outline

mutual

/-- The outline of a branch. -/
def Branch.outline : Branch → Outline
  | .mk _ c children => .ofCommand c (Branch.outlines children)

/-- The outlines of several branches. -/
def Branch.outlines : List Branch → List Outline
  | [] => []
  | b :: rest => b.outline :: Branch.outlines rest

end

namespace Forest

/-- The outline of a command. -/
def outline? (f : Forest) (id : CommandId) : Option Outline := (f.branch? id).map Branch.outline

/-- The outlines of all roots. -/
def outlines (f : Forest) : List Outline := Branch.outlines f.branches

end Forest

end CommandForest
