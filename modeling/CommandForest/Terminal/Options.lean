import CommandForest.Choices

/-!
# CommandForest.Terminal.Options

The arguments of the program: options, a task, and the words of the task.

* Options that take a value take it after an equals sign or as the next argument, and no option but
  `--grant` and `--choices` may be given twice on one side of the task.
* They may stand before or after the task; what stands after it counts.
* The words of `run` are everything from its first word on, options or not.
-/

namespace CommandForest.Terminal

/-! ## Tasks and settings -/

/-- How a forest is written. -/
inductive Format
  | source
  | json
  | yaml
deriving DecidableEq

/-- The format of a word. -/
def Format.ofWord? (s : String) : Option Format :=
  if s = "dsl" then some source
  else if s = "json" then some json
  else if s = "yaml" then some yaml
  else none

/-- What the program is to do. -/
inductive Task
  | run (words : List String)
  | complete (line : String)
  | tree (format : Format)
  | repl
deriving DecidableEq

/-- The options that were given, those of one side of the task or of both. -/
structure Settings where
  file : Option String := none
  qualifier : Option String := none
  console : Bool := false
  grants : List String := []
  messages : Option String := none
  choices : List Choices := []
  verbose : Bool := false
  format : Option Format := none
deriving DecidableEq

/-- The settings of both sides, where those after the task replace those before it. -/
def Settings.merge (before after : Settings) : Settings where
  file := after.file <|> before.file
  qualifier := after.qualifier <|> before.qualifier
  console := before.console || after.console
  grants := if after.grants.isEmpty then before.grants else after.grants
  messages := after.messages <|> before.messages
  choices := if after.choices.isEmpty then before.choices else after.choices
  verbose := before.verbose || after.verbose
  format := after.format <|> before.format

/-- Why no task is run. -/
inductive Stop
  | usage
  | help
  | version
deriving DecidableEq

/-! ## Options -/

/-- The options of the program. -/
inductive OptionName
  | file
  | qualifier
  | console
  | grant
  | messages
  | choices
  | verbose
  | format
  | help
  | version
deriving DecidableEq

namespace OptionName

/-- Where an option may stand. -/
inductive Side
  | beforeTask
  | afterTask (task : String)
deriving DecidableEq

/-- The option of a long name. -/
def ofLong? (side : Side) (name : String) : Option OptionName :=
  if name = "file" then some file
  else if name = "prefix" then some qualifier
  else if name = "console" then some console
  else if name = "grant" then some grant
  else if name = "messages" then some messages
  else if name = "choices" then some choices
  else if name = "verbose" then some verbose
  else if name = "help" then some help
  else if name = "version" && side = .beforeTask then some version
  else if name = "format" && side = .afterTask "tree" then some format
  else none

/-- The option of a letter. -/
def ofLetter? (side : Side) (c : Char) : Option OptionName :=
  if c = 'f' then some file
  else if c = 'v' then some verbose
  else if c = 'h' then some help
  else if c = 'V' && side = .beforeTask then some version
  else none

/-- Whether an option stands before a value. -/
def takesValue : OptionName → Bool
  | file | qualifier | grant | messages | choices | format => true
  | console | verbose | help | version => false

end OptionName

namespace Settings

/-- Sets what may be set once. -/
def once (old : Option α) (new : α) (store : Option α → Settings) : Except Stop Settings :=
  match old with
  | none => .ok (store (some new))
  | some _ => .error .usage

/-- A path is not empty. -/
def path (s : String) : Except Stop String := if s.isEmpty then .error .usage else .ok s

/-- Takes an option with its value. -/
def assign (g : Settings) (name : OptionName) (value : String) : Except Stop Settings :=
  match name with
  | .file => do once g.file (← path value) fun v => { g with file := v }
  | .messages => do once g.messages (← path value) fun v => { g with messages := v }
  | .qualifier => once g.qualifier value fun v => { g with qualifier := v }
  | .grant => .ok { g with grants := g.grants ++ [value] }
  | .choices =>
    match Choices.read value with
    | .ok c => .ok { g with choices := g.choices ++ [c] }
    | .error _ => .error .usage
  | .format =>
    match Format.ofWord? value with
    | some format => once g.format format fun v => { g with format := v }
    | none => .error .usage
  | .console | .verbose | .help | .version => .error .usage

/-- Takes an option without a value. -/
def raise (g : Settings) (name : OptionName) : Except Stop Settings :=
  match name with
  | .console => if g.console then .error .usage else .ok { g with console := true }
  | .verbose => if g.verbose then .error .usage else .ok { g with verbose := true }
  | .help => .error .help
  | .version => .error .version
  | _ => .error .usage

end Settings

/-! ## Single arguments -/

/-- What an argument looks like. -/
inductive Shape
  /-- Two hyphens: all that follows are words. -/
  | escape
  | long (name : String) (value : Option String)
  | letters (cs : List Char)
  | word
deriving DecidableEq

/-- The look of an argument. -/
def shapeOf (s : String) : Shape :=
  match s.toList with
  | ['-', '-'] => .escape
  | '-' :: '-' :: rest =>
    match Text.cut '=' rest with
    | some (name, value) => .long (String.ofList name) (some (String.ofList value))
    | none => .long (String.ofList rest) none
  | '-' :: c :: rest => .letters (c :: rest)
  | _ => .word

/-- Whether an argument names options of this side. -/
def isOption (side : OptionName.Side) (s : String) : Bool :=
  match shapeOf s with
  | .escape | .word => false
  | .long name _ => (OptionName.ofLong? side name).isSome
  | .letters cs => cs.all fun c => (OptionName.ofLetter? side c).isSome

/-- Takes a cluster of letters, and tells which option at its end still lacks its value. -/
def takeLetters (side : OptionName.Side) (g : Settings) :
    List Char → Except Stop (Settings × Option OptionName)
  | [] => .ok (g, none)
  | c :: rest =>
    match OptionName.ofLetter? side c with
    | none => .error .usage
    | some name =>
      if name.takesValue then
        match rest with
        | [] => .ok (g, some name)
        | '=' :: value => (g.assign name (String.ofList value)).map fun g => (g, none)
        | value => (g.assign name (String.ofList value)).map fun g => (g, none)
      else
        match g.raise name with
        | .error stop => .error stop
        | .ok g => takeLetters side g rest

/-- Takes an argument that is an option, and tells which option still lacks its value. -/
def takeOption (side : OptionName.Side) (g : Settings) (s : String) :
    Except Stop (Settings × Option OptionName) :=
  match shapeOf s with
  | .long name value =>
    match OptionName.ofLong? side name, value with
    | none, _ => .error .usage
    | some name, some value =>
      if name.takesValue then (g.assign name value).map fun g => (g, none) else .error .usage
    | some name, none =>
      if name.takesValue then .ok (g, some name) else (g.raise name).map fun g => (g, none)
  | .letters cs => takeLetters side g cs
  | .escape | .word => .error .usage

/-! ## All arguments -/

/-- Whether an argument can be the value of the option before it. -/
def canBeValue (side : OptionName.Side) (s : String) : Bool :=
  match shapeOf s with
  | .word => true
  | .escape => false
  | .long .. | .letters _ => side = .afterTask "run" && !isOption side s

/-- Takes options up to the first word, and gives the words from there on. `waiting` is an option
that lacks its value. -/
def takeOptions (side : OptionName.Side) (waiting : Option OptionName) (g : Settings) :
    List String → Except Stop (Settings × List String)
  | [] => if waiting.isSome then .error .usage else .ok (g, [])
  | s :: rest =>
    match waiting with
    | some name =>
      if canBeValue side s then
        match g.assign name s with
        | .error stop => .error stop
        | .ok g => takeOptions side none g rest
      else
        .error .usage
    | none =>
      match shapeOf s with
      | .word => .ok (g, s :: rest)
      | .escape => .ok (g, s :: rest)
      | .long .. | .letters _ =>
        if side = .afterTask "run" && !isOption side s then .ok (g, s :: rest)
        else
          match takeOption side g s with
          | .error stop => .error stop
          | .ok (g, waiting) => takeOptions side waiting g rest

/-- Takes the options around the words of a task, of which there are at most `most`. -/
def takeWords (side : OptionName.Side) (g : Settings) (most : Nat) :
    (fuel : Nat) → List String → Except Stop (Settings × List String)
  | 0, _ => .ok (g, [])
  | fuel + 1, args =>
    match takeOptions side none g args with
    | .error stop => .error stop
    | .ok (g, []) => .ok (g, [])
    | .ok (g, word :: rest) =>
      if shapeOf word = .escape then
        if rest.length ≤ most then .ok (g, rest) else .error .usage
      else
        match most with
        | 0 => .error .usage
        | most + 1 =>
          (takeWords side g most fuel rest).map fun (g, words) => (g, word :: words)

/-- The names of the tasks. -/
def taskNames : List String := ["run", "complete", "tree", "repl"]

/-- Reads a task and what follows it. -/
def readTask (name : String) (args : List String) : Except Stop (Settings × Task) :=
  let side := OptionName.Side.afterTask name
  let usual : Settings := {}
  if name = "run" then
    match takeOptions side none usual args with
    | .error stop => .error stop
    | .ok (g, words) =>
      match words with
      | [] => .error .usage
      | word :: rest =>
        if shapeOf word = .escape then
          if rest.isEmpty then .error .usage else .ok (g, .run rest)
        else
          .ok (g, .run (word :: rest))
  else if name = "complete" then
    match takeWords side usual 1 (args.length + 1) args with
    | .error stop => .error stop
    | .ok (g, [line]) => .ok (g, .complete line)
    | .ok _ => .error .usage
  else if name = "tree" then
    (takeWords side usual 0 (args.length + 1) args).map fun (g, _) =>
      (g, .tree (g.format.getD .source))
  else if name = "repl" then
    (takeWords side usual 0 (args.length + 1) args).map fun (g, _) => (g, .repl)
  else if name = "help" then
    match args with
    | [] => .error .help
    | [topic] => .error (if (name :: taskNames).contains topic then .help else .usage)
    | _ => .error .usage
  else
    .error .usage

/-- Reads all arguments of the program. -/
def readArguments (args : List String) : Except Stop (Settings × Task) :=
  match takeOptions .beforeTask none {} args with
  | .error stop => .error stop
  | .ok (_, []) => .error .usage
  | .ok (before, name :: rest) =>
    (readTask name rest).map fun (after, task) => (before.merge after, task)

end CommandForest.Terminal
