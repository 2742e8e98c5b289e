import ModuleAtlas.Path.Basic
import ModuleAtlas.Text.Decimal

/-!
# Arguments of the command line

A command line has options for the whole program, the name of a command, and options and operands of
that command.  The options of the program may also stand after the command, and then count before
those in front of it.  A long option takes its value after an equals sign or as the next argument, a
short one also in the same argument, and short options may share an argument.  After `--` there are
only operands.

## Main definitions

* `Switch`, `Level` — the options that may be given, before and after the name of a command.
* `Given`, `readLevel` — the options and operands that are given.
* `Request`, `Invocation` — what is asked for.
* `Arguments.read` — what a command line asks for.
-/

namespace ModuleAtlas

/-- What the program is asked to do. -/
inductive Request where
  /-- To build the catalog, from nothing if `clean` is set, and without looking at the locations
  that have a tree if `trusting` is set. -/
  | build (clean trusting : Bool)
  /-- To show the name space, or a module of it, as text or as JSON, down to a depth. -/
  | inspect (module : Option String) (json : Bool) (depth : Option Nat) (trusting : Bool)
  /-- To show the configuration, as text or as JSON. -/
  | config (json : Bool)
  deriving DecidableEq, Repr

/-- What a command line asks for. -/
structure Invocation where
  /-- The configuration file. -/
  config : Path
  /-- The request. -/
  request : Request
  deriving DecidableEq, Repr

/-- Why a command line asks for no command. -/
inductive Refusal where
  /-- It asks for the version of the program. -/
  | version
  /-- It asks for help. -/
  | help
  /-- It is malformed. -/
  | malformed
  deriving DecidableEq, Repr

namespace Arguments

/-- An option. -/
structure Switch where
  /-- The long name. -/
  long : String
  /-- The letter. -/
  short : Option Char := none
  /-- Whether a value follows, and which values may. -/
  value : Option (String → Bool) := none

/-- The options and operands that may be given at one level of a command line. -/
structure Level where
  /-- The options. -/
  switches : List Switch
  /-- The number of operands at most. -/
  operands : Nat := 0
  /-- Whether an operand names a command, and ends the level. -/
  commands : Bool := false

/-- What is given at one level. -/
structure Given where
  /-- The options by their long names, with their values. -/
  options : List (String × String) := []
  /-- The operands. -/
  operands : List String := []
  deriving DecidableEq, Repr

/-- The value of an option. -/
def Given.value? (g : Given) (long : String) : Option String := g.options.lookup long

/-- Whether an option is given. -/
def Given.has (g : Given) (long : String) : Bool := (g.value? long).isSome

/-! ### Reading a level -/

/-- Adds an option with its value, unless it is there already or the value is not allowed. -/
def addOption (g : Given) (s : Switch) (value : String) : Except Refusal Given :=
  if s.long = "help" then .error .help
  else if s.long = "version" then .error .version
  else if g.has s.long || !(s.value.getD fun _ => true) value then .error .malformed
  else .ok { g with options := g.options ++ [(s.long, value)] }

/-- Whether an argument cannot be the value of an option before it. -/
def looksLikeOption (arg : String) : Bool := "-".isPrefixOf arg && arg != "-"

/-- The options of an argument with letters, and one that still needs its value. -/
def readLetters (level : Level) (g : Given) : List Char → Except Refusal (Given × Option Switch)
  | [] => .ok (g, none)
  | c :: rest =>
    match level.switches.find? fun s => s.short = some c with
    | none => .error .malformed
    | some s =>
      if s.value.isNone then
        match addOption g s "" with
        | .error r => .error r
        | .ok g => readLetters level g rest
      else
        match rest with
        | [] => .ok (g, some s)
        | '=' :: value => (addOption g s (String.ofList value)).map (·, none)
        | value => (addOption g s (String.ofList value)).map (·, none)

/-- The option of an argument with a long name, or that option if it still needs its value. -/
def readLong (level : Level) (g : Given) (name : List Char) :
    Except Refusal (Given × Option Switch) :=
  let long := String.ofList (name.takeWhile (· ≠ '='))
  let attached := (name.dropWhile (· ≠ '=')).drop 1
  match level.switches.find? fun s => s.long = long with
  | none => .error .malformed
  | some s =>
    match name.contains '=', s.value.isSome with
    | true, true => (addOption g s (String.ofList attached)).map (·, none)
    | true, false => .error .malformed
    | false, true => .ok (g, some s)
    | false, false => (addOption g s "").map (·, none)

/-- Adds an operand, unless there are enough. -/
def addOperand (level : Level) (g : Given) (arg : String) : Except Refusal Given :=
  if g.operands.length < level.operands then .ok { g with operands := g.operands ++ [arg] }
  else .error .malformed

/-- Reads a level of a command line: what is given, and the name of the command that ends it with
the arguments after that. -/
def readLevel (level : Level) (g : Given) :
    List String → Except Refusal (Given × Option (String × List String))
  | [] => .ok (g, none)
  | arg :: rest =>
    if arg = "--" then (rest.foldlM (addOperand level) g).map (·, none)
    else if !looksLikeOption arg then
      if level.commands then .ok (g, some (arg, rest))
      else
        match addOperand level g arg with
        | .error r => .error r
        | .ok g => readLevel level g rest
    else
      let read :=
        match arg.toList with
        | '-' :: '-' :: name => readLong level g name
        | _ :: letters => readLetters level g letters
        | [] => .error .malformed
      match read with
      | .error r => .error r
      | .ok (g, none) => readLevel level g rest
      | .ok (g, some s) =>
        match rest with
        | [] => .error .malformed
        | value :: rest =>
          if looksLikeOption value then .error .malformed
          else
            match addOption g s value with
            | .error r => .error r
            | .ok g => readLevel level g rest

/-! ### The options of the program -/

/-- The number that a text denotes: digits, maybe after a plus sign, below the limit of a machine
word. -/
def number? (s : String) : Option Nat :=
  let digits := match s.toList with
    | '+' :: rest => rest
    | all => all
  if !digits.isEmpty && digits.all Text.isDigit && Text.ofDigits digits < UInt64.size then
    some (Text.ofDigits digits)
  else none

/-- The options of the program, which may also stand after the command. -/
def globalSwitches : List Switch :=
  [⟨"verbose", some 'v', none⟩, ⟨"quiet", some 'q', none⟩,
    ⟨"config", some 'c', some fun v => v != ""⟩, ⟨"help", some 'h', none⟩]

/-- The level before the command. -/
def programLevel : Level := ⟨globalSwitches ++ [⟨"version", some 'V', none⟩], 0, true⟩

/-- The level of a command. -/
def commandLevel : String → Option Level
  | "build" =>
    some ⟨globalSwitches ++ [⟨"clean", none, none⟩, ⟨"no-validate", none, none⟩], 0, false⟩
  | "show" => some
    ⟨globalSwitches ++ [⟨"json", none, none⟩, ⟨"depth", some 'd', some fun v => (number? v).isSome⟩,
      ⟨"no-validate", none, none⟩], 1, false⟩
  | "config" => some ⟨globalSwitches ++ [⟨"json", none, none⟩], 0, false⟩
  | _ => none

/-- Pairs of options of which only one may be given at a level. -/
def conflicts : List (String × String) := [("verbose", "quiet"), ("clean", "no-validate")]

/-- The value of the configuration option at a level, for which that of the environment stands
in. -/
def configOf (environment : Option String) (g : Given) : Except Refusal (Option String) :=
  if conflicts.any fun p => g.has p.1 && g.has p.2 then .error .malformed
  else
    match g.value? "config", environment with
    | some v, _ => .ok (some v)
    | none, some "" => .error .malformed
    | none, _ => .ok none

/-- The request of a command with what is given for it. -/
def requestOf (command : String) (g : Given) : Request :=
  match command with
  | "build" => .build (g.has "clean") (g.has "no-validate")
  | "show" =>
    .inspect g.operands.head? (g.has "json") ((g.value? "depth").bind number?) (g.has "no-validate")
  | _ => .config (g.has "json")

/-- The configuration file that is looked for in the working directory. -/
def defaultConfig : String := "modgraph.toml"

/-- Whether arguments after the help command name commands. -/
def isHelpRequest : List String → Bool
  | [] => true
  | [command] => command = "help" || (commandLevel command).isSome
  | _ => false

/-- What a command line asks for, given the configuration file that the environment names. -/
def read (environment : Option String) (args : List String) : Except Refusal Invocation :=
  match readLevel programLevel {} args with
  | .error r => .error r
  | .ok (_, none) => .error .malformed
  | .ok (program, some (name, rest)) =>
    if name = "help" then .error (if isHelpRequest rest then .help else .malformed)
    else
      match commandLevel name with
      | none => .error .malformed
      | some level =>
        match readLevel level {} rest with
        | .error r => .error r
        | .ok (command, _) => do
          let inner ← configOf environment command
          let outer ← configOf environment program
          let file := ((inner.or outer).or environment).getD defaultConfig
          return ⟨⟨file⟩, requestOf name command⟩

@[simp] theorem read_nil (environment : Option String) :
    read environment [] = .error .malformed := rfl

example : (read none ["-c", "x.toml", "show", "a/b", "-d2"]).toOption
    = some ⟨⟨"x.toml"⟩, .inspect (some "a/b") false (some 2) false⟩ := by decide +kernel

end Arguments

end ModuleAtlas
