import HotReload.Path.Basic

/-! The command line.
Options come before or after the command; those that both levels know count once at each
level, and the inner one wins. The value of an option may stand behind it as an argument of
its own. It is judged when the next option or positional argument turns up, or when the level
ends; until then it is `pending`, so that other mistakes are reported first. -/
namespace HotReload.CommandLine

inductive ColorChoice where
  | auto
  | always
  | never
deriving Repr, DecidableEq

def ColorChoice.name : ColorChoice → String
  | .auto => "auto"
  | .always => "always"
  | .never => "never"

inductive Command where
  | impact (snapshot : Path) (rebuild pretty : Bool)
  | watch (snapshot : Path)
deriving Repr, DecidableEq

structure Arguments where
  color : ColorChoice
  config : Path
  verbose : Bool
  command : Command
deriving Repr, DecidableEq

/-- Why there is no command to run: a mistake, or a request for help or the version. -/
inductive Refusal where
  | invalidValue
  | unknownArgument
  | invalidSubcommand
  | tooManyValues
  | argumentConflict
  | missingArgument
  | missingSubcommand
  | nothingGiven
  | help
  | version
deriving Repr, DecidableEq

def Refusal.exitCode : Refusal → UInt8
  | .help | .version => 0
  | _ => 2

abbrev Argument := List UInt8

inductive Level where
  | top
  | impact
  | watch
deriving Repr, DecidableEq

inductive Valued where
  | color
  | config
  | snapshot
deriving Repr, DecidableEq

inductive Flag where
  | verbose
  | rebuild
  | pretty
  | help
  | version
deriving Repr, DecidableEq

inductive Switch where
  | valued (v : Valued)
  | flag (f : Flag)
deriving Repr, DecidableEq

structure Given where
  color : Option ColorChoice
  config : Option Path
  snapshot : Option Path
  verbose : Bool
  rebuild : Bool
  pretty : Bool
deriving Repr, DecidableEq

structure State where
  given : Given
  /-- What awaits its value, or awaits that its value is judged. -/
  pending : Option (Valued × Option Argument)
  hasPositional : Bool
  /-- Behind `--` every argument is positional. -/
  onlyPositional : Bool
deriving Repr, DecidableEq

def State.initial : State := ⟨⟨none, none, none, false, false, false⟩, none, false, false⟩

def Level.long? (level : Level) (name : String) : Option Switch :=
  match name, level with
  | "color", _ => some (.valued .color)
  | "config", _ => some (.valued .config)
  | "verbose", _ => some (.flag .verbose)
  | "help", _ => some (.flag .help)
  | "version", .top => some (.flag .version)
  | "rebuild", .impact => some (.flag .rebuild)
  | "pretty", .impact => some (.flag .pretty)
  | _, _ => none

def Level.short? (level : Level) (letter : Char) : Option Switch :=
  match letter, level with
  | 'C', _ => some (.valued .config)
  | 'v', _ => some (.flag .verbose)
  | 'h', _ => some (.flag .help)
  | 'V', .top => some (.flag .version)
  | 'r', .impact => some (.flag .rebuild)
  | 'p', .impact => some (.flag .pretty)
  | _, _ => none

def color? (value : Argument) : Option ColorChoice :=
  [ColorChoice.auto, .always, .never].find? fun c => Utf8.encode c.name == value

def path? (value : Argument) : Option Path := if value.isEmpty then none else some ⟨value⟩

def setOnce {α : Type} (old new : Option α) : Except Refusal (Option α) :=
  if old.isSome then .error .argumentConflict
  else if new.isNone then .error .invalidValue
  else .ok new

def Given.put (g : Given) (what : Valued) (value : Argument) : Except Refusal Given :=
  match what with
  | .color => (setOnce g.color (color? value)).map fun c => { g with color := c }
  | .config => (setOnce g.config (path? value)).map fun p => { g with config := p }
  | .snapshot => (setOnce g.snapshot (path? value)).map fun p => { g with snapshot := p }

def Given.raise (g : Given) (flag : Flag) : Except Refusal Given :=
  match flag with
  | .help => .error .help
  | .version => .error .version
  | .verbose => if g.verbose then .error .argumentConflict else .ok { g with verbose := true }
  | .rebuild => if g.rebuild then .error .argumentConflict else .ok { g with rebuild := true }
  | .pretty => if g.pretty then .error .argumentConflict else .ok { g with pretty := true }

namespace State

def settle (st : State) : Except Refusal State :=
  match st.pending with
  | none => .ok st
  | some (_, none) => .error .invalidValue
  | some (what, some value) =>
    (st.given.put what value).map fun g => { st with given := g, pending := none }

def attach (st : State) (what : Valued) (value : Argument) : Except Refusal State := do
  let st ← st.settle
  let g ← st.given.put what value
  return { st with given := g }

def await (st : State) (what : Valued) : Except Refusal State := do
  let st ← st.settle
  return { st with pending := some (what, none) }

def raise (st : State) (flag : Flag) : Except Refusal State := do
  let st ← st.settle
  let g ← st.given.raise flag
  return { st with given := g }

def positional (st : State) (level : Level) (value : Argument) (isCommand : Bool) :
    Except Refusal State :=
  match level with
  | .top =>
    .error (if st.onlyPositional && isCommand then .unknownArgument else .invalidSubcommand)
  | _ =>
    if st.hasPositional then .error .unknownArgument
    else do
      let st ← st.settle
      return { st with pending := some (.snapshot, some value), hasPositional := true }

def long (st : State) (level : Level) (name : Argument) (value : Option Argument) :
    Except Refusal State :=
  match (Utf8.decode? name).bind level.long?, value with
  | none, _ => .error .unknownArgument
  | some (.valued what), none => st.await what
  | some (.valued what), some value => st.attach what value
  | some (.flag flag), none => st.raise flag
  | some (.flag _), some _ => .error .tooManyValues

def letters (st : State) (level : Level) (bytes : Argument) : Except Refusal State :=
  match bytes with
  | [] => .ok st
  | b :: r =>
    have := Utf8.length_pieceAfter_le b r
    match Utf8.pieceAfter b r with
    | (.broken, _) => .error .unknownArgument
    | (.char c, rest) =>
      match level.short? c with
      | none => .error .unknownArgument
      | some (.flag flag) =>
        match st.raise flag with
        | .error e => .error e
        | .ok st => letters st level (Utf8.pieceAfter b r).2
      | some (.valued what) =>
        match rest with
        | [] => st.await what
        | 0x3D :: value => st.attach what value
        | value => st.attach what value
termination_by bytes.length

end State

def dash : UInt8 := 0x2D

def splitEquals (bytes : Argument) : Argument × Option Argument :=
  match bytes.dropWhile (· != 0x3D) with
  | [] => (bytes, none)
  | _ :: value => (bytes.takeWhile (· != 0x3D), some value)

def commandNames : List String := ["impact", "i", "watch", "w", "help"]

def command? (arg : Argument) : Option String :=
  (Utf8.decode? arg).bind fun s => commandNames.find? (· == s)

def State.step (level : Level) (st : State) (arg : Argument) : Except Refusal State :=
  let isCommand := (command? arg).isSome
  if st.onlyPositional then st.positional level arg isCommand
  else
    match arg with
    | 0x2D :: 0x2D :: [] => .ok { st with onlyPositional := true }
    | 0x2D :: 0x2D :: name => st.long level (splitEquals name).1 (splitEquals name).2
    | 0x2D :: b :: r => st.letters level (b :: r)
    | _ =>
      match st.pending with
      | some (what, none) => .ok { st with pending := some (what, some arg) }
      | _ => st.positional level arg isCommand

def State.awaitsValue (st : State) : Bool :=
  match st.pending with
  | some (_, none) => true
  | _ => false

def readCommand (level : Level) (args : List Argument) : Except Refusal (Given × Path) := do
  let st ← args.foldlM (State.step level) .initial
  let st ← st.settle
  match st.given.snapshot with
  | none => .error .missingArgument
  | some p => return (st.given, p)

/-- What a request for help asks about: nothing, or one command. Commands have none below
them. -/
def readHelp (topics : List Argument) : Refusal :=
  match topics with
  | [] => .help
  | [topic] => if (command? topic).isSome then .help else .invalidSubcommand
  | _ => .invalidSubcommand

def defaultConfig : Path := .ofString "hotmod.toml"

def combine (outer inner : Given) (command : Command) : Arguments where
  color := (inner.color.or outer.color).getD .auto
  config := (inner.config.or outer.config).getD defaultConfig
  verbose := inner.verbose || outer.verbose
  command := command

def readTop (st : State) : List Argument → Except Refusal Arguments
  | [] => do
    let st ← st.settle
    .error (if st.given = State.initial.given then .nothingGiven else .missingSubcommand)
  | arg :: rest =>
    let name := if st.onlyPositional || st.awaitsValue then none else command? arg
    match name with
    | none => do
      let st ← st.step .top arg
      readTop st rest
    | some name =>
      if name = "help" then .error (readHelp rest)
      else if name = "impact" ∨ name = "i" then do
        let (inner, snapshot) ← readCommand .impact rest
        let st ← st.settle
        return combine st.given inner (.impact snapshot inner.rebuild inner.pretty)
      else do
        let (inner, snapshot) ← readCommand .watch rest
        let st ← st.settle
        return combine st.given inner (.watch snapshot)

def read (args : List Argument) : Except Refusal Arguments := readTop .initial args

end HotReload.CommandLine
