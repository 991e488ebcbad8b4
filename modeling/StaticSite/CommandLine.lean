import StaticSite.Decimal.Reading
import StaticSite.Path

/-!
# The command line

This file reads the arguments of the program.

| argument                   | meaning                                    |
|----------------------------|--------------------------------------------|
| `-r`, `--root PATH`        | directory of the project                   |
| `-C`, `--config PATH`      | file with the settings, seen from the root |
| `-i`, `--input PATH`       | directory of the sources                   |
| `-o`, `--output PATH`      | directory for the rendered site            |
| `build`                    | render the site                            |
| `serve`                    | render the site and show it                |
| `--interface TEXT`         | after `serve`: address to listen on        |
| `-p`, `--port NUMBER`      | after `serve`: port to listen on           |
| `-w`, `--watch [BOOLEAN]`  | after `serve`: whether to render anew      |
| `help`                     | tell about a command                       |
| `-h`, `--help`             | tell about the program or a command        |
| `-V`, `--version`          | tell the version                           |

A value follows its option as the next argument, after an equals sign, or, after a short option,
at once.  The value of an option is looked at when the next option comes, or at the end; that of
the last option before a command is looked at after the arguments of the command.
-/

namespace StaticSite

/-- Why arguments are not carried out. -/
inductive UsageError where
  | unknownArgument
  /-- A value is missing, empty where it must not be, or none of those that are possible. -/
  | invalidValue
  /-- A value is no number or out of range. -/
  | malformedValue
  /-- An option that takes no value got one. -/
  | surplusValue
  | repeatedOption
  | unknownCommand
  | missingCommand
  /-- No argument at all. -/
  | nothingGiven
  | helpRequested
  | versionRequested
  deriving DecidableEq, Repr

namespace CommandLine

inductive Switch where
  | root
  | config
  | input
  | output
  | interface
  | port
  | watch
  | help
  | version
  deriving DecidableEq, Repr

/-- How an option is written. -/
structure Spelling where
  switch : Switch
  short : Option Char
  long : String

def generalOptions : List Spelling :=
  [⟨.root, some 'r', "root"⟩, ⟨.config, some 'C', "config"⟩, ⟨.input, some 'i', "input"⟩,
   ⟨.output, some 'o', "output"⟩, ⟨.help, some 'h', "help"⟩, ⟨.version, some 'V', "version"⟩]

def buildOptions : List Spelling :=
  [⟨.help, some 'h', "help"⟩]

def serveOptions : List Spelling :=
  [⟨.interface, none, "interface"⟩, ⟨.port, some 'p', "port"⟩, ⟨.watch, some 'w', "watch"⟩,
   ⟨.help, some 'h', "help"⟩]

inductive Setting where
  | path (path : Path)
  | text (text : String)
  | port (number : Nat)
  | truth (value : Bool)
  deriving DecidableEq, Repr

/-- The number that a text stands for, a sign and leading zeros allowed. -/
def portNumber (text : String) : Except UsageError Nat :=
  let (negative, digits) := Decimal.splitSign text.toList
  match Decimal.digits? 10 digits with
  | none => .error .malformedValue
  | some value =>
      if (negative && value != 0) || UInt16.size ≤ value then .error .malformedValue else .ok value

/-- The value that a text gives to an option. -/
def settingOf (switch : Switch) (text : String) : Except UsageError Setting :=
  match switch with
  | .interface => .ok (.text text)
  | .port => Setting.port <$> portNumber text
  | .watch =>
      if text == "true" then .ok (.truth true)
      else if text == "false" then .ok (.truth false)
      else .error .invalidValue
  | _ => if text.isEmpty then .error .invalidValue else .ok (.path ⟨text⟩)

/-- The options read so far. -/
structure Reading where
  settings : List (Switch × Setting)
  /-- The last option and its value, if it was not looked at yet. -/
  pending : Option (Switch × Option String)
  /-- Whether the next argument may be the value of the last option. -/
  awaiting : Bool

namespace Reading

def empty : Reading := ⟨[], none, false⟩

/-- Look at the value of an option.  Only `--watch` may do without. -/
def accept (reading : Reading) (switch : Switch) (value : Option String) :
    Except UsageError Reading := do
  let text ←
    match value with
    | some text => pure text
    | none => if switch == .watch then pure "true" else throw .invalidValue
  if (reading.settings.lookup switch).isSome then throw .repeatedOption
  else
    let setting ← settingOf switch text
    pure { reading with settings := reading.settings ++ [(switch, setting)] }

/-- Look at the value of the last option. -/
def settle (reading : Reading) : Except UsageError Reading :=
  match reading.pending with
  | none => .ok reading
  | some (switch, value) => ({ reading with pending := none }).accept switch value

/-- An option, maybe with a value in the same argument. -/
def option (reading : Reading) (switch : Switch) (attached : Option String) :
    Except UsageError Reading := do
  let settled ← reading.settle
  match switch, attached with
  | .help, _ => throw .helpRequested
  | .version, _ => throw .versionRequested
  | _, some value => pure { ← settled.accept switch value with awaiting := false }
  | _, none => pure { settled with pending := some (switch, none), awaiting := true }

/-- An argument that starts with two hyphens. -/
def long (spellings : List Spelling) (reading : Reading) (argument : List Char) :
    Except UsageError Reading :=
  let name := argument.takeWhile (· != '=')
  let attached :=
    match argument.dropWhile (· != '=') with
    | [] => none
    | _ :: value => some (String.ofList value)
  match spellings.find? fun spelling => spelling.long == String.ofList name with
  | none => .error .unknownArgument
  | some spelling =>
      if attached.isSome && (spelling.switch == .help || spelling.switch == .version) then
        .error .surplusValue
      else reading.option spelling.switch attached

/-- An argument that starts with one hyphen. -/
def short (spellings : List Spelling) (reading : Reading) (letter : Char) (rest : List Char) :
    Except UsageError Reading :=
  match spellings.find? fun spelling => spelling.short == some letter with
  | none => .error .unknownArgument
  | some spelling =>
      let attached :=
        match rest with
        | [] => none
        | '=' :: value => some (String.ofList value)
        | value => some (String.ofList value)
      reading.option spelling.switch attached

/-- An argument without hyphens, given to the option that awaits one. -/
def value (reading : Reading) (text : String) : Reading :=
  { reading with
    pending := reading.pending.map fun pending => (pending.1, some text)
    awaiting := false }

/-- The path that was given with an option. -/
def path? (reading : Reading) (switch : Switch) : Option Path :=
  match reading.settings.lookup switch with
  | some (.path path) => some path
  | _ => none

end Reading

/-- Read options up to a command or the end.  `stray` tells what to make of an argument that is
neither; the flag says whether it follows two hyphens that end the options. -/
def readOptions (spellings : List Spelling) (commands : List String)
    (stray : Bool → String → UsageError) :
    Reading → List String → Except UsageError (Reading × Option (String × List String))
  | reading, [] => .ok (reading, none)
  | reading, argument :: rest =>
      if !reading.awaiting && commands.contains argument then .ok (reading, some (argument, rest))
      else
        match argument.toList with
        | ['-', '-'] =>
            match rest with
            | [] => .ok (reading, none)
            | next :: _ => .error (stray true next)
        | '-' :: '-' :: name =>
            match reading.long spellings name with
            | .error error => .error error
            | .ok next => readOptions spellings commands stray next rest
        | '-' :: letter :: more =>
            match reading.short spellings letter more with
            | .error error => .error error
            | .ok next => readOptions spellings commands stray next rest
        | _ =>
            if reading.awaiting then
              readOptions spellings commands stray (reading.value argument) rest
            else .error (stray false argument)

end CommandLine

/-- What the program is asked to do. -/
inductive Command where
  | build
  | serve (interface : Option String) (port : Option Nat) (watch : Option Bool)
  deriving DecidableEq, Repr

structure CommandLine where
  root : Option Path
  config : Path
  input : Option Path
  output : Option Path
  command : Command
  deriving DecidableEq, Repr

namespace CommandLine

/-- The file with the settings if none is named. -/
def defaultConfig : Path := ⟨"weft.toml"⟩

/-- Read the options after a command. -/
def readCommandOptions (spellings : List Spelling) (arguments : List String) :
    Except UsageError Reading := do
  let (reading, _) ← readOptions spellings [] (fun _ _ => .unknownArgument) .empty arguments
  reading.settle

/-- Read the arguments of `serve`. -/
def readServe (arguments : List String) : Except UsageError Command := do
  let reading ← readCommandOptions serveOptions arguments
  let interface :=
    match reading.settings.lookup .interface with
    | some (.text text) => some text
    | _ => none
  let port :=
    match reading.settings.lookup .port with
    | some (.port number) => some number
    | _ => none
  let watch :=
    match reading.settings.lookup .watch with
    | some (.truth value) => some value
    | _ => none
  pure (.serve interface port watch)

def commands : List String := ["build", "serve", "help"]

/-- What becomes of `help`: at most one command may be named after it. -/
def helpError : List String → UsageError
  | [] => .helpRequested
  | [name] => if commands.contains name then .helpRequested else .unknownCommand
  | _ => .unknownCommand

def readCommand (name : String) (arguments : List String) : Except UsageError Command :=
  if name == "build" then (fun _ => .build) <$> readCommandOptions buildOptions arguments
  else if name == "serve" then readServe arguments
  else .error (helpError arguments)

def parse (arguments : List String) : Except UsageError CommandLine := do
  let stray (ended : Bool) (argument : String) : UsageError :=
    if ended && commands.contains argument then .unknownArgument else .unknownCommand
  let (reading, found) ← readOptions generalOptions commands stray .empty arguments
  match found with
  | none =>
      let settled ← reading.settle
      throw (if settled.settings.isEmpty then .nothingGiven else .missingCommand)
  | some (name, rest) =>
      let command ← readCommand name rest
      let settled ← reading.settle
      pure
        { root := settled.path? .root
          config := (settled.path? .config).getD defaultConfig
          input := settled.path? .input
          output := settled.path? .output
          command := command }

end CommandLine
end StaticSite
