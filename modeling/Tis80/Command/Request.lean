import Tis80.Command.Arguments
import Tis80.MemoryMap
import Tis80.Region.Parser

/-!
# What the command line asks for

    tis80 [common options] run         [common options] [--rom-dir DIR] [--kernel NAME]
                                       [--max-steps N] [--dump REGION]... [--no-screen]
    tis80 [common options] dump        [common options] [--rom-dir DIR] [-r REGION]... ROM
    tis80 [common options] completion  [common options] SHELL
    tis80 [common options] help        [COMMAND]

The common options are `-v`, one of `-c`, `-C` and `-j`, and `-h`. In front of the command and behind
it they count as two groups: an option may stand in both, and only within a group are `-c`, `-C` and
`-j` at odds.
-/

namespace Tis80

open Arguments

/-- How output is formatted, as one group of common options says. -/
structure Format where
  verbosity : Nat := 0
  color : Bool := false
  plain : Bool := false
  json : Bool := false
deriving DecidableEq, Repr

namespace Format

def isConsistent (f : Format) : Bool := ([f.color, f.plain, f.json].filter id).length ≤ 1

/-- Both groups of common options together. -/
def merge (f g : Format) : Format where
  verbosity := if g.verbosity = 0 then f.verbosity else g.verbosity
  color := f.color || g.color
  plain := f.plain || g.plain
  json := f.json || g.json

/-- Whether to use colours, on a terminal or elsewhere. -/
def colors (f : Format) (terminal : Bool) : Bool := f.color || (!f.plain && terminal)

end Format

structure RunOptions where
  romDir : Option String := none
  kernel : Option String := none
  maxSteps : Option Nat := none
  dumps : List Region := []
  noScreen : Bool := false
deriving DecidableEq, Repr

structure DumpOptions where
  rom : Option String := none
  romDir : Option String := none
  regions : List Region := []
deriving DecidableEq, Repr

inductive Shell
  | bash
  | elvish
  | fish
  | powershell
  | zsh
deriving DecidableEq, Repr

namespace Shell

def all : List Shell := [.bash, .elvish, .fish, .powershell, .zsh]

def name : Shell → String
  | .bash => "bash"
  | .elvish => "elvish"
  | .fish => "fish"
  | .powershell => "powershell"
  | .zsh => "zsh"

def ofName? (name : String) : Option Shell := all.find? fun s => s.name == name

end Shell

inductive Request
  | run (options : RunOptions)
  | dump (rom : String) (options : DumpOptions)
  | completion (shell : Shell)
deriving DecidableEq, Repr

/-- The directory that a request reads ROMs from, if it reads any. -/
def Request.romDir? : Request → Option String
  | .run o => some (o.romDir.getD ".")
  | .dump _ o => some (o.romDir.getD ".")
  | .completion _ => none

structure Invocation where
  format : Format
  request : Request
deriving DecidableEq, Repr

namespace Request

/-- A number of steps: digits, perhaps behind a plus sign, below 2^64. -/
def stepCount? (text : String) : Option Nat :=
  let cs := match text.toList with
    | '+' :: cs => cs
    | cs => cs
  match Region.digits 10 cs with
  | some (n, []) => some n
  | _ => none

/-- Sets a flag that may be given once. -/
def once {τ : Type} (name : String) (get : τ → Bool) (set : τ → τ) : Effect τ :=
  .flag fun s => if get s then refuse (.repeated name) else .ok (set s)

/-- Sets a value that may be given once. -/
def single {τ α : Type} (name : String) (get : τ → Option α) (read? : String → Option α)
    (set : τ → α → τ) : Effect τ :=
  .valued fun text s =>
    if (get s).isSome then refuse (.repeated name)
    else match read? text with
      | some v => .ok (set s v)
      | none => refuse (.invalidValue text)

/-- Adds a region, of which there may be any number. -/
def region {τ : Type} (add : τ → Region → τ) : Effect τ :=
  .valued fun text s =>
    match Region.parse text with
    | .ok r => .ok (add s r)
    | .error _ => refuse (.invalidValue text)

/-! ## The common options -/

def verbose : Effect Format := .flag fun f => .ok { f with verbosity := f.verbosity + 1 }

def color : Effect Format := once "--color" (·.color) ({ · with color := true })

def noColor : Effect Format := once "--no-color" (·.plain) ({ · with plain := true })

def json : Effect Format := once "--json" (·.json) ({ · with json := true })

def commonLong? : String → Option (Effect Format)
  | "verbose" => some verbose
  | "color" => some color
  | "no-color" => some noColor
  | "json" => some json
  | "help" => some (.flag fun _ => .error .help)
  | _ => none

def commonShort? : Char → Option (Effect Format)
  | 'v' => some verbose
  | 'c' => some color
  | 'C' => some noColor
  | 'j' => some json
  | 'h' => some (.flag fun _ => .error .help)
  | _ => none

/-- An effect on the first part of a pair. -/
def onFormat {τ : Type} : Effect Format → Effect (Format × τ)
  | .flag apply => .flag fun s => (apply s.1).map fun f => (f, s.2)
  | .valued apply => .valued fun text s => (apply text s.1).map fun f => (f, s.2)

/-- An effect on the second part of a pair. -/
def onOptions {τ : Type} : Effect τ → Effect (Format × τ)
  | .flag apply => .flag fun s => (apply s.2).map fun o => (s.1, o)
  | .valued apply => .valued fun text s => (apply text s.2).map fun o => (s.1, o)

/-- The grammar with the common options added. -/
def withCommon {τ : Type} (g : Grammar τ) : Grammar (Format × τ) where
  long? name := ((g.long? name).map onOptions).or ((commonLong? name).map onFormat)
  short? c := ((g.short? c).map onOptions).or ((commonShort? c).map onFormat)
  positional arg s := (g.positional arg s.2).map fun o => (s.1, o)
  isCommand := g.isCommand

/-! ## The grammars -/

def commands : List String := ["run", "dump", "completion", "help"]

/-- What stands in front of the command. -/
def frontGrammar : Grammar Unit where
  long? name := if name = "version" then some (.flag fun _ => .error .version) else none
  short? c := if c = 'V' then some (.flag fun _ => .error .version) else none
  positional arg _ := refuse (.unknownCommand arg)
  isCommand arg := commands.contains arg

def runGrammar : Grammar RunOptions where
  long?
    | "rom-dir" => some (single "--rom-dir" (·.romDir) some fun o v => { o with romDir := some v })
    | "kernel" => some (single "--kernel" (·.kernel) some fun o v => { o with kernel := some v })
    | "max-steps" =>
      some (single "--max-steps" (·.maxSteps) stepCount? fun o v => { o with maxSteps := some v })
    | "dump" => some (region fun o r => { o with dumps := o.dumps ++ [r] })
    | "no-screen" => some (once "--no-screen" (·.noScreen) ({ · with noScreen := true }))
    | _ => none
  short? _ := none
  positional arg _ := refuse (.unexpectedArgument arg)

def dumpGrammar : Grammar DumpOptions where
  long?
    | "rom-dir" => some (single "--rom-dir" (·.romDir) some fun o v => { o with romDir := some v })
    | "range" => some (region fun o r => { o with regions := o.regions ++ [r] })
    | _ => none
  short? c := if c = 'r' then some (region fun o r => { o with regions := o.regions ++ [r] }) else none
  positional arg o :=
    if o.rom.isSome then refuse (.unexpectedArgument arg) else .ok { o with rom := some arg }

def completionGrammar : Grammar (Option Shell) where
  long? _ := none
  short? _ := none
  positional arg
    | some _ => refuse (.unexpectedArgument arg)
    | none => match Shell.ofName? arg with
      | some s => .ok (some s)
      | none => refuse (.invalidValue arg)

/-- Reads the arguments of one command, with its group of common options. -/
def readLevel {τ : Type} (g : Grammar τ) (settings : τ) (args : List String) :
    Result ((Format × τ) × List String) :=
  (withCommon g).read { settings := ({}, settings) } args

/-- A command's options, if its group of common options is consistent. -/
def readCommand {τ : Type} (g : Grammar τ) (settings : τ) (args : List String)
    (finish : τ → Result Request) : Result Invocation :=
  match readLevel g settings args with
  | .error stop => .error stop
  | .ok ((format, options), _) =>
    if format.isConsistent then (finish options).map fun request => { format, request }
    else refuse .conflictingFormats

def readRun (args : List String) : Result Invocation :=
  readCommand runGrammar {} args fun o => .ok (.run o)

def readDump (args : List String) : Result Invocation :=
  readCommand dumpGrammar {} args fun o =>
    match o.rom with
    | some rom => .ok (.dump rom o)
    | none => refuse (.missingArgument "<ROM>")

def readCompletion (args : List String) : Result Invocation :=
  readCommand completionGrammar none args fun
    | some shell => .ok (.completion shell)
    | none => refuse (.missingArgument "<SHELL>")

/-- Help on one command at most. -/
def readHelp : List String → Result Invocation
  | [] => .error .help
  | [command] => if commands.contains command then .error .help else refuse (.unknownCommand command)
  | command :: next :: _ =>
    refuse (.unknownCommand (if commands.contains command then next else command))

def readNamed (command : String) (args : List String) : Result Invocation :=
  if command = "run" then readRun args
  else if command = "dump" then readDump args
  else if command = "completion" then readCompletion args
  else readHelp args

end Request

/-- Reads a command line, without the name of the program. -/
def Invocation.read (args : List String) : Result Invocation :=
  match Request.readLevel Request.frontGrammar () args with
  | .error stop => .error stop
  | .ok (_, []) => refuse .missingCommand
  | .ok ((front, _), command :: args) =>
    match Request.readNamed command args with
    | .error stop => .error stop
    | .ok invocation =>
      if front.isConsistent then .ok { invocation with format := front.merge invocation.format }
      else refuse .conflictingFormats

end Tis80
