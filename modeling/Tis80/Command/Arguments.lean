/-!
# Arguments

The arguments of a command are read from left to right. An option is `--name`, with its value behind
`=` or as the next argument, or a letter: several letters may follow one dash, and the last of them
may have its value attached, with or without `=`. A value in an argument of its own does not start
with a dash, unless it is a dash alone. After `--` no argument is an option.

Reading stops at the first argument that is wrong or that asks for help, so what follows it is not
looked at.
-/

namespace Tis80.Arguments

/-- What is wrong with the arguments. -/
inductive Misuse
  | unknownOption (name : String)
  | unexpectedArgument (arg : String)
  | missingValue
  | unexpectedValue (name : String)
  | invalidValue (value : String)
  | repeated (name : String)
  | conflictingFormats
  | unknownCommand (name : String)
  | missingCommand
  | missingArgument (name : String)
deriving DecidableEq, Repr

/-- Why reading stopped early. -/
inductive Interruption
  | help
  | version
  | misuse (m : Misuse)
deriving DecidableEq, Repr

abbrev Result (α : Type) := Except Interruption α

def refuse {α : Type} (m : Misuse) : Result α := .error (.misuse m)

/-- What an option does to the settings read so far. -/
inductive Effect (τ : Type)
  | flag (apply : τ → Result τ)
  | valued (apply : String → τ → Result τ)

/-- The options and arguments of one command. -/
structure Grammar (τ : Type) where
  long? : String → Option (Effect τ)
  short? : Char → Option (Effect τ)
  positional : String → τ → Result τ
  /-- Reading stops in front of an argument that names a command. -/
  isCommand : String → Bool := fun _ => false

/-- The settings so far, and the option that waits for its value. -/
structure Progress (τ : Type) where
  settings : τ
  waiting : Option (String → τ → Result τ) := none

namespace Grammar

variable {τ : Type}

/-- Reads the letters behind one dash. -/
def letters (g : Grammar τ) (settings : τ) : List Char → Result (Progress τ)
  | [] => .ok { settings }
  | c :: cs =>
    match g.short? c with
    | none => refuse (.unknownOption (String.ofList ['-', c]))
    | some (.flag apply) =>
      match apply settings with
      | .ok settings => g.letters settings cs
      | .error stop => .error stop
    | some (.valued apply) =>
      match cs with
      | [] => .ok { settings, waiting := some apply }
      | '=' :: value => (apply (String.ofList value) settings).map fun settings => { settings }
      | value => (apply (String.ofList value) settings).map fun settings => { settings }

/-- Reads what stands behind two dashes: a name, and perhaps a value behind `=`. -/
def name (g : Grammar τ) (settings : τ) (text : List Char) : Result (Progress τ) :=
  let name := String.ofList (text.takeWhile (· ≠ '='))
  let value? := (text.dropWhile (· ≠ '=')).tail?.map String.ofList
  match g.long? name, value? with
  | none, _ => refuse (.unknownOption ("--" ++ name))
  | some (.flag apply), none => (apply settings).map fun settings => { settings }
  | some (.flag _), some _ => refuse (.unexpectedValue ("--" ++ name))
  | some (.valued apply), none => .ok { settings, waiting := some apply }
  | some (.valued apply), some value => (apply value settings).map fun settings => { settings }

/-- Reads an argument that is not the value of the one before it. -/
def argument (g : Grammar τ) (settings : τ) (arg : String) : Result (Progress τ) :=
  match arg.toList with
  | '-' :: '-' :: text => g.name settings text
  | '-' :: c :: cs => g.letters settings (c :: cs)
  | _ => (g.positional arg settings).map fun settings => { settings }

/-- Whether an argument would be an option and so cannot be a value. -/
def looksLikeOption (arg : String) : Bool :=
  match arg.toList with
  | '-' :: _ :: _ => true
  | _ => false

/-- The settings that the arguments give, and the arguments from the first command on. -/
def read (g : Grammar τ) (p : Progress τ) : List String → Result (τ × List String)
  | [] => if p.waiting.isSome then refuse .missingValue else .ok (p.settings, [])
  | arg :: rest =>
    match p.waiting with
    | some apply =>
      if looksLikeOption arg then refuse .missingValue
      else match apply arg p.settings with
        | .ok settings => g.read { settings } rest
        | .error stop => .error stop
    | none =>
      if g.isCommand arg then .ok (p.settings, arg :: rest)
      else if arg = "--" then
        (rest.foldlM (fun settings arg => g.positional arg settings) p.settings).map
          fun settings => (settings, [])
      else match g.argument p.settings arg with
        | .ok p => g.read p rest
        | .error stop => .error stop

end Grammar

end Tis80.Arguments
