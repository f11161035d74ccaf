import Tis80.Command.Request
import Tis80.Drive.Folder
import Tis80.Machine.Step
import Tis80.Snapshot

/-!
# What the command line answers

A response has an exit code, and a text for standard output unless it is help or a completion script.
Everything but a report leaves the machine's state unshown. `respond` has no value only if the machine it is asked to run takes more
steps than there is fuel.
-/

namespace Tis80

open Arguments

inductive Response
  | help
  | version
  | misuse (m : Misuse)
  | completion (shell : Shell)
  | report (text : String)
  | loadFault (fault : LoadFault)
  | stopped (stop : Stop)
deriving Inhabited

namespace Response

/-! ## Texts -/

def heading (title : String) (colors : Bool) : String :=
  if colors then "\x1b[1m" ++ title ++ "\x1b[0m" else title

/-- The heading and the rows of a dump. -/
def dumpText (s : Snapshot) (colors : Bool) (region : Region) : String :=
  let title := "Memory 0x" ++ hex 4 region.start ++ "..0x" ++ hex 4 region.stop
  let rows := s.dumpRows region
  heading title colors ++ "\n" ++ String.join (rows.map (· ++ "\n"))

/-- Registers, screen and dumps at the end of a run. -/
def runText (s : Snapshot) (o : RunOptions) (colors : Bool) : String :=
  let registers := heading "Registers" colors ++ "\n" ++ s.registers.render ++ "\n"
  let screen :=
    if o.noScreen then ""
    else "\n" ++ heading "Screen" colors ++ "\n" ++ String.join (s.screenRows.map (· ++ "\n"))
  registers ++ screen ++ String.join (o.dumps.map fun region => "\n" ++ dumpText s colors region)

/-- The region of the code section. -/
def codeRegion (loaded : Rom.Report) : Region :=
  ⟨loaded.codeStart.toNat, loaded.codeStart.toNat + loaded.codeBytes⟩

/-- The dumps of a ROM, with an empty line between two of them. -/
def romText (s : Snapshot) (regions : List Region) (colors : Bool) : String :=
  "\n".intercalate (regions.map (dumpText s colors))

def exitCode : Response → Nat
  | .help | .version | .completion _ | .report _ => 0
  | .loadFault _ | .stopped _ => 1
  | .misuse _ => 2

/-- The text on standard output. Help and completions are written by the library that knows the
options, not here. -/
def output? : Response → Option String
  | .help | .completion _ => none
  | .version => some "tis80 0.1.0\n"
  | .report text => some text
  | .misuse _ | .loadFault _ | .stopped _ => some ""

/-- What went wrong while a machine was loaded or run, if something did. -/
def trouble? : Response → Option String
  | .loadFault fault => some (fault.code ++ ": " ++ fault.message)
  | .stopped stop => some stop.message
  | .help | .version | .misuse _ | .completion _ | .report _ => none

/-! ## Requests -/

/-- Runs a machine to its end, or for as many steps as allowed. -/
def finishRun (m : Machine Folder) (maxSteps : Option Nat) (fuel : Nat) :
    Option (Except Stop Unit × Machine Folder) :=
  match maxSteps with
  | none => m.run fuel
  | some n =>
    let ran := m.runFor n
    some (ran.1.map fun _ => (), ran.2)

def run (folder : Folder) (o : RunOptions) (colors : Bool) (fuel : Nat) : Option Response :=
  match Machine.boot folder (o.kernel.getD MemoryMap.kernelImage) with
  | .error fault => some (.loadFault fault)
  | .ok m =>
    (finishRun m o.maxSteps fuel).map fun
      | (.ok (), m) => .report (runText m.snapshot o colors)
      | (.error stop, _) => .stopped stop

def dump (folder : Folder) (rom : String) (o : DumpOptions) (colors : Bool) : Response :=
  match Machine.load { drive := folder } rom with
  | (.error fault, _) => .loadFault fault
  | (.ok loaded, m) =>
    let regions := if o.regions.isEmpty then [codeRegion loaded] else o.regions
    .report (romText m.snapshot regions colors)

end Response

/-- The directory tree a command runs in. -/
structure Workplace where
  tree : FileTree
  here : Location

/-- The folder that holds the ROMs: the given one, or the current directory. -/
def Workplace.folder (w : Workplace) (romDir : Option String) : Folder where
  tree := w.tree
  here := w.here
  root := romDir.getD ("/" ++ "/".intercalate w.here)

/-- Does what an invocation asks for. -/
def Invocation.perform (i : Invocation) (w : Workplace) (terminal : Bool) (fuel : Nat) :
    Option Response :=
  let colors := i.format.colors terminal
  match i.request with
  | .run o => Response.run (w.folder o.romDir) o colors fuel
  | .dump rom o => some (Response.dump (w.folder o.romDir) rom o colors)
  | .completion shell => some (.completion shell)

/-- The response to a command line, without the name of the program. -/
def respond (args : List String) (w : Workplace) (terminal : Bool) (fuel : Nat) : Option Response :=
  match Invocation.read args with
  | .error .help => some .help
  | .error .version => some .version
  | .error (.misuse m) => some (.misuse m)
  | .ok i => i.perform w terminal fuel

end Tis80
