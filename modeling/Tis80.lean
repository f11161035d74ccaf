import Tis80.Command.Arguments
import Tis80.Command.Request
import Tis80.Command.Response
import Tis80.Drive.FileTree
import Tis80.Drive.Folder
import Tis80.Drive.Shelf
import Tis80.Drive.Source
import Tis80.Instruction.Basic
import Tis80.Instruction.Opcode
import Tis80.Interrupt
import Tis80.Machine.Basic
import Tis80.Machine.Load
import Tis80.Machine.Stack
import Tis80.Machine.Step
import Tis80.Main
import Tis80.Memory
import Tis80.MemoryMap
import Tis80.Panel
import Tis80.Region.Parser
import Tis80.Registers.Basic
import Tis80.Registers.Flags
import Tis80.Registers.Text
import Tis80.Rom.Basic
import Tis80.Rom.Reading
import Tis80.Snapshot
import Tis80.Text.GraphemeExtend
import Tis80.Text.Lossy
import Tis80.Text.Quoted
import Tis80.Text.Unprintable
import Tis80.Word
import Tis80.Proofs.Memory
import Tis80.Proofs.Stack
import Tis80.Proofs.Execution
import Tis80.Proofs.Bounds
import Tis80.Proofs.CallReturn
import Tis80.Proofs.BoundedStack
import Tis80.Proofs.RomImage
import Tis80.Proofs.RomGrammar
import Tis80.Proofs.Interrupts
import Tis80.Proofs.StackRegion
import Tis80.Proofs.FlagHistory
import Tis80.Proofs.Loading
import Tis80.Proofs.Budgets
import Tis80.Proofs.Resumption
import Tis80.Proofs.RomTruncation
import Tis80.Proofs.Lockstep
import Tis80.Proofs.Shield
import Tis80.Proofs.Keys
import Tis80.Proofs.Streaming
import Tis80.Proofs.Interference
import Tis80.Proofs.FlatNames
import Tis80.Proofs.Drives
import Tis80.Proofs.CutFrames
import Tis80.Proofs.RomDefects
import Tis80.Proofs.Stops
import Tis80.Proofs.Decoding
import Tis80.Proofs.ExactSums
import Tis80.Proofs.Progress
import Tis80.Proofs.DiskLoads
import Tis80.Proofs.RegionGrammar
import Tis80.Proofs.Dumps
import Tis80.Proofs.CodeDumps
import Tis80.Proofs.ScreenRows
import Tis80.Proofs.DiskNames
import Tis80.Proofs.Pointers
import Tis80.Proofs.Listings
