import StackScript.Assembly.Diagnostic
import StackScript.Assembly.Error
import StackScript.Assembly.Listing
import StackScript.Assembly.Program
import StackScript.Assembly.Statement
import StackScript.Assembly.Token
import StackScript.Builder
import StackScript.Bytes
import StackScript.Console.Level
import StackScript.Console.Options
import StackScript.Console.Program
import StackScript.Console.Session
import StackScript.Crypto
import StackScript.Digest
import StackScript.Digest.Ripemd160
import StackScript.Digest.Sha1
import StackScript.Digest.Sha256
import StackScript.Digest.Word
import StackScript.Engine.Basic
import StackScript.Engine.Run
import StackScript.Engine.Step
import StackScript.Fault
import StackScript.Frame
import StackScript.Heap
import StackScript.Instruction
import StackScript.Item
import StackScript.Main
import StackScript.Number.Bits
import StackScript.Number.Positional
import StackScript.Number.TwosComplement
import StackScript.Opcode
import StackScript.Operation
import StackScript.Operation.Containers
import StackScript.Operation.Numbers
import StackScript.Operation.Splice
import StackScript.Operation.Stacks
import StackScript.Operation.Verification
import StackScript.Rendering
import StackScript.Schnorr
import StackScript.Schnorr.Curve
import StackScript.Script
import StackScript.ScriptHash
import StackScript.ScriptTable
import StackScript.Service
import StackScript.Stack
import StackScript.Text.Blank
import StackScript.Text.Decimal
import StackScript.Text.Hex
import StackScript.Text.Lines
import StackScript.Text.Numeral
import StackScript.Text.Printable
import StackScript.Text.Quoted
import StackScript.Text.Utf8
import StackScript.Workspace
import StackScript.Proofs.Heap.Copying
import StackScript.Proofs.Heap.Ownership
import StackScript.Proofs.Operation.Moves
import StackScript.Proofs.Operation.Ownership
import StackScript.Proofs.Engine.Inversion
import StackScript.Proofs.Engine.Ownership
import StackScript.Proofs.Engine.Breakpoints
import StackScript.Proofs.Engine.Sessions
import StackScript.Proofs.Operation.Faults
import StackScript.Proofs.Assembly.Printing
import StackScript.Proofs.Engine.Decoding
import StackScript.Proofs.Encoding
import StackScript.Proofs.Assembly.Statements
import StackScript.Proofs.Assembly.Relisting
import StackScript.Proofs.Consumption
import StackScript.Proofs.Assembly.Labels
import StackScript.Proofs.Engine.Jumps
import StackScript.Proofs.Engine.Faults
import StackScript.Proofs.Engine.Reachable
import StackScript.Proofs.Operation.Writes
import StackScript.Proofs.Engine.Cells
import StackScript.Proofs.Assembly.Restoring
import StackScript.Proofs.Engine.Stepping
import StackScript.Proofs.Engine.PushOnly
import StackScript.Proofs.Building
import StackScript.Proofs.Assembly.Sources
import StackScript.Proofs.Engine.Locality
import StackScript.Proofs.Caching
import StackScript.Proofs.Engine.Frames
import StackScript.Proofs.Engine.LifeCycle
import StackScript.Proofs.Number.ShortestForm
import StackScript.Proofs.Operation.Multisig
import StackScript.Proofs.Heap.Reading
import StackScript.Proofs.Heap.Numbering
import StackScript.Proofs.Heap.Worklist
import StackScript.Proofs.Heap.DeepCopy
import StackScript.Proofs.Console.Budget
import StackScript.Proofs.Engine.ShortestPush
import StackScript.Proofs.Operation.Packing
import StackScript.Proofs.Operation.Depths
import StackScript.Proofs.Rendering
import StackScript.Proofs.Assembly.Locating
import StackScript.Proofs.Operation.Shifts
import StackScript.Proofs.Operation.Bitwise
import StackScript.Proofs.Schnorr
import StackScript.Proofs.Assembly.Caret
import StackScript.Proofs.Writing
