import Amd64.ValueType
import Amd64.Register
import Amd64.Condition
import Amd64.Numeral
import Amd64.Fault
import Amd64.Refusal
import Amd64.Function
import Amd64.Operand.Basic
import Amd64.Address.Encoding
import Amd64.Instruction.Listing
import Amd64.Action.Layout
import Amd64.Operand.Sum
import Amd64.Operand.Meaning
import Amd64.Operand.Reader
import Amd64.Instruction.Meaning
import Amd64.Datum.Code
import Amd64.Proofs.Assembler.Ending
import Amd64.Proofs.Operand.Translation
import Amd64.Proofs.Address.RoundTrip
import Amd64.Proofs.Assembler.Emission
import Amd64.Proofs.Instruction.Writing
import Amd64.Proofs.Instruction.Forms
import Amd64.Proofs.Instruction.Reading
import Amd64.Proofs.Instruction.RoundTrip
import Amd64.Proofs.Action.Step
import Amd64.Proofs.Action.Survey
import Amd64.Proofs.Action.TwoPasses
import Amd64.Proofs.Action.Refused
import Amd64.Proofs.Operand.Value
import Amd64.Proofs.Address.Legible
import Amd64.Proofs.Instruction.Stored
import Amd64.Proofs.Action.Encodings
import Amd64.Proofs.Action.Sweep
import Amd64.Proofs.Instruction.Displacement
import Amd64.Proofs.Instruction.Relocation
import Amd64.Proofs.Action.Relocated
import Amd64.Proofs.Operand.Reading
import Amd64.Proofs.Rendering.Shown
import Amd64.Proofs.Operand.Listing
import Amd64.Proofs.Instruction.Listing
import Amd64.Proofs.Instruction.Appending
import Amd64.Proofs.Instruction.Listable
import Amd64.Proofs.Operand.Agreement
import Amd64.Proofs.Instruction.Agreement
import Amd64.Proofs.Action.Ledger
import Amd64.Proofs.Action.Placements
import Amd64.Proofs.Datum.RoundTrip
import Amd64.Proofs.Action.Finishing
import Amd64.Proofs.Rendering.Bounded
import Amd64.Proofs.Address.Shortest
import Amd64.Proofs.Operand.Addressable
import Amd64.Proofs.Instruction.FaultFree
import Amd64.Proofs.Instruction.Verdict
import Amd64.Proofs.Instruction.Supported
import Amd64.Proofs.Assembler.Fields
import Amd64.Proofs.Assembler.Patching
import Amd64.Proofs.Action.WellPlaced
import Amd64.Proofs.Operand.Shift
import Amd64.Proofs.Datum.Accepted
import Amd64.Proofs.Operand.Sum
import Amd64.Proofs.Operand.Dump
