import ByteMachine.Command
import ByteMachine.Engine.Exchange
import ByteMachine.Engine.Operation
import ByteMachine.Engine.Snapshot
import ByteMachine.Event.Bus
import ByteMachine.Main
import ByteMachine.Proofs.Assembly.ControlFlow
import ByteMachine.Proofs.Assembly.Encoding
import ByteMachine.Proofs.Assembly.Forms
import ByteMachine.Proofs.Assembly.Joining
import ByteMachine.Proofs.Assembly.Layout
import ByteMachine.Proofs.Assembly.Line
import ByteMachine.Proofs.Assembly.Linking
import ByteMachine.Proofs.Assembly.Listing
import ByteMachine.Proofs.Assembly.Offset
import ByteMachine.Proofs.Assembly.Operand
import ByteMachine.Proofs.Assembly.Prefix
import ByteMachine.Proofs.Assembly.Source
import ByteMachine.Proofs.Assembly.Spelling
import ByteMachine.Proofs.Command.Disk
import ByteMachine.Proofs.Command.Outputs
import ByteMachine.Proofs.Disassembly.Listing
import ByteMachine.Proofs.Disassembly.Row
import ByteMachine.Proofs.Disassembly.Step
import ByteMachine.Proofs.Disassembly.Window
import ByteMachine.Proofs.Engine.AtomicStep
import ByteMachine.Proofs.Engine.Capacity
import ByteMachine.Proofs.Engine.Confinement
import ByteMachine.Proofs.Engine.Cycle
import ByteMachine.Proofs.Engine.Decoding
import ByteMachine.Proofs.Engine.Display
import ByteMachine.Proofs.Engine.Exchange
import ByteMachine.Proofs.Engine.Fault
import ByteMachine.Proofs.Engine.History
import ByteMachine.Proofs.Engine.Limits
import ByteMachine.Proofs.Engine.LoadImage
import ByteMachine.Proofs.Engine.Loading
import ByteMachine.Proofs.Engine.Nesting
import ByteMachine.Proofs.Engine.Observer
import ByteMachine.Proofs.Engine.Protocol
import ByteMachine.Proofs.Engine.Row
import ByteMachine.Proofs.Engine.Snapshot
import ByteMachine.Proofs.Engine.Step
import ByteMachine.Proofs.Event.Delivery
import ByteMachine.Proofs.Event.Sealing
import ByteMachine.Proofs.Image.LongForm.Legal
import ByteMachine.Proofs.Image.LongForm.Outline
import ByteMachine.Proofs.Image.LongForm.Recovery
import ByteMachine.Proofs.Image.LongForm.RoundTrip
import ByteMachine.Proofs.Image.LongForm.Rows
import ByteMachine.Proofs.Image.Payload
import ByteMachine.Proofs.Image.Payload.Bits
import ByteMachine.Proofs.Image.Payload.Canonical
import ByteMachine.Proofs.Image.Payload.Format
import ByteMachine.Proofs.Image.ShortForm
import ByteMachine.Proofs.Image.ShortForm.Parameters
import ByteMachine.Proofs.Instruction
import ByteMachine.Proofs.Instruction.Events
import ByteMachine.Proofs.Instruction.Table
import ByteMachine.Proofs.Routine
import ByteMachine.Proofs.Text.Number
import ByteMachine.Proofs.Text.Percent
import ByteMachine.Proofs.Text.Split
