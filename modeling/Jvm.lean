import Jvm.Text
import Jvm.BasicType
import Jvm.Decimal.Shortest
import Jvm.Decimal.Printed
import Jvm.Value
import Jvm.StringTable
import Jvm.AccessFlags
import Jvm.BigEndian
import Jvm.Pool.Tag
import Jvm.Instr
import Jvm.Fault
import Jvm.Descriptor
import Jvm.Pool.Verify
import Jvm.Pool.Memo
import Jvm.Pool.Print
import Jvm.Class.Print
import Jvm.ClassFile.Reader
import Jvm.Frame.Step
import Jvm.Options
import Jvm.Machine
import Jvm.Machine.Loading
import Jvm.Native.Run
import Jvm.Main
import Jvm.Proofs.Sequence
import Jvm.Proofs.BigEndian
import Jvm.Proofs.Action
import Jvm.Proofs.Descriptor
import Jvm.Proofs.Descriptor.Grammar
import Jvm.Proofs.OperandStack.Slots
import Jvm.Proofs.Frame.Activation
import Jvm.Proofs.Frame.Arguments
import Jvm.Proofs.Frame.Operands
import Jvm.Proofs.Frame.Position
import Jvm.Proofs.Frame.References
import Jvm.Proofs.Frame.Variables
import Jvm.Proofs.Frame.Placement
import Jvm.Proofs.Frame.Taking
import Jvm.Proofs.ClassFile.Gives
import Jvm.Proofs.ClassFile.Checked
import Jvm.Proofs.ClassFile.Declared
import Jvm.Proofs.ClassFile.ArgumentRoom
import Jvm.Proofs.ClassFile.Pools
import Jvm.Proofs.Class.Sourced
import Jvm.Proofs.Machine.Growth
import Jvm.Proofs.Machine.Threads
import Jvm.Proofs.Machine.Lookup
import Jvm.Proofs.Machine.TopFrame
import Jvm.Proofs.Machine.Outcome
import Jvm.Proofs.Machine.Runs
import Jvm.Proofs.Call.Passage
import Jvm.Proofs.Machine.Bootstrap
import Jvm.Proofs.Machine.Session
import Jvm.Proofs.Call.Balance
import Jvm.Proofs.Class.StaticSlots
import Jvm.Proofs.Class.InstanceSlots
import Jvm.Proofs.Machine.Records
import Jvm.Proofs.Machine.Parts
import Jvm.Proofs.Machine.StaticFields
import Jvm.Proofs.Machine.Preparation
import Jvm.Proofs.Machine.CutShort
import Jvm.Proofs.Call.StaticFields
import Jvm.Proofs.Machine.Isolation
import Jvm.Proofs.Call.Position
import Jvm.Proofs.Call.Owners
import Jvm.Proofs.OperandStack.Values
import Jvm.Proofs.OperandStack.Refinement
import Jvm.Proofs.Pool.Dereference
import Jvm.Proofs.Pool.Memory
import Jvm.Proofs.Pool.Readings
import Jvm.Proofs.Initialization.Ledger
import Jvm.Proofs.Initialization.Turns
import Jvm.Proofs.Initialization.Later
import Jvm.Proofs.Initialization.Once
import Jvm.Proofs.Initialization.Demand
import Jvm.Proofs.Initialization.Superclass
import Jvm.Proofs.Initialization.Restart
import Jvm.Proofs.ClassFile.Reads
import Jvm.Proofs.ClassFile.Cursor
import Jvm.Proofs.ClassFile.Written
import Jvm.Proofs.ClassFile.PrefixFree
import Jvm.Proofs.ClassFile.RoundTrip
import Jvm.Proofs.Loading.ClassPath
import Jvm.Proofs.Loading.Chain
import Jvm.Proofs.Loading.Dictionary
import Jvm.Proofs.Loading.Foresight
import Jvm.Proofs.Machine.Objects
import Jvm.Proofs.Machine.InstanceFields
import Jvm.Proofs.Machine.FieldAccess
import Jvm.Proofs.Machine.FieldRanges
import Jvm.Proofs.Call.FieldRanges
import Jvm.Proofs.Machine.Granted
import Jvm.Proofs.Machine.Interning
import Jvm.Proofs.Call.Interning
import Jvm.Proofs.Call.Dispatch
import Jvm.Proofs.Call.Arguments
import Jvm.Proofs.Call.PoolUses
import Jvm.Proofs.Machine.Basics
import Jvm.Proofs.Machine.ObjectProperties
import Jvm.Proofs.Call.InstanceFields
import Jvm.Proofs.Machine.Strings
import Jvm.Proofs.Call.Strings
import Jvm.Proofs.Machine.OwnObjects
import Jvm.Proofs.Machine.Twins
import Jvm.Proofs.Machine.TwinParts
import Jvm.Proofs.Machine.TwinSteps
import Jvm.Proofs.Call.Twins
import Jvm.Proofs.Call.References
import Jvm.Proofs.Call.Independence
import Jvm.Proofs.Pool.Resolvable
import Jvm.Proofs.Pool.Verified
import Jvm.Proofs.Loading.Accepted
import Jvm.Proofs.Options.Size
import Jvm.Proofs.Arith.Integer
import Jvm.Proofs.Machine.Arithmetic
import Jvm.Proofs.Machine.Switches
