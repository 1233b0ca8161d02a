import ClassVM.Main
import ClassVM.Proofs.ByteMachine.Lockstep
import ClassVM.Proofs.Calls.Bodies
import ClassVM.Proofs.Calls.Halting
import ClassVM.Proofs.Calls.Limit
import ClassVM.Proofs.Calls.RoundTrip
import ClassVM.Proofs.Calls.Termination
import ClassVM.Proofs.ClassFile.Truncation
import ClassVM.Proofs.Code.Descriptor
import ClassVM.Proofs.Loading.Agreement
import ClassVM.Proofs.Loading.Confinement
import ClassVM.Proofs.Loading.History
import ClassVM.Proofs.Loading.Laziness
import ClassVM.Proofs.Loading.Paths
import ClassVM.Proofs.Machine.Containment
import ClassVM.Proofs.Machine.Printing
import ClassVM.Proofs.Machine.Relaid
import ClassVM.Proofs.Machine.Restart
import ClassVM.Proofs.Typing.Soundness
import ClassVM.Proofs.Machine.Capacity
import ClassVM.Proofs.Pool.Decoding
import ClassVM.Proofs.Pool.Slots
import ClassVM.Proofs.Calls.Brackets
import ClassVM.Proofs.Expressions.Compilation
import ClassVM.Proofs.Expressions.Evaluation
import ClassVM.Proofs.Assembly.Concatenation
import ClassVM.Proofs.Assembly.Faults
import ClassVM.Proofs.Calls.Arguments
import ClassVM.Proofs.Calls.Blocks
import ClassVM.Proofs.Programs.FactorialRun
import ClassVM.Proofs.Code.TypePositions
import ClassVM.Proofs.Expressions.Arithmetic
import ClassVM.Proofs.Loading.SearchOrder
import ClassVM.Proofs.Pool.Resolution
import ClassVM.Proofs.Loading.Joining
import ClassVM.Proofs.Code.Scan
import ClassVM.Proofs.ClassFile.CodeNesting
