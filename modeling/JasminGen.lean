import JasminGen.Compile
import JasminGen.Interner
import JasminGen.Output.Memory
import JasminGen.Output.Recorder
import JasminGen.Proofs.Scopes
import JasminGen.Proofs.Lowering.Emits
import JasminGen.Proofs.Lowering.Expr
import JasminGen.Proofs.Lowering.Stmt
import JasminGen.Proofs.Lowering.Program
import JasminGen.Proofs.Balance
import JasminGen.Proofs.Execution
import JasminGen.Proofs.Kinds
import JasminGen.Proofs.Legible
import JasminGen.Proofs.Preservation
import JasminGen.Proofs.SlotUse
import JasminGen.Proofs.Lowering.Ends
import JasminGen.Proofs.Blame
import JasminGen.Proofs.Failures
import JasminGen.Proofs.Validity
import JasminGen.Proofs.Pointers
import JasminGen.Proofs.FailStop
import JasminGen.Proofs.Lowering.Coupling
import JasminGen.Proofs.Lowering.Units
import JasminGen.Proofs.Comments
import JasminGen.Proofs.Context
import JasminGen.Proofs.Relocation
import JasminGen.Proofs.FunctionOrder
import JasminGen.Proofs.UnitTexts
import JasminGen.Proofs.Classes
import JasminGen.Proofs.SlotBound
import JasminGen.Proofs.StackBound
import JasminGen.Proofs.Trace
import JasminGen.Proofs.Limits
import JasminGen.Proofs.FileSystem.Paths
import JasminGen.Proofs.FileSystem.Emptying
import JasminGen.Proofs.Lowering.Opened
import JasminGen.Proofs.Mirroring
import JasminGen.Proofs.FileSystem.Files
import JasminGen.Proofs.DirectorySink
import JasminGen.Proofs.Declarations
import JasminGen.Proofs.ProgramSymbols
import JasminGen.Proofs.Calls.Invocations
import JasminGen.Proofs.Walks
import JasminGen.Proofs.Returns
import JasminGen.Proofs.Constructors
import JasminGen.Proofs.Lowering.Rewriting
import JasminGen.Proofs.Grouping
import JasminGen.Proofs.Colors
import JasminGen.Proofs.Requests
import JasminGen.Proofs.Formatting
import JasminGen.Proofs.Writers
import JasminGen.Proofs.Interning
import JasminGen.Proofs.SlotNumbering
import JasminGen.Proofs.Descriptors
