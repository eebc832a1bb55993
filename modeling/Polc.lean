import Polc.Analysis.ControlFlowAnalyzer.UninitializedAccess
import Polc.Analysis.NameAndTypeResolver
import Polc.Analysis.ViewPureChecker.Soundness
import Polc.Ast.EncodedSizes
import Polc.Ast.ImplicitConversions
import Polc.Ast.RationalNumberType.MobileTypes
import Polc.Ast.RationalNumberType.Precision
import Polc.Ast.StorageOffsets
import Polc.Ast.TypeObject.Comparison
import Polc.Codegen.ArrayUtils.ValueArrays.Runs
import Polc.Codegen.CompilerUtils.Tuples.Order
import Polc.Codegen.ContractCompiler.Construction
import Polc.Codegen.ContractCompiler.Selector
import Polc.Codegen.ExpressionCompiler.Meaning
import Polc.Codegen.LValue.Isolation
import Polc.Codegen.YulUtilFunctions.Conversions
import Polc.DevCore.Algorithms
import Polc.DevCore.StringUtils
import Polc.DevCore.UTF8
import Polc.Formal.SMTChecker.ArithmeticOperations
import Polc.Formal.SMTLib2Interface.Scoping
import Polc.Formal.VariableUsage.Agreement
import Polc.Interface.ImportOrder
import Polc.Interface.Metadata
import Polc.Interface.SourceMapping
import Polc.Langutil.Scanner.Comments
import Polc.Langutil.Scanner.Rescan
import Polc.Langutil.Scanner.Tokens
import Polc.Langutil.SemVerHandler.Matching
import Polc.Langutil.SemVerHandler.VersionParts
import Polc.Parsing.Parser.Precedence
import Polc.Sof.Assembly.Layout
import Polc.Sof.Assembly.Optimise.Meaning
import Polc.Sof.Assembly.Optimise.Termination
import Polc.Sof.ConstantOptimiser.Meaning
import Polc.Yul.Backends.Wasm.EWasmCodeTransform.Simulation
import Polc.Yul.Backends.Wasm.WordSizeTransform.Simulation
import Polc.Yul.Optimiser.CommonSubexpressionEliminator
import Polc.Yul.Optimiser.ConstantOptimiser.Properties
import Polc.Yul.Optimiser.ControlFlowSimplifier.Meaning
import Polc.Yul.Optimiser.DeadCodeEliminator
import Polc.Yul.Optimiser.ExpressionJoiner.Meaning
import Polc.Yul.Optimiser.ExpressionSimplifier
import Polc.Yul.Optimiser.ForLoopConditionIntoBody
import Polc.Yul.Optimiser.FunctionGrouper
import Polc.Yul.Optimiser.Rematerialiser
import Polc.Yul.Optimiser.RuleArity
import Polc.Yul.Optimiser.SSAReverser
import Polc.Yul.Optimiser.SSATransform.References
import Polc.Yul.Optimiser.Suite
