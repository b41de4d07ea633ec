import Runar.Optimizer.PeepholeCorrect
import Runar.StackLower.PushData
import Runar.StackLower.StateAgree
import Runar.Typecheck.Types
import Runar.AnfLower.SideEffects
import Runar.Typecheck.Check
import Runar.AnfLower.Context
import Runar.AnfLower.Lift
import Runar.AnfLower.Lower
import Runar.AnfLower.Statements
import Runar.AnfLower.ByteMarks
import Runar.Interpreter.Value
import Runar.Logic.Blame
import Runar.Typecheck.Run
import Runar.Logic.DepthFirst
import Runar.Validate.Recursion
import Runar.Sdk.Contract
import Runar.Logic.Atomic
import Runar.Sdk.Assembly
import Runar.Sdk.Calls
import Runar.Sdk.Failures
import Runar.Crypto.Lucas
import Runar.Crypto.Secp256k1
import Runar.Crypto.Der
import Runar.StackLower.PreimageBinding
import Runar.StackLower.PreimageSignature
import Runar.StackLower.PreimageCheck
import Runar.Logic.Template
import Runar.Sdk.PushText
import Runar.Artifact.Emit
import Runar.Artifact.EmitCorrect
import Runar.Artifact.Expand
import Runar.Sdk.Deployed
import Runar.Typecheck.Passes
import Runar.Typecheck.Sound
import Runar.Logic.Ledger
import Runar.Typecheck.Passing
import Runar.Typecheck.Affine
import Runar.Artifact.Dispatch
import Runar.Sdk.SlotLayout
import Runar.Sdk.TemplateHash
import Runar.Sdk.StateCodec
import Runar.Sdk.StateRoundTrip
import Runar.Anf.Eval
import Runar.Optimizer.Dce
import Runar.Logic.Euclid
import Runar.StackLower.MathBuiltins
import Runar.StackLower.MathSequences
import Runar.Optimizer.FoldBuiltins
import Runar.Logic.Peak
import Runar.Validate.CallPaths
import Runar.Validate.Sighash
import Runar.Logic.Orbit
import Runar.Logic.Tiling
import Runar.Sdk.OpReturn
import Runar.Sdk.StateRanges
import Runar.Logic.Stops
import Runar.Sdk.AnfInterpreter
import Runar.Sdk.StrictRuns
import Runar.Parse.Solidity
import Runar.Parse.Scopes
import Runar.Parse.NameResolution
import Runar.Parse.ParamStripping
import Runar.Sdk.ExtractedArgs
import Runar.Logic.Utf8
import Runar.Sdk.Envelope
import Runar.Sdk.EnvelopeSearch
import Runar.Sdk.FromUtxo
import Runar.Sdk.Lossless
import Runar.Sdk.Marks
import Runar.Sdk.SeparatorOffsets
import Runar.Sdk.SeparatorChoice
import Runar.Decompiler.Disasm
import Runar.Decompiler.Dispatch
import Runar.Decompiler.SplitMethods
import Runar.Decompiler.Tokens
import Runar.Sdk.EnvelopeScanner
import Runar.Artifact.PushEncoding
import Runar.Schema.StateLayout
import Runar.Script.CompactSize
import Runar.StackLower.Outputs
import Runar.Logic.Newton
import Runar.Optimizer.SquareRoot
import Runar.Artifact.EmittedOffsets
import Runar.Logic.Rounds
import Runar.StackLower.ForLoops
import Runar.Artifact.Regroup
import Runar.Logic.Largest
import Runar.Sdk.Funding
import Runar.Sdk.CallTransaction
import Runar.Sdk.EnvelopeRoundTrip
import Runar.Testing.StackAnalyzer
import Runar.Testing.PathAnalyzer
import Runar.Testing.BranchBlocks
import Runar.Testing.PathExactness
import Runar.Logic.Fuel
import Runar.Parse.ParserCore
import Runar.Parse.Printer
import Runar.Parse.RoundTrip
import Runar.Parse.ParserTermination
import Runar.Logic.JsonText
import Runar.Logic.DoubleText
import Runar.Schema.CanonicalJson
import Runar.Schema.CanonicalRoundTrip
import Runar.Schema.CanonicalLossless
import Runar.Parse.PythonNames
import Runar.Parse.PythonScopes
import Runar.Testing.MockPreimage
import Runar.StackLower.ByteSequences
import Runar.StackLower.Extractors
import Runar.StackLower.ByteBuiltins
import Runar.StackLower.Rabin
import Runar.StackLower.Merkle
import Runar.Schema.LoadAnf
import Runar.StackLower.Wots
import Runar.StackLower.BabyBearExt4
import Runar.StackLower.Sha256
import Runar.StackLower.Blake3
import Runar.Interpreter.ScriptNumberUtils
import Runar.Sdk.NumericHelpers
import Runar.Sdk.TrackedRuns
import Runar.AnfLower.LiftCorrect
import Runar.Logic.HashSignatures
import Runar.StackLower.WotsSign
import Runar.Crypto.SlhDsa
import Runar.Crypto.SlhDsaCorrect
import Runar.StackLower.RabinSign
import Runar.Optimizer.ConstantFold
import Runar.Optimizer.ConstantFoldCorrect
import Runar.Decompiler.Emitted
import Runar.Schema.ReadCanonical
import Runar.Sdk.SignedEnvelope
