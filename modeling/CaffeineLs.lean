import CaffeineLs.Proofs.KotlinTiling
import CaffeineLs.Proofs.DependencyRefs
import CaffeineLs.Proofs.ClassReading
import CaffeineLs.Proofs.StubPruning
import CaffeineLs.Proofs.ClassResolution
import CaffeineLs.Proofs.ProgressCycles
import CaffeineLs.Proofs.RequestLife
import CaffeineLs.Proofs.LibraryCaches
import CaffeineLs.Proofs.AstIdStability
import CaffeineLs.Proofs.TokenDeltas
import CaffeineLs.Proofs.DocumentOwnership
import CaffeineLs.Proofs.KotlinResolution
import CaffeineLs.Proofs.OperatorChains
import CaffeineLs.Proofs.ControlReading
import CaffeineLs.Proofs.TemplateNesting
import CaffeineLs.Proofs.PatternScope
import CaffeineLs.Proofs.StringConcatenation
import CaffeineLs.Proofs.MemberAccess
import CaffeineLs.Proofs.LocalIdentity
import CaffeineLs.Proofs.Capture
import CaffeineLs.Proofs.ModifiedUtf8
import CaffeineLs.Proofs.PoolBuilder
import CaffeineLs.Proofs.ConstantScopes
import CaffeineLs.Proofs.SwitchDominance
import CaffeineLs.Proofs.LabelResolution
import CaffeineLs.Proofs.Casting
import CaffeineLs.Proofs.ClasspathOrder
import CaffeineLs.Proofs.ModuleReadability
import CaffeineLs.Proofs.ModulePath
import CaffeineLs.Proofs.Disassembly
import CaffeineLs.Proofs.SignatureAlignment
import CaffeineLs.Proofs.CtSym
import CaffeineLs.Proofs.HashedEntries
import CaffeineLs.Proofs.SyntaxPointers
import CaffeineLs.Proofs.SymbolIndex
import CaffeineLs.Proofs.LineEndings
import CaffeineLs.Proofs.HighlightTokens
import CaffeineLs.Proofs.IgnoreRules
import CaffeineLs.Proofs.FieldSelection
import CaffeineLs.Proofs.FileRoots
import CaffeineLs.Proofs.LiteralDecoding
import CaffeineLs.Proofs.LibraryBuild
import CaffeineLs.Proofs.KotlinTypes
