import EcmaLower.Main
import EcmaLower.Proofs.ArrowTargets
import EcmaLower.Proofs.CommandLine.Outputs
import EcmaLower.Proofs.CommandLine.TreeOrder
import EcmaLower.Proofs.ContextScans
import EcmaLower.Proofs.DefaultSpellings
import EcmaLower.Proofs.EvaluatedOnce
import EcmaLower.Proofs.FieldOrder
import EcmaLower.Proofs.FunctionParentheses
import EcmaLower.Proofs.Hygiene
import EcmaLower.Proofs.ModuleNames
import EcmaLower.Proofs.OwnedWords
import EcmaLower.Proofs.Prologues
import EcmaLower.Proofs.RestBindings
import EcmaLower.Proofs.ShorthandProperties
import EcmaLower.Proofs.SuperFrames
import EcmaLower.Proofs.SuperReceivers
import EcmaLower.Proofs.TemplateValues
import EcmaLower.Proofs.UncountedChanges
