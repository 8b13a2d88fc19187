import TaskCab.Main
import TaskCab.Proofs.CommandLine.Outcome
import TaskCab.Proofs.Extraction.Defaults
import TaskCab.Proofs.Extraction.Stored
import TaskCab.Proofs.Extraction.WrapperDocument
import TaskCab.Proofs.Reference.FilledDescription
import TaskCab.Proofs.Reference.OwnTable
import TaskCab.Proofs.Reference.RenderedPage
import TaskCab.Proofs.Yaml.DocumentLayout
import TaskCab.Proofs.Yaml.DistinctScalars
import TaskCab.Proofs.Yaml.ScalarKinds
import TaskCab.Proofs.Extraction.WrappedDefault
import TaskCab.Proofs.Extraction.LineEnds
import TaskCab.Proofs.Docstring.Blocks
import TaskCab.Proofs.Docstring.Encodings
import TaskCab.Proofs.Docstring.Markers
import TaskCab.Proofs.Source.NumberTokens
import TaskCab.Proofs.Source.DigitStrings
import TaskCab.Proofs.Source.IntegerExpressions
import TaskCab.Proofs.Value.ExpressionValues
import TaskCab.Proofs.Value.ExactIntegers
import TaskCab.Proofs.Docstring.Indentation
import TaskCab.Proofs.Extraction.InputSignals
import TaskCab.Proofs.Source.Spellings
import TaskCab.Proofs.Source.CompactedLiterals
import TaskCab.Proofs.Extraction.FirstClasses
import TaskCab.Proofs.Extraction.Outputs
import TaskCab.Proofs.Extraction.PositionalPart
import TaskCab.Proofs.Reference.DataEquality
import TaskCab.Proofs.Reference.LooseEquivalence
import TaskCab.Proofs.Reference.NumberArray
import TaskCab.Proofs.Extraction.DtypeRules
import TaskCab.Proofs.Reference.FilledRecords
import TaskCab.Proofs.Table.RenderedTable
import TaskCab.Proofs.Yaml.EscapedText
