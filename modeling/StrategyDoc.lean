import StrategyDoc.Files.Tree
import StrategyDoc.Json.Sorted
import StrategyDoc.Main
import StrategyDoc.Proofs.Comparison
import StrategyDoc.Proofs.Conformance
import StrategyDoc.Proofs.Contracts
import StrategyDoc.Proofs.DeclaredPart
import StrategyDoc.Proofs.Grammar
import StrategyDoc.Proofs.Locality
import StrategyDoc.Proofs.Reading
import StrategyDoc.Proofs.Representation
import StrategyDoc.Proofs.Rereading
import StrategyDoc.Proofs.SortedForm
import StrategyDoc.Proofs.Substitution
import StrategyDoc.Strategy.Equality
import StrategyDoc.Proofs.Walk
import StrategyDoc.Proofs.Separation
import StrategyDoc.Proofs.Budget
import StrategyDoc.Proofs.Justification
import StrategyDoc.Proofs.Strictness
import StrategyDoc.Proofs.ByteOrder
import StrategyDoc.Proofs.WalkOrder
import StrategyDoc.Proofs.Numerals
import StrategyDoc.Proofs.QuotedText
import StrategyDoc.Proofs.WrittenText
import StrategyDoc.Proofs.Literals
import StrategyDoc.Proofs.ReportText
import StrategyDoc.Proofs.Rounding
import StrategyDoc.Proofs.ShortestDecimal
import StrategyDoc.Proofs.NumberText
import StrategyDoc.Proofs.RereadLiterals
import StrategyDoc.Proofs.RootExpression
import StrategyDoc.Proofs.Places
import StrategyDoc.Proofs.Undeclared
import StrategyDoc.Proofs.EmptyBranches
import StrategyDoc.Proofs.CleanPlaces
import StrategyDoc.Proofs.Deletion
import StrategyDoc.Proofs.Spelling
import StrategyDoc.Proofs.DocumentText
import StrategyDoc.Proofs.Accounting
import StrategyDoc.Proofs.PolicySettings
import StrategyDoc.Proofs.Presentation
import StrategyDoc.Proofs.ValidateCommand
import StrategyDoc.Proofs.Precedence
import StrategyDoc.Proofs.SettingLines
import StrategyDoc.Proofs.WrittenPolicy
import StrategyDoc.Proofs.OrderlyVisits
import StrategyDoc.Proofs.Instruments
import StrategyDoc.Proofs.DecimalText
import StrategyDoc.Proofs.Discovery
import StrategyDoc.Proofs.Formulas
import StrategyDoc.Proofs.PathText
import StrategyDoc.Proofs.UnknownFunctions
import StrategyDoc.Proofs.Delimiters
import StrategyDoc.Proofs.HeaderLines
import StrategyDoc.Proofs.PrintedTexts
import StrategyDoc.Proofs.HarmlessDocuments
import StrategyDoc.Proofs.HonestReports
