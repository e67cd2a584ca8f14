import SciCalc.BigFloat.Basic
import SciCalc.BigFloat.Decimal
import SciCalc.BigFloat.Elementary
import SciCalc.CommandLine
import SciCalc.Console
import SciCalc.Datum
import SciCalc.Decimal.Basic
import SciCalc.Decimal.Numeral
import SciCalc.Decimal.Shortest
import SciCalc.Display.Basic
import SciCalc.Display.Rounding
import SciCalc.Display.Scientific
import SciCalc.Double.Arithmetic
import SciCalc.Double.Basic
import SciCalc.Double.Elementary
import SciCalc.Enclosure.Basic
import SciCalc.Enclosure.Constant
import SciCalc.Enclosure.Exponential
import SciCalc.Enclosure.Gamma
import SciCalc.Enclosure.Trigonometric
import SciCalc.Failure
import SciCalc.Formula.Arithmetic
import SciCalc.Formula.Evaluation
import SciCalc.Formula.Lexeme
import SciCalc.Formula.Parentheses
import SciCalc.Formula.Postfix
import SciCalc.Formula.Token
import SciCalc.Journal.Basic
import SciCalc.Journal.Record
import SciCalc.Journal.Setting
import SciCalc.Main
import SciCalc.Numeric.Quotient
import SciCalc.Numeric.SquareRoot
import SciCalc.Outcome
import SciCalc.Precise.Arithmetic
import SciCalc.Precise.Calculator
import SciCalc.Precise.Display
import SciCalc.Proofs.Formula.Acceptance
import SciCalc.Proofs.Formula.Composition
import SciCalc.Proofs.Formula.Grammar
import SciCalc.Proofs.Formula.Meaning
import SciCalc.Proofs.Formula.Nesting
import SciCalc.Proofs.Formula.OperationErrors
import SciCalc.Proofs.Formula.Rearrangement
import SciCalc.Proofs.Formula.Scanning
import SciCalc.Proofs.Formula.ShuntingYard
import SciCalc.Proofs.Formula.StackMachine
import SciCalc.Proofs.Formula.Tokenizing
import SciCalc.Proofs.Formula.Tree
import SciCalc.Proofs.Outcome
import SciCalc.Proofs.Numeric.Quotient
import SciCalc.Proofs.Double.Rounding
import SciCalc.Proofs.Decimal.ReadingBack
import SciCalc.Proofs.Decimal.Written
import SciCalc.Proofs.Decimal.Printed
import SciCalc.Proofs.Formula.Numerals
import SciCalc.Proofs.Formula.Printing
import SciCalc.Proofs.Runs
import SciCalc.SelfCheck
import SciCalc.Session.Basic
import SciCalc.Session.Memory
import SciCalc.Session.State
import SciCalc.Settings
import SciCalc.Standard.Arithmetic
import SciCalc.Text.Blank
import SciCalc.Text.DecimalDigit
import SciCalc.Text.Printable
import SciCalc.Text.Quoted
import SciCalc.Proofs.Formula.LexicalGrammar
import SciCalc.Proofs.Formula.Tokenizable
import SciCalc.Proofs.Formula.Faults
import SciCalc.Proofs.Formula.AdjacentNumbers
import SciCalc.Proofs.Formula.LeadingNumber
import SciCalc.Proofs.Display.Negation
import SciCalc.Proofs.Session.Consistency
import SciCalc.Proofs.Session.FailedEvaluation
import SciCalc.Proofs.Session.Steps
import SciCalc.Proofs.Session.Refusals
import SciCalc.Proofs.Session.Results
import SciCalc.Proofs.Session.Typing
import SciCalc.Proofs.Session.TypingInParts
import SciCalc.Proofs.Session.RunningOn
import SciCalc.Proofs.Precise.Calls
import SciCalc.Proofs.Formula.StackHeight
import SciCalc.Proofs.Formula.Rejection
import SciCalc.Proofs.Double.Bounds
import SciCalc.Proofs.Enclosure.Bounds
import SciCalc.Proofs.Decimal.Bounds
import SciCalc.Proofs.Display.Totality
import SciCalc.Proofs.Text.Unbroken
import SciCalc.Proofs.Formula.Messages
import SciCalc.Proofs.Console.LineByLine
import SciCalc.Proofs.BigFloat.WholeNumbers
import SciCalc.Proofs.Double.WholeNumbers
import SciCalc.Proofs.Decimal.WholeNumbers
import SciCalc.Proofs.Display.WholeNumbers
import SciCalc.Proofs.Formula.WholeNumbers
import SciCalc.Proofs.Precise.Agreement
import SciCalc.Proofs.Formula.PostfixOrder
import SciCalc.Proofs.Formula.Reading
import SciCalc.Proofs.Display.Written
import SciCalc.Proofs.Display.Beginnings
import SciCalc.Proofs.Session.Strokes
import SciCalc.Proofs.Session.SignOfTyped
import SciCalc.Proofs.Session.Faults
import SciCalc.Proofs.Formula.BoundedDepth
import SciCalc.Proofs.Formula.KeptText
import SciCalc.Proofs.Formula.Respacing
import SciCalc.Proofs.Formula.Stages
import SciCalc.Proofs.Enclosure.Logarithm
import SciCalc.Proofs.Numeric.NearestEven
import SciCalc.Proofs.Double.Nearest
import SciCalc.Proofs.Double.Logarithm
import SciCalc.Proofs.Decimal.Significant
import SciCalc.Proofs.Decimal.FewDigits
import SciCalc.Proofs.Decimal.DigitRuns
import SciCalc.Proofs.Decimal.Canonical
import SciCalc.Proofs.Decimal.Stable
import SciCalc.Proofs.Display.Magnitude
import SciCalc.Proofs.Display.Rounding
import SciCalc.Proofs.Display.Values
import SciCalc.Proofs.Display.TenDigits
import SciCalc.Proofs.Display.DigitCount
import SciCalc.Proofs.Display.Redisplay
import SciCalc.Proofs.Display.OneRounding
import SciCalc.Proofs.Display.ReadBack
import SciCalc.Proofs.Formula.Redisplay
import SciCalc.Proofs.Standard.Guards
import SciCalc.Proofs.Standard.Uninterrupted
import SciCalc.Proofs.Formula.SingleNumber
import SciCalc.Proofs.Precise.MoreDigits
import SciCalc.Proofs.Inspection
import SciCalc.Proofs.Session.TypedNumbers
import SciCalc.Proofs.BigFloat.Normal
import SciCalc.Proofs.Precise.NormalValues
import SciCalc.Proofs.BigFloat.SignificantDigits
import SciCalc.Proofs.Precise.Integers
import SciCalc.Proofs.Calls
import SciCalc.Proofs.Double.Overflow
import SciCalc.Proofs.Session.RealValues
import SciCalc.Proofs.Session.MemoryBalance
import SciCalc.Proofs.Session.StateWrites
import SciCalc.Proofs.Precise.Notebook
import SciCalc.Proofs.Double.Powers
import SciCalc.Proofs.Standard.PowerSigns
import SciCalc.Proofs.Display.CleanUps
import SciCalc.Proofs.Standard.Factorial
import SciCalc.Proofs.Display.CutFractions
import SciCalc.Proofs.Journal.Delivery
