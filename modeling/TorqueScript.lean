import TorqueScript.Table
import TorqueScript.Text.Letter
import TorqueScript.Text.Blank
import TorqueScript.Text.Case
import TorqueScript.Text.Bytes
import TorqueScript.Text.Words
import TorqueScript.Number.Binary
import TorqueScript.Number.Numeral
import TorqueScript.Number.Format
import TorqueScript.Token.Stream
import TorqueScript.Settings
import TorqueScript.Value
import TorqueScript.Fault
import TorqueScript.Program.Render
import TorqueScript.Program.Parse.Expression
import TorqueScript.Program.Parse.Statement
import TorqueScript.Functions
import TorqueScript.Objects.Reference
import TorqueScript.Objects.Field
import TorqueScript.Objects.Tree
import TorqueScript.Library
import TorqueScript.Operator
import TorqueScript.Main
import TorqueScript.Proofs.Functions.Stacks
import TorqueScript.Proofs.Functions.Effects
import TorqueScript.Proofs.Functions.WellFormed
import TorqueScript.Proofs.Functions.History
import TorqueScript.Proofs.Functions.Undo
import TorqueScript.Proofs.Functions.Order
import TorqueScript.Proofs.Objects.Ownership
import TorqueScript.Proofs.Objects.WellFormed
import TorqueScript.Proofs.Objects.Moving
import TorqueScript.Proofs.Objects.History
import TorqueScript.Proofs.Objects.Fates
import TorqueScript.Proofs.Objects.References
import TorqueScript.Proofs.Objects.Deletion
import TorqueScript.Proofs.Objects.Inheritance
import TorqueScript.Proofs.Objects.Growth
import TorqueScript.Proofs.Interpreter.Closure
import TorqueScript.Proofs.Interpreter.Isolation
import TorqueScript.Proofs.Interpreter.Delegation
import TorqueScript.Proofs.Interpreter.Operations
import TorqueScript.Proofs.Interpreter.DepthLimit
import TorqueScript.Proofs.Interpreter.CaseFolding
import TorqueScript.Proofs.Interpreter.Termination
import TorqueScript.Proofs.Interpreter.Splitting
import TorqueScript.Proofs.Interpreter.Quiet
import TorqueScript.Proofs.Program.Readers
import TorqueScript.Proofs.Program.Grammar
import TorqueScript.Proofs.Program.Completeness
import TorqueScript.Proofs.Program.Leaves
import TorqueScript.Proofs.Program.Precedence
import TorqueScript.Proofs.Program.StatementReaders
import TorqueScript.Proofs.Program.Recipes
import TorqueScript.Proofs.Program.Following
import TorqueScript.Proofs.Program.Origins
import TorqueScript.Proofs.Token.Lexemes
import TorqueScript.Proofs.Token.Lexical
import TorqueScript.Proofs.Token.Literals
import TorqueScript.Proofs.Token.Spelling
import TorqueScript.Proofs.Token.Joining
import TorqueScript.Proofs.Number.Sign
import TorqueScript.Proofs.Number.Whole
import TorqueScript.Proofs.Program.Printing
import TorqueScript.Proofs.Program.StatementSpelling
import TorqueScript.Proofs.Program.RoundTrip
import TorqueScript.Proofs.Program.Prolonging
import TorqueScript.Proofs.Program.Composition
import TorqueScript.Proofs.Token.Layout
import TorqueScript.Proofs.Program.Mistakes
import TorqueScript.Proofs.Program.Diagnostics
import TorqueScript.Proofs.Interpreter.Rollback
import TorqueScript.Proofs.Objects.Trees
import TorqueScript.Proofs.Interpreter.Creation
import TorqueScript.Proofs.Interpreter.Outcomes
import TorqueScript.Proofs.Interpreter.FirstMatch
import TorqueScript.Proofs.Objects.ClassChains
import TorqueScript.Proofs.Interpreter.ReceiverChains
import TorqueScript.Proofs.Objects.Atomicity
import TorqueScript.Proofs.Interpreter.Loops
import TorqueScript.Proofs.Text.Utf8
import TorqueScript.Proofs.Token.ByteCursor
import TorqueScript.Proofs.Token.ByteReaders
import TorqueScript.Proofs.Token.ByteLexemes
import TorqueScript.Proofs.Token.ByteSteps
import TorqueScript.Proofs.Token.QuotedTexts
import TorqueScript.Proofs.Program.Descent
import TorqueScript.Proofs.Program.Lockstep
import TorqueScript.Proofs.Program.Calls
import TorqueScript.Proofs.Program.Halting
import TorqueScript.Proofs.Text.Words
import TorqueScript.Proofs.Number.Numerals
import TorqueScript.Proofs.Number.LeadingNumerals
import TorqueScript.Proofs.Number.NumberBytes
import TorqueScript.Proofs.Token.NumeralTokens
import TorqueScript.Proofs.Text.Occurrences
import TorqueScript.Proofs.Interpreter.FunctionQueries
import TorqueScript.Proofs.Objects.OwnNames
import TorqueScript.Proofs.Token.VariableNames
