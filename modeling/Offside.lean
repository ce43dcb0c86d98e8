import Offside.Main
import Offside.Proofs.Adjustment
import Offside.Proofs.Agreement.Lines
import Offside.Proofs.Agreement.Report
import Offside.Proofs.Agreement.Status
import Offside.Proofs.Anchors
import Offside.Proofs.BlankLines
import Offside.Proofs.CacheTransparency
import Offside.Proofs.CodeLines
import Offside.Proofs.Edit
import Offside.Proofs.Files
import Offside.Proofs.IndentLines
import Offside.Proofs.IndentUnit
import Offside.Proofs.Lexical.Cache
import Offside.Proofs.Lexical.CodeView
import Offside.Proofs.Lexical.Entries
import Offside.Proofs.Lexical.Grammar
import Offside.Proofs.Lexical.Literals
import Offside.Proofs.Lexical.Lookahead
import Offside.Proofs.Lexical.Places
import Offside.Proofs.Lexical.Reached
import Offside.Proofs.Lexical.Read
import Offside.Proofs.Lexical.Shape
import Offside.Proofs.Lexical.Token
import Offside.Proofs.Opening
import Offside.Proofs.Outline
import Offside.Proofs.Reindent
import Offside.Proofs.ReindentFile
import Offside.Proofs.SetIndentation
import Offside.Proofs.Statement
import Offside.Proofs.Structure
import Offside.Proofs.Substitution
import Offside.Proofs.Text.Boundary
import Offside.Proofs.Text.Indentation
import Offside.Proofs.Text.Rows
import Offside.Proofs.Untouched
import Offside.Proofs.Agreement.Texts
import Offside.Proofs.Partition
import Offside.Proofs.StatusContinuation
import Offside.Proofs.Guarded.Access
import Offside.Proofs.Guarded.Buffer
import Offside.Proofs.Guarded.Scan
import Offside.Proofs.Guarded.Assignment
import Offside.Proofs.Guarded.Indentation
import Offside.Proofs.Guarded.Block
import Offside.Proofs.Guarded.Questions
import Offside.Proofs.Guarded.Cache
import Offside.Proofs.Neighbours
import Offside.Proofs.Blocks
import Offside.Proofs.Headers
import Offside.Proofs.Loops
import Offside.Proofs.Progress
import Offside.Proofs.Revision
import Offside.Proofs.Cycling
import Offside.Proofs.WriteBack
import Offside.Proofs.Enclosing
import Offside.Proofs.ForwardBlock
import Offside.Proofs.StatementMotions
import Offside.Proofs.BackwardBlock
import Offside.Proofs.Shift
import Offside.Proofs.LineEndings.Scan
import Offside.Proofs.LineEndings.Structure
import Offside.Proofs.LineEndings.Columns
import Offside.Proofs.LineEndings.Operations
import Offside.Proofs.LineEndings
import Offside.Proofs.DefinitionBounds
import Offside.Proofs.DefinitionPath
import Offside.Proofs.DedentMatch
import Offside.Proofs.ElectricDedent
import Offside.Proofs.Noops
import Offside.Proofs.ShiftRoundTrip
import Offside.Proofs.Lexical.CodeFilter
import Offside.Proofs.LongestMatch
import Offside.Proofs.WrittenColumn
import Offside.Proofs.AssignmentTokens
import Offside.Proofs.Coordinates
import Offside.Proofs.Lexical.OpenConstructs
import Offside.Proofs.Lexical.LineStarts
import Offside.Proofs.DedentKeywords
