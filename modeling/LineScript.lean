import LineScript.Expression.Grammar
import LineScript.Main
import LineScript.Proofs.Matching
import LineScript.Proofs.Scanning
import LineScript.Proofs.Lexemes
import LineScript.Proofs.Reading
import LineScript.Proofs.Precedence
import LineScript.Proofs.Agreement
import LineScript.Proofs.Blocks
import LineScript.Proofs.Accounting
import LineScript.Proofs.Reachable
import LineScript.Proofs.Questions
import LineScript.Proofs.Tiling
import LineScript.Proofs.Forms
import LineScript.Proofs.Sessions
import LineScript.Proofs.Rounding
import LineScript.Proofs.Doubles
import LineScript.Proofs.Correspondence
import LineScript.Proofs.Influence
import LineScript.Proofs.Segments
import LineScript.Proofs.Entries
import LineScript.Proofs.RoundTrip
import LineScript.Proofs.Trimming
import LineScript.Proofs.InlinePrint
import LineScript.Proofs.Calls
import LineScript.Proofs.Outcomes
import LineScript.Proofs.Failures
import LineScript.Proofs.Spacing
import LineScript.Proofs.Conditions
import LineScript.Proofs.Variables
import LineScript.Proofs.Assignments
import LineScript.Proofs.Recognition
import LineScript.Proofs.Addressing
import LineScript.Proofs.Layouts
import LineScript.Proofs.Histories
import LineScript.Proofs.Resolving
import LineScript.Proofs.Numerals
import LineScript.Proofs.Signs
import LineScript.Proofs.Integers
import LineScript.Proofs.NumberTokens
import LineScript.Proofs.Positions
import LineScript.Proofs.Pairing
import LineScript.Proofs.Depth
import LineScript.Proofs.Climbing
