import ShellScript.Parser
import ShellScript.Proofs.Accounting
import ShellScript.Proofs.Blanks
import ShellScript.Proofs.Comments
import ShellScript.Proofs.Composition
import ShellScript.Proofs.Conservation
import ShellScript.Proofs.FirstError
import ShellScript.Proofs.Lexing.Munch
import ShellScript.Proofs.MissingCloser
import ShellScript.Proofs.Nesting
import ShellScript.Proofs.Order
import ShellScript.Proofs.Progress
import ShellScript.Proofs.Quoting
import ShellScript.Proofs.Recognition
import ShellScript.Proofs.Refusal
import ShellScript.Proofs.Restoring
import ShellScript.Proofs.RoundTrip
import ShellScript.Proofs.Scanner
import ShellScript.Proofs.Separators
import ShellScript.Proofs.Session
import ShellScript.Proofs.SourceFile
import ShellScript.Proofs.Spelling
import ShellScript.Proofs.Strictness
import ShellScript.Proofs.Traversal
import ShellScript.Proofs.Visiting
import ShellScript.Proofs.WellFormed
import ShellScript.Proofs.Wrapping
import ShellScript.Scanner
import ShellScript.SourceFile
import ShellScript.Tree.Checked
import ShellScript.Tree.Equality
import ShellScript.Tree.Plain
import ShellScript.Tree.Visitor
