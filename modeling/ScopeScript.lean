import ScopeScript.CommandLine.Report
import ScopeScript.Main
import ScopeScript.Proofs.Syntax.Recognition
import ScopeScript.Proofs.Token.Answers
import ScopeScript.Proofs.Run.Isolation
import ScopeScript.Proofs.Session.OneFrame
import ScopeScript.Proofs.Run.Composition
import ScopeScript.Proofs.Store.Permanence
import ScopeScript.Proofs.Run.Declaration
import ScopeScript.Proofs.Session.Permanence
import ScopeScript.Proofs.Run.Names
import ScopeScript.Proofs.Run.Change
import ScopeScript.Proofs.Run.Limit
import ScopeScript.Proofs.Syntax.Joining
import ScopeScript.Proofs.Session.Joining
import ScopeScript.Proofs.Syntax.Writable
import ScopeScript.Proofs.Session.SelfBound
import ScopeScript.Proofs.Session.Display
import ScopeScript.Proofs.Number.Rendering
import ScopeScript.Proofs.Run.Written
import ScopeScript.Proofs.Session.Written
import ScopeScript.Proofs.Session.Globals
import ScopeScript.Proofs.Syntax.Lookahead
import ScopeScript.Proofs.Syntax.Diagnostics
import ScopeScript.Proofs.Store.Ancestry
import ScopeScript.Proofs.Syntax.Succession
import ScopeScript.Proofs.Session.Arithmetic
import ScopeScript.Proofs.CommandLine.Transcript
import ScopeScript.Proofs.Run.Room
import ScopeScript.Proofs.Session.Nesting
import ScopeScript.Proofs.Run.Reference
import ScopeScript.Proofs.Run.Accounting
import ScopeScript.Proofs.Run.Canonical
import ScopeScript.Proofs.Run.Parameters
import ScopeScript.Proofs.Value.Equality
import ScopeScript.Proofs.Value.View
import ScopeScript.Proofs.CommandLine.Execution
