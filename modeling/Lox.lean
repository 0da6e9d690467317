import Lox.Decimal.Positional
import Lox.Decimal.Numeral
import Lox.Text.Line
import Lox.Text.Quoted
import Lox.Token.Basic
import Lox.Token.Scan
import Lox.Syntax.PrefixForm
import Lox.Syntax.Error
import Lox.Syntax.Parse
import Lox.Scope
import Lox.Resolution.Resolve
import Lox.Chain.Pool
import Lox.Value.Text
import Lox.Eval.Builtin
import Lox.Eval.Basic
import Lox.CommandLine
import Lox.Main
import Lox.Proofs.Eval.Script
import Lox.Proofs.Eval.Moment
import Lox.Proofs.Eval.Restore
import Lox.Proofs.Scoping.Resolve
import Lox.Proofs.Syntax.Reading
import Lox.Proofs.Scoping.Realize
import Lox.Proofs.Scoping.Store
import Lox.Proofs.Scoping.Acts
import Lox.Proofs.Scoping.Contract
import Lox.Proofs.Scoping.Scripts
import Lox.Proofs.Session.Scoped
import Lox.Proofs.Eval.Opening
import Lox.Proofs.Scoping.Address
import Lox.Proofs.Eval.Trace
import Lox.Proofs.Scoping.Assignment
import Lox.Proofs.Eval.Fuel
import Lox.Proofs.Session.Stepping
import Lox.Proofs.Chain.Strand
import Lox.Proofs.Syntax.Spelling
import Lox.Proofs.Session.Invisible
import Lox.Proofs.Session.Joining
import Lox.Proofs.Session.Identity
import Lox.Proofs.Scoping.Lexical
import Lox.Proofs.Session.Dispatch
import Lox.Proofs.Session.Receiver
import Lox.Proofs.Session.Returning
import Lox.Proofs.Session.Payload
import Lox.Proofs.Session.Renaming
import Lox.Proofs.Token.Segment
import Lox.Proofs.Session.Arity
import Lox.Proofs.Session.Depth
import Lox.Proofs.Session.Truncation
import Lox.Proofs.Session.BoundMethod
import Lox.Proofs.Session.Rendering
import Lox.Proofs.Token.Offset
import Lox.Proofs.Syntax.Progress
import Lox.Proofs.Session.Equality
import Lox.Proofs.Session.Interference
import Lox.Proofs.Session.Iteration
import Lox.Proofs.Session.Loops
import Lox.Proofs.Scoping.Forest
import Lox.Proofs.Syntax.Recovery
import Lox.Proofs.Session.Activation
import Lox.Proofs.Token.Respacing
import Lox.Proofs.Scoping.Reporting
import Lox.Proofs.Syntax.Unambiguous
import Lox.Proofs.Session.Progression
import Lox.Proofs.Session.Lookup
import Lox.Proofs.Session.Prompt
