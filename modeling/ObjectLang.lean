import ObjectLang.Imports.Order
import ObjectLang.Main
import ObjectLang.Syntax.Splice
import ObjectLang.Proofs.Machine.Return
import ObjectLang.Proofs.Typing.Twice
import ObjectLang.Proofs.Scoping.Agreement
import ObjectLang.Proofs.Scoping.Library
import ObjectLang.Proofs.Grammar.Progress
import ObjectLang.Proofs.Lists.Bare
import ObjectLang.Proofs.Lists.Checked
import ObjectLang.Proofs.Lists.Heap
import ObjectLang.Proofs.Lists.Ready
import ObjectLang.Proofs.Lists.Refinement
import ObjectLang.Proofs.Printing.Printer
import ObjectLang.Proofs.Printing.Reading
import ObjectLang.Proofs.Scoping.Run
import ObjectLang.Proofs.Scoping.TypeName
import ObjectLang.Proofs.Calls.Accepted
import ObjectLang.Proofs.Calls.Arity
import ObjectLang.Proofs.Calls.Identity
import ObjectLang.Proofs.Calls.Node
import ObjectLang.Proofs.Calls.Private
import ObjectLang.Proofs.Calls.Resolved
import ObjectLang.Proofs.Grammar.Frame
import ObjectLang.Proofs.Printing.ReadStatement
import ObjectLang.Proofs.Printing.Reread
import ObjectLang.Proofs.Printing.RoundTrip
import ObjectLang.Proofs.Scoping.Segments
import ObjectLang.Proofs.Typing.Annotate
import ObjectLang.Proofs.Typing.Ends
import ObjectLang.Proofs.Shapes.Acyclic
import ObjectLang.Proofs.Program.Builtin
import ObjectLang.Proofs.Program.Layout
import ObjectLang.Proofs.Program.Operation
import ObjectLang.Proofs.Calls.Constructor
import ObjectLang.Proofs.Machine.Construct
import ObjectLang.Proofs.Program.Interner
import ObjectLang.Proofs.Shapes.Objects
import ObjectLang.Proofs.Imports.Line
import ObjectLang.Proofs.Imports.Order
import ObjectLang.Proofs.Token.Lexed
import ObjectLang.Proofs.Token.Bracketed
import ObjectLang.Proofs.Typing.Phases
import ObjectLang.Proofs.Grammar.Block
import ObjectLang.Proofs.Grammar.Recovery
import ObjectLang.Proofs.Machine.Integers
import ObjectLang.Proofs.Machine.Copy
import ObjectLang.Proofs.Printing.Spelling
import ObjectLang.Proofs.Typing.Lookup
import ObjectLang.Proofs.Calls.Attached
import ObjectLang.Proofs.Calls.Chain
import ObjectLang.Proofs.Grammar.Refused
import ObjectLang.Proofs.Typing.Attributed
import ObjectLang.Proofs.Program.Unification
import ObjectLang.Proofs.Program.Inheritance
import ObjectLang.Proofs.Token.Spaced
import ObjectLang.Proofs.Text.Quoted
import ObjectLang.Proofs.Syntax.Splice
import ObjectLang.Proofs.Program.Listing
import ObjectLang.Proofs.Scoping.Frames
import ObjectLang.Proofs.Scoping.Marks
import ObjectLang.Proofs.Program.Rooted
import ObjectLang.Proofs.Typing.Orderly
import ObjectLang.Proofs.Typing.Fixed
import ObjectLang.Proofs.Typing.Trusted
import ObjectLang.Proofs.Typing.Task
import ObjectLang.Proofs.Calls.Signature
import ObjectLang.Proofs.Grammar.Line
