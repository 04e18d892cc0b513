import StreamLang.Json.Read
import StreamLang.Proofs.Application.Staged
import StreamLang.Proofs.Checker.Patterns
import StreamLang.Proofs.Deadlock.Exact
import StreamLang.Proofs.Document.RoundTrip
import StreamLang.Proofs.Equality.Sets
import StreamLang.Proofs.Folding.Shadowed
import StreamLang.Proofs.Grammar.Annotation
import StreamLang.Proofs.Grammar.Decimal
import StreamLang.Proofs.Grammar.Postfix
import StreamLang.Proofs.Machine.Lines
import StreamLang.Proofs.Memo.Keys
import StreamLang.Proofs.Modules.Aliases
import StreamLang.Proofs.Purity.Greatest
import StreamLang.Proofs.Record.Shape
import StreamLang.Proofs.Refinement.Enforced
import StreamLang.Proofs.Refinement.Module
import StreamLang.Proofs.Stream.Range
import StreamLang.Proofs.Stream.Take
import StreamLang.Proofs.Stream.Terminates
import StreamLang.Proofs.Typing.Compatibility
import StreamLang.Proofs.Typing.Futures
import StreamLang.Proofs.Typing.Preservation
import StreamLang.Proofs.Unbounded.Warning
