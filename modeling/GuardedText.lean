import GuardedText.Main
import GuardedText.Proofs.Command.Course
import GuardedText.Proofs.Command.Rewrite
import GuardedText.Proofs.Cut.Words
import GuardedText.Proofs.EnvFile
import GuardedText.Proofs.Evaluate
import GuardedText.Proofs.Guard.Again
import GuardedText.Proofs.Guard.Chain
import GuardedText.Proofs.Guard.Quote
import GuardedText.Proofs.Guard.Sign
import GuardedText.Proofs.Json.RoundTrip
import GuardedText.Proofs.Json.Stringify
import GuardedText.Proofs.Outcome
import GuardedText.Proofs.Twice
import GuardedText.Proofs.Waiting
import GuardedText.Proofs.Block.Stacks
import GuardedText.Proofs.Block.Widen
import GuardedText.Proofs.Comment.Directive
import GuardedText.Proofs.Comment.Reline
import GuardedText.Proofs.Comment.Steady
import GuardedText.Proofs.Comment.Terminators
import GuardedText.Proofs.Private.Agree
import GuardedText.Proofs.Private.Builtin
import GuardedText.Proofs.Private.Evaluate
import GuardedText.Proofs.Private.Guard
import GuardedText.Proofs.Scope.Session
import GuardedText.Proofs.Eval.Visit
import GuardedText.Proofs.Property.Remove
import GuardedText.Proofs.Property.Within
import GuardedText.Proofs.Property.Write
import GuardedText.Proofs.Value.Equality
import GuardedText.Proofs.Value.Arithmetic
import GuardedText.Proofs.Method.Search
import GuardedText.Proofs.Method.Split
import GuardedText.Proofs.Number.RoundTrip
