import SimpleLang.Main
import SimpleLang.Tree.Outline
import SimpleLang.Proofs.Check.Compression
import SimpleLang.Proofs.Check.Inference
import SimpleLang.Proofs.Check.Order
import SimpleLang.Proofs.Check.Refinement
import SimpleLang.Proofs.Check.Safety
import SimpleLang.Proofs.Check.Scoping
import SimpleLang.Proofs.Layout
import SimpleLang.Proofs.Parse.Misfit
import SimpleLang.Proofs.Token.Placing
import SimpleLang.Proofs.Concatenation
import SimpleLang.Proofs.Check.Annotation
import SimpleLang.Proofs.Check.Reports
import SimpleLang.Proofs.Diagnosis
import SimpleLang.Proofs.Types.Display
import SimpleLang.Proofs.Types.Step
import SimpleLang.Proofs.Types.Total
import SimpleLang.Proofs.Check.Moves
import SimpleLang.Proofs.Check.Log
import SimpleLang.Proofs.Check.Calls
import SimpleLang.Proofs.Token.Stretch
import SimpleLang.Proofs.Excerpts
import SimpleLang.Proofs.Parse.Inside
import SimpleLang.Proofs.Check.History
import SimpleLang.Proofs.Check.Accepted
import SimpleLang.Proofs.Token.Unrecognised
import SimpleLang.Proofs.Parse.Parts
import SimpleLang.Proofs.Spans
import SimpleLang.Proofs.Token.Printing
import SimpleLang.Proofs.Parse.Brackets
import SimpleLang.Proofs.Subexpressions
import SimpleLang.Proofs.Token.Lines
import SimpleLang.Proofs.Source.Lines
import SimpleLang.Proofs.Diagnostic.Caret
import SimpleLang.Proofs.Diagnostic.Rendering
import SimpleLang.Proofs.Types.Shortening
