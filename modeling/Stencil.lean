import Stencil.Text.Blank
import Stencil.Text.Numeric
import Stencil.Text.Word
import Stencil.Numeral.Reading
import Stencil.Numeral.Shortest
import Stencil.Json.Printer
import Stencil.Json.Reader
import Stencil.Context
import Stencil.Interpolation
import Stencil.Condition.Evaluation
import Stencil.Capture
import Stencil.Layer.Slot
import Stencil.Layer.Stack
import Stencil.Loop.Expansion
import Stencil.Files.Loader
import Stencil.Route.Reader
import Stencil.Settings.Basic
import Stencil.Engine
import Stencil.Render.Page
import Stencil.Settings.Reader
import Stencil.Toml.Reader
import Stencil.Settings.Environment
import Stencil.CommandLine.Execution
import Stencil.CommandLine.Program
import Stencil.Main
import Stencil.Proofs.Inheritance.MostDerived
import Stencil.Proofs.Inheritance.Substitution
import Stencil.Proofs.Render.Inclusion
import Stencil.Proofs.Termination.Halting
import Stencil.Proofs.Condition.Spelling
import Stencil.Proofs.Inheritance.Cycle
import Stencil.Proofs.Scope.Lexical
import Stencil.Proofs.Render.PlainText
import Stencil.Proofs.CommandLine.Effects
import Stencil.Proofs.Settings.Precedence
import Stencil.Proofs.Json.Merge
import Stencil.Proofs.Expansion.Stability
import Stencil.Proofs.Inheritance.Refill
import Stencil.Proofs.Inheritance.Commutation
import Stencil.Proofs.Inheritance.Spacing
import Stencil.Proofs.Render.InclusionOrder
import Stencil.Proofs.Expansion.Counting
import Stencil.Proofs.Expansion.Conditions
import Stencil.Proofs.Condition.Comparison
import Stencil.Proofs.Layer.History
import Stencil.Proofs.Tag.Splitting
import Stencil.Proofs.Render.Unterminated
import Stencil.Proofs.Route.History
import Stencil.Proofs.Tag.Interpolation
import Stencil.Proofs.Project.ErrorPage
import Stencil.Proofs.Render.Undisturbed
