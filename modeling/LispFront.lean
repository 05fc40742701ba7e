import LispFront.Analysis.Analyzer
import LispFront.Analysis.Basic
import LispFront.Analysis.Binder
import LispFront.Analysis.Branch
import LispFront.Analysis.Definition
import LispFront.Analysis.Exception
import LispFront.Analysis.Fault
import LispFront.Analysis.Function
import LispFront.Analysis.Interop
import LispFront.Analysis.Sequence
import LispFront.Directory
import LispFront.Form.Basic
import LispFront.Form.Collection
import LispFront.Form.Hash
import LispFront.Form.Metadata
import LispFront.Form.Order
import LispFront.Form.Print
import LispFront.NameSupply
import LispFront.Proofs.Analysis.Arity
import LispFront.Proofs.Analysis.Binders
import LispFront.Proofs.Analysis.BindingPairs
import LispFront.Proofs.Analysis.Calls
import LispFront.Proofs.Analysis.Constructs
import LispFront.Proofs.Analysis.Counter
import LispFront.Proofs.Analysis.DefFree
import LispFront.Proofs.Analysis.Depth
import LispFront.Proofs.Analysis.Effect.Analyzer
import LispFront.Proofs.Analysis.Effect.Binders
import LispFront.Proofs.Analysis.Effect.Constructs
import LispFront.Proofs.Analysis.Expansion
import LispFront.Proofs.Analysis.Grammar.Analyzer
import LispFront.Proofs.Analysis.Grammar.Binders
import LispFront.Proofs.Analysis.Grammar.Constructs
import LispFront.Proofs.Analysis.Growth
import LispFront.Proofs.Analysis.Height
import LispFront.Proofs.Analysis.InTurn
import LispFront.Proofs.Analysis.Leniency
import LispFront.Proofs.Analysis.LetSplit
import LispFront.Proofs.Analysis.LetfnOrder
import LispFront.Proofs.Analysis.Levels
import LispFront.Proofs.Analysis.Location.Analyzer
import LispFront.Proofs.Analysis.Location.Raises
import LispFront.Proofs.Analysis.LoopIds
import LispFront.Proofs.Analysis.Numbering
import LispFront.Proofs.Analysis.Overloads
import LispFront.Proofs.Analysis.Parameters
import LispFront.Proofs.Analysis.Parts.Analyzer
import LispFront.Proofs.Analysis.Parts.Basic
import LispFront.Proofs.Analysis.Parts.Binders
import LispFront.Proofs.Analysis.Parts.Constructs
import LispFront.Proofs.Analysis.Provenance
import LispFront.Proofs.Analysis.Recur
import LispFront.Proofs.Analysis.Relational.Analyzer
import LispFront.Proofs.Analysis.Relational.Binders
import LispFront.Proofs.Analysis.Relational.Constructs
import LispFront.Proofs.Analysis.Relational.Correspondence
import LispFront.Proofs.Analysis.Relational.Equality
import LispFront.Proofs.Analysis.Relational.Limits
import LispFront.Proofs.Analysis.Relational.Refinement
import LispFront.Proofs.Analysis.Relational.Relates
import LispFront.Proofs.Analysis.Relational.Renumbered
import LispFront.Proofs.Analysis.Relational.Shape
import LispFront.Proofs.Analysis.Resolution
import LispFront.Proofs.Analysis.Scope
import LispFront.Proofs.Analysis.Source
import LispFront.Proofs.Analysis.TryClauses
import LispFront.Proofs.Analysis.WellFormed
import LispFront.Proofs.Analysis.Writes
import LispFront.Proofs.Analysis.Yields
import LispFront.Proofs.Directory.Growth
import LispFront.Proofs.Directory.History
import LispFront.Proofs.Directory.Identity
import LispFront.Proofs.Directory.Interning
import LispFront.Proofs.Directory.Lookup
import LispFront.Proofs.Directory.Source
import LispFront.Proofs.Directory.WellFormed
import LispFront.Proofs.Except
import LispFront.Proofs.Form.Bare
import LispFront.Proofs.Form.Congruence
import LispFront.Proofs.Form.Hash
import LispFront.Proofs.Form.History
import LispFront.Proofs.Form.Listing
import LispFront.Proofs.Form.Occurrences
import LispFront.Proofs.Form.Order
import LispFront.Proofs.Form.Source
import LispFront.Proofs.Form.Table
import LispFront.Proofs.Form.WellFormed
import LispFront.Proofs.NameSupply
import LispFront.Proofs.Reader.Compositional
import LispFront.Proofs.Reader.Decorated
import LispFront.Proofs.Reader.Descent.Forms
import LispFront.Proofs.Reader.Descent.Literals
import LispFront.Proofs.Reader.Descent.Nested
import LispFront.Proofs.Reader.Descent.Outcome
import LispFront.Proofs.Reader.Descent.Run
import LispFront.Proofs.Reader.Enclosed
import LispFront.Proofs.Reader.Invariant
import LispFront.Proofs.Reader.Located
import LispFront.Proofs.Reader.Number
import LispFront.Proofs.Reader.Position
import LispFront.Proofs.Reader.Prefixed
import LispFront.Proofs.Reader.Readable
import LispFront.Proofs.Reader.RoundTrip
import LispFront.Proofs.Reader.Running
import LispFront.Proofs.Reader.Shift
import LispFront.Proofs.Reader.Spans
import LispFront.Proofs.Reader.Token
import LispFront.Proofs.Reader.WellFormed
import LispFront.Proofs.Related
import LispFront.Proofs.Sorted
import LispFront.Proofs.Span
import LispFront.Proofs.Symbol
import LispFront.Proofs.Text.CharName
import LispFront.Proofs.Text.Integer
import LispFront.Proofs.Text.Quoted
import LispFront.Proofs.Tree.Definitions
import LispFront.Proofs.Tree.Effects
import LispFront.Proofs.Tree.Env
import LispFront.Proofs.Tree.Equality
import LispFront.Proofs.Tree.Grammar
import LispFront.Proofs.Tree.Path
import LispFront.Proofs.Tree.Provenance
import LispFront.Proofs.Tree.Renaming
import LispFront.Proofs.Tree.Scope
import LispFront.Proofs.Tree.Tallies
import LispFront.Proofs.Tree.Walk
import LispFront.Proofs.Tree.WellFormed
import LispFront.Reader.Descent
import LispFront.Reader.Fault
import LispFront.Reader.Frame
import LispFront.Reader.Machine
import LispFront.Reader.Position
import LispFront.Reader.Token
import LispFront.Sorted
import LispFront.Symbol
import LispFront.Text.Alphanumeric
import LispFront.Text.CharClass
import LispFront.Text.CharName
import LispFront.Text.Escape
import LispFront.Text.Integer
import LispFront.Tree.Basic
import LispFront.Tree.Children
import LispFront.Tree.Env
import LispFront.Tree.Equality
import LispFront.Tree.Render
