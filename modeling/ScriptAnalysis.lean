import ScriptAnalysis.Main
import ScriptAnalysis.Program.Edit
import ScriptAnalysis.Proofs.Grammar
import ScriptAnalysis.Proofs.Acceptance
import ScriptAnalysis.Proofs.Outcome.Expression
import ScriptAnalysis.Proofs.Outcome.Statement
import ScriptAnalysis.Proofs.Outcome.Program
import ScriptAnalysis.Proofs.Lexing
import ScriptAnalysis.Proofs.Recognition
import ScriptAnalysis.Proofs.FirstError
import ScriptAnalysis.Proofs.Continuation
import ScriptAnalysis.Proofs.StaticSemantics
import ScriptAnalysis.Proofs.Ordering
import ScriptAnalysis.Proofs.Silence
import ScriptAnalysis.Proofs.Typing
import ScriptAnalysis.Proofs.Scopes
import ScriptAnalysis.Proofs.Bodies
import ScriptAnalysis.Proofs.Layout
import ScriptAnalysis.Proofs.Written
import ScriptAnalysis.Proofs.Validity
import ScriptAnalysis.Proofs.Lexemes
import ScriptAnalysis.Proofs.Segments
import ScriptAnalysis.Proofs.Children
import ScriptAnalysis.Proofs.Numbers
import ScriptAnalysis.Proofs.TokenRanges
import ScriptAnalysis.Proofs.Metadata
import ScriptAnalysis.Proofs.WalkSteps
import ScriptAnalysis.Proofs.Events
import ScriptAnalysis.Proofs.Lockstep
import ScriptAnalysis.Proofs.Propagation
import ScriptAnalysis.Proofs.Walks
import ScriptAnalysis.Proofs.ScopeContents
import ScriptAnalysis.Proofs.Shape
import ScriptAnalysis.Proofs.Placement
import ScriptAnalysis.Proofs.Spelling
import ScriptAnalysis.Proofs.NodeTexts
import ScriptAnalysis.Proofs.LogEntries
import ScriptAnalysis.Proofs.OptionEffects
import ScriptAnalysis.Proofs.Joining
import ScriptAnalysis.Proofs.Weakening
import ScriptAnalysis.Proofs.Sessions
import ScriptAnalysis.Proofs.Printed
import ScriptAnalysis.Proofs.Answers
import ScriptAnalysis.Proofs.Nesting
import ScriptAnalysis.Proofs.Insertion
import ScriptAnalysis.Proofs.Stability
import ScriptAnalysis.Proofs.OneKind
import ScriptAnalysis.Proofs.Pieces
import ScriptAnalysis.Proofs.Pairing
import ScriptAnalysis.Proofs.Parallel
import ScriptAnalysis.Proofs.Twins
import ScriptAnalysis.Proofs.Findings
import ScriptAnalysis.Proofs.Registration
import ScriptAnalysis.Proofs.LogKeys
import ScriptAnalysis.Proofs.IndexedLog
import ScriptAnalysis.Proofs.LastWrites
import ScriptAnalysis.Proofs.Rounds
import ScriptAnalysis.Proofs.Reordering
import ScriptAnalysis.Proofs.Agreement
import ScriptAnalysis.Proofs.Respacing
import ScriptAnalysis.Proofs.Beginnings
import ScriptAnalysis.Proofs.Beside
import ScriptAnalysis.Proofs.Modularity
import ScriptAnalysis.Proofs.ScopeOperations
import ScriptAnalysis.Proofs.ScopeTrees
import ScriptAnalysis.Proofs.Warnings
import ScriptAnalysis.Proofs.Reads
import ScriptAnalysis.Proofs.SymbolWatch
import ScriptAnalysis.Proofs.Unused
import ScriptAnalysis.Proofs.Rereading
import ScriptAnalysis.Proofs.ControlFlow
import ScriptAnalysis.Proofs.Visibility
import ScriptAnalysis.Proofs.Ordinals
import ScriptAnalysis.Proofs.TypedNodes
import ScriptAnalysis.Proofs.TypeListing
import ScriptAnalysis.Proofs.Regrouping
import ScriptAnalysis.Proofs.OutlineLines
import ScriptAnalysis.Proofs.SnippetMarks
import ScriptAnalysis.Proofs.MarkBounds
import ScriptAnalysis.Proofs.Decoding
import ScriptAnalysis.Proofs.Columns
import ScriptAnalysis.Proofs.LineByLine
import ScriptAnalysis.Proofs.Runs
import ScriptAnalysis.Proofs.CommandLines
import ScriptAnalysis.Proofs.FileArguments
import ScriptAnalysis.Proofs.FlagOrder
import ScriptAnalysis.Proofs.Outlines
import ScriptAnalysis.Proofs.JsonReading
import ScriptAnalysis.Proofs.JsonRoundTrip
import ScriptAnalysis.Proofs.Cursor
import ScriptAnalysis.Proofs.CursorSteps
import ScriptAnalysis.Proofs.CursorReading
import ScriptAnalysis.Proofs.CursorSafety
