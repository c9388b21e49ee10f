import Offside.Check
import Offside.Live
import Offside.Main
import Offside.Proofs.Block.Closing
import Offside.Proofs.Block.Layout
import Offside.Proofs.Compile.Annotation
import Offside.Proofs.Compile.AnnotationPattern
import Offside.Proofs.Compile.Lines
import Offside.Proofs.Compile.Literal
import Offside.Proofs.Compile.NamedImport
import Offside.Proofs.Compile.Parameter
import Offside.Proofs.Compile.Require
import Offside.Proofs.Compile.RequirePattern
import Offside.Proofs.Compile.Template
import Offside.Proofs.Delimiter.Compose
import Offside.Proofs.Delimiter.Depth
import Offside.Proofs.Delimiter.Grammar
import Offside.Proofs.Delimiter.Literal
import Offside.Proofs.Delimiter.Nesting
import Offside.Proofs.Delimiter.Origin
import Offside.Proofs.Editor.Buffer
import Offside.Proofs.Editor.Bytes
import Offside.Proofs.Editor.WellFormed
import Offside.Proofs.Fragment.RoundTrip
import Offside.Proofs.Header.Grammar
import Offside.Proofs.Header.Literal
import Offside.Proofs.Header.Nesting
import Offside.Proofs.Header.Pattern
import Offside.Proofs.Live.FinalEdit
import Offside.Proofs.Live.LatestWins
import Offside.Proofs.Run.Output
import Offside.Proofs.Run.Registration
import Offside.Proofs.Run.Table
import Offside.Proofs.Run.Waiting
import Offside.Proofs.Screen.Cursor
import Offside.Proofs.Scrub.Indentation
import Offside.Proofs.Scrub.Literal
import Offside.Proofs.Scrub.Meaning
import Offside.Proofs.Scrub.Rescan
import Offside.Proofs.Scrub.TrailingComment
import Offside.Proofs.Statement.Grammar
import Offside.Proofs.Statement.Import
import Offside.Proofs.Statement.ImportPattern
import Offside.Proofs.Statement.Literal
import Offside.Proofs.Statement.Names
import Offside.Proofs.Statement.Nesting
import Offside.Proofs.Statement.OperatorPlaces
import Offside.Proofs.Statement.Settled
import Offside.Proofs.Text.Differ
import Offside.Proofs.Token.Tiling
import Offside.Proofs.Transpile.Balance
import Offside.Proofs.Transpile.Declaration
import Offside.Proofs.Transpile.Import
import Offside.Proofs.Transpile.Indentation
import Offside.Proofs.Transpile.LineEnding
import Offside.Proofs.Transpile.Literal
import Offside.Proofs.Transpile.Origin
import Offside.Proofs.Walk.Lookahead
import Offside.Proofs.Walk.Strings
import Offside.Samples
import Offside.Screen
import Offside.StandIn
