import Scaffold.Main
import Scaffold.Declaration.Printer
import Scaffold.Proofs.PieceGrammar
import Scaffold.Proofs.Placement
import Scaffold.Proofs.LosslessLexing
import Scaffold.Proofs.SegmentGrammar
import Scaffold.Proofs.SpanFaithfulness
import Scaffold.Proofs.DeclaredNames
import Scaffold.Proofs.WrittenTokens
import Scaffold.Proofs.MaximalMunch
import Scaffold.Proofs.RoundTrip
import Scaffold.Proofs.Lookahead
import Scaffold.Proofs.AppendedText
import Scaffold.Proofs.InsignificantText
import Scaffold.Proofs.LayoutText
import Scaffold.Proofs.UniqueDecoding
import Scaffold.Proofs.JavaMembers
import Scaffold.Proofs.JavaDecoding
import Scaffold.Proofs.WellFormedReading
import Scaffold.Proofs.FinalNewline
import Scaffold.Proofs.VisibleText
import Scaffold.Proofs.FolderWrites
import Scaffold.Proofs.CommandEffects
import Scaffold.Proofs.TokenListing
import Scaffold.Proofs.QuoteParity
import Scaffold.Proofs.Resynchronization
import Scaffold.Proofs.DeclarationWindows
import Scaffold.Proofs.EndOfTokens
import Scaffold.Proofs.AcceptedArguments
import Scaffold.Proofs.NestedLayout
import Scaffold.Proofs.CursorProgress
import Scaffold.Proofs.CursorScanning
import Scaffold.Proofs.CursorsInStep
