import LosslessSyntax.CommandLine.Directory
import LosslessSyntax.Journal
import LosslessSyntax.Lexeme.Cursor
import LosslessSyntax.Main
import LosslessSyntax.Proofs.Event.Handles
import LosslessSyntax.Proofs.Event.Unbroken
import LosslessSyntax.Proofs.Grammar.Progress
import LosslessSyntax.Proofs.Lexeme.Language
import LosslessSyntax.Proofs.Lexeme.Spacing
import LosslessSyntax.Proofs.Parse.Dump
import LosslessSyntax.Proofs.Parse.Editing
import LosslessSyntax.Proofs.Parse.Forest
import LosslessSyntax.Proofs.Parse.Locations
import LosslessSyntax.Proofs.Parse.Positions
import LosslessSyntax.Proofs.Parse.Precedence
import LosslessSyntax.Proofs.Parse.Printing
import LosslessSyntax.Proofs.Parse.RoundTrip
import LosslessSyntax.Proofs.Parse.SourceMap
import LosslessSyntax.Proofs.Parse.Trivia
import LosslessSyntax.Proofs.Parse.Values
import LosslessSyntax.Proofs.Tree.Retracing
