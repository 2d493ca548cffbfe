import LetScript.Json.Reading
import LetScript.Main
import LetScript.Session
import LetScript.Tree.Nodes
import LetScript.Proofs.Grammar.Branches
import LetScript.Proofs.Grammar.Rules
import LetScript.Proofs.Grammar.Strata
import LetScript.Proofs.Grammar.Soundness
import LetScript.Proofs.Grammar.Completeness
import LetScript.Proofs.Token.Layout
import LetScript.Proofs.Tree.Lexemes
import LetScript.Proofs.Tree.Signs
import LetScript.Proofs.Tree.RoundTrip
import LetScript.Proofs.Grammar.Recognition
import LetScript.Proofs.Evaluation.Calls
import LetScript.Proofs.Evaluation.Frame
import LetScript.Proofs.Evaluation.Rules
import LetScript.Proofs.Evaluation.WellFormed
import LetScript.Proofs.Evaluation.Termination
import LetScript.Proofs.Evaluation.Sessions
import LetScript.Proofs.Evaluation.Moments
import LetScript.Proofs.Evaluation.Depth
import LetScript.Proofs.Evaluation.Coupling
import LetScript.Proofs.Evaluation.Limits
import LetScript.Proofs.Evaluation.Matching
import LetScript.Proofs.Evaluation.Clients
import LetScript.Proofs.Evaluation.Hosts
import LetScript.Proofs.Token.Lines
import LetScript.Proofs.Grammar.Sequence
import LetScript.Proofs.Evaluation.Lines
import LetScript.Proofs.Token.Shapes
import LetScript.Proofs.Grammar.Yields
import LetScript.Proofs.Tree.Image
import LetScript.Proofs.Json.Scalars
import LetScript.Proofs.Json.Symbols
import LetScript.Proofs.Json.RoundTrip
import LetScript.Proofs.Tree.Decoding
import LetScript.Proofs.Evaluation.Contents
import LetScript.Proofs.Evaluation.Chronicles
import LetScript.Proofs.Evaluation.Histories
import LetScript.Proofs.Evaluation.Errors
import LetScript.Proofs.Evaluation.Graph
import LetScript.Proofs.Grammar.Recovery
import LetScript.Proofs.Token.Covering
import LetScript.Proofs.Console.Transcripts
import LetScript.Proofs.Evaluation.Spelling
import LetScript.Proofs.Evaluation.Printing
import LetScript.Proofs.Token.Spacing
import LetScript.Proofs.Grammar.Accounts
import LetScript.Proofs.Grammar.Reports
import LetScript.Proofs.Evaluation.Repetition
import LetScript.Proofs.Evaluation.Globals
import LetScript.Proofs.Evaluation.Returns
import LetScript.Proofs.Evaluation.Applications
import LetScript.Proofs.Token.Positions
import LetScript.Proofs.Evaluation.Chains
import LetScript.Proofs.Evaluation.Arithmetic
import LetScript.Proofs.Evaluation.Respelling
import LetScript.Proofs.Evaluation.Rereading
import LetScript.Proofs.Evaluation.Numerals
import LetScript.Proofs.Console.Settings
import LetScript.Proofs.Token.Demand
