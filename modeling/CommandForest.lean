import CommandForest.Main
import CommandForest.Messages.Json
import CommandForest.Proofs.OnePass
import CommandForest.Proofs.Subtree
import CommandForest.Proofs.Action
import CommandForest.Proofs.Veil
import CommandForest.Proofs.Layout
import CommandForest.Proofs.Representable
import CommandForest.Proofs.RoundTrip
import CommandForest.Proofs.Change
import CommandForest.Proofs.Numbering
import CommandForest.Proofs.Listing
import CommandForest.Proofs.Kinds
import CommandForest.Proofs.Signature
import CommandForest.Proofs.Cells
import CommandForest.Proofs.Forgetting
import CommandForest.Proofs.Afresh
import CommandForest.Proofs.Sessions
import CommandForest.Proofs.Entries
import CommandForest.Proofs.LowerCase
import CommandForest.Proofs.Registration
import CommandForest.Proofs.ChildOrder
import CommandForest.Proofs.Descent
import CommandForest.Proofs.Scope
import CommandForest.Proofs.Folding
import CommandForest.Proofs.Candidates
import CommandForest.Proofs.WordsLeft
import CommandForest.Proofs.Growth
import CommandForest.Proofs.Loading
import CommandForest.Proofs.Concatenation
import CommandForest.Proofs.HelpOrder
import CommandForest.Proofs.Positions
import CommandForest.Proofs.RestOfLine
import CommandForest.Proofs.Construction
import CommandForest.Proofs.Furnishing
import CommandForest.Proofs.IgnoredLines
import CommandForest.Proofs.JsonText
import CommandForest.Proofs.OutlineJson
import CommandForest.Proofs.Traversal
import CommandForest.Proofs.ChoiceWords
