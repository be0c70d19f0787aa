import StackScript.CommandLine.Folder
import StackScript.Main
import StackScript.Proofs.Except
import StackScript.Proofs.Parts
import StackScript.Proofs.Word
import StackScript.Session
import StackScript.Tree.Outline
import StackScript.Proofs.Evaluation
import StackScript.Proofs.Links
import StackScript.Proofs.Siblings
import StackScript.Proofs.Lowering
import StackScript.Proofs.Derivation
import StackScript.Proofs.Unambiguous
import StackScript.Proofs.Parsing
import StackScript.Proofs.Lowered
import StackScript.Proofs.Scanning
import StackScript.Proofs.Scripts
import StackScript.Proofs.Printable
import StackScript.Proofs.Digits
import StackScript.Proofs.Matching
import StackScript.Proofs.Safety
import StackScript.Proofs.Printing
import StackScript.Proofs.RoundTrip
import StackScript.Proofs.Resolution
import StackScript.Proofs.Reuse
import StackScript.Proofs.Agreement
import StackScript.Proofs.Agreement.Reading
import StackScript.Proofs.Tiling
import StackScript.Proofs.Extent
import StackScript.Proofs.Agreement.Lowering
import StackScript.Proofs.Layout
import StackScript.Proofs.Seam
import StackScript.Proofs.Concatenation
import StackScript.Proofs.Languages
import StackScript.Proofs.LongestMatch
import StackScript.Proofs.Viability
import StackScript.Proofs.Subexpressions
import StackScript.Proofs.Slices
import StackScript.Proofs.Rejection
import StackScript.Proofs.StackHeight
import StackScript.Proofs.Assignment
import StackScript.Proofs.Composition
import StackScript.Proofs.Nodes
import StackScript.Proofs.Locations
import StackScript.Proofs.Shapes
import StackScript.Proofs.CodeText
import StackScript.Proofs.Decimals
import StackScript.Proofs.Depth
import StackScript.Proofs.Checked
import StackScript.Proofs.Decompiling
import StackScript.Proofs.Emission
import StackScript.Proofs.Spacing
import StackScript.Proofs.Navigation
import StackScript.Proofs.Powers
import StackScript.Proofs.Quoting
import StackScript.Proofs.PreOrder
import StackScript.Proofs.Outlines
import StackScript.Proofs.Branches
import StackScript.Proofs.Arrangement
import StackScript.Proofs.Nesting
import StackScript.Proofs.Saturation
