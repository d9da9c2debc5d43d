import CommandGraph.Compile.Template
import CommandGraph.Main
import CommandGraph.Proofs.Document.Preservation
import CommandGraph.Storage.Tree
import CommandGraph.Proofs.Compile.Visits
import CommandGraph.Proofs.Compile.Nesting
import CommandGraph.Proofs.Compile.Sharing
import CommandGraph.Proofs.Compile.DataFlow
import CommandGraph.Proofs.Dump.Rule
import CommandGraph.Proofs.Dump.Fingerprint
import CommandGraph.Proofs.Dump.Comparison
import CommandGraph.Proofs.Dump.Classification
import CommandGraph.Proofs.Dump.Line
import CommandGraph.Proofs.Compile.Wording
import CommandGraph.Proofs.Dump.Readback
import CommandGraph.Proofs.Dump.Word
import CommandGraph.Proofs.Dump.Extraction
import CommandGraph.Proofs.Document.Renumbering
import CommandGraph.Proofs.Compile.Correspondence
import CommandGraph.Proofs.Compile.DeadNodes
import CommandGraph.Proofs.Dump.Difference
import CommandGraph.Proofs.Dump.Composition
import CommandGraph.Proofs.Document.Loading
import CommandGraph.Proofs.Compile.Defaults
import CommandGraph.Proofs.Dump.Cut
import CommandGraph.Proofs.Dump.Surplus
import CommandGraph.Proofs.Graph.Connection
