import Interpolation.Policy.Reader
import Interpolation.References
import Interpolation.Main
import Interpolation.Proofs.Reading
import Interpolation.Proofs.Grammar
import Interpolation.Proofs.Calls
import Interpolation.Proofs.Lines
import Interpolation.Proofs.Report
import Interpolation.Proofs.Substitution
import Interpolation.Proofs.Listing
import Interpolation.Proofs.Leniency
import Interpolation.Proofs.Printing
import Interpolation.Proofs.Footprint
import Interpolation.Proofs.Limits
import Interpolation.Proofs.Ends
import Interpolation.Proofs.Cuts
import Interpolation.Proofs.Acceptance
import Interpolation.Proofs.Process
import Interpolation.Proofs.Effects
import Interpolation.Proofs.Verbosity
import Interpolation.Proofs.Histories
import Interpolation.Proofs.Passes
import Interpolation.Proofs.Extension
import Interpolation.Proofs.Overlays
import Interpolation.Proofs.References
import Interpolation.Proofs.Records
import Interpolation.Proofs.Escapes
import Interpolation.Proofs.Pieces
import Interpolation.Proofs.Arrangements
import Interpolation.Proofs.Concatenation
import Interpolation.Proofs.Shortcut
import Interpolation.Proofs.Terminators
import Interpolation.Proofs.Buffers
