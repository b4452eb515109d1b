import MapScript.Main
import MapScript.Proofs.Acceptance
import MapScript.Proofs.Brackets
import MapScript.Proofs.Budget
import MapScript.Proofs.Calling
import MapScript.Proofs.Closing
import MapScript.Proofs.Coloring
import MapScript.Proofs.Commenting
import MapScript.Proofs.Composition
import MapScript.Proofs.Diagnosing
import MapScript.Proofs.Dialect
import MapScript.Proofs.Erasure
import MapScript.Proofs.Failing
import MapScript.Proofs.GivingUp
import MapScript.Proofs.Inequality
import MapScript.Proofs.Layout.Programs
import MapScript.Proofs.LeftOpen.Programs
import MapScript.Proofs.LongestMatch
import MapScript.Proofs.Members
import MapScript.Proofs.Merging
import MapScript.Proofs.Nesting
import MapScript.Proofs.Positions
import MapScript.Proofs.Printing
import MapScript.Proofs.Progress
import MapScript.Proofs.Prologue
import MapScript.Proofs.Records
import MapScript.Proofs.Retelling
import MapScript.Proofs.Segments
import MapScript.Proofs.Shape
import MapScript.Proofs.Underlining
import MapScript.Proofs.Unseen
