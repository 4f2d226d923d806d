import RollingCapture.Main
import RollingCapture.Proofs.CaptureFile.RoundTrip
import RollingCapture.Proofs.CaptureFile.Truncation
import RollingCapture.Proofs.Reproduction
import RollingCapture.Proofs.Rotation.Delivery
import RollingCapture.Proofs.Rotation.Retention
import RollingCapture.Proofs.Rotation.WindowEnd
import RollingCapture.Proofs.FilePattern.Order
import RollingCapture.Proofs.Run.Pulling
import RollingCapture.Proofs.Run.Refusal
import RollingCapture.Proofs.CaptureFile.Frames
import RollingCapture.Proofs.Replay.Concatenation
import RollingCapture.Proofs.Replay.SnapshotLength
import RollingCapture.Proofs.CaptureFile.Transparency
import RollingCapture.Proofs.CaptureFile.Iteration
import RollingCapture.Proofs.Rotation.Commitment
import RollingCapture.Proofs.CaptureFile.Acceptance
import RollingCapture.Proofs.CaptureFile.Accounting
import RollingCapture.Proofs.Capture.Client
import RollingCapture.Proofs.FilePattern.Fields
import RollingCapture.Proofs.Text.Blank
import RollingCapture.Proofs.Text.Size
import RollingCapture.Proofs.Text.Program
import RollingCapture.Proofs.CaptureFile.Encodings
import RollingCapture.Proofs.Rotation.Surroundings
import RollingCapture.Proofs.Replay.Encodings
