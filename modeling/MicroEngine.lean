import MicroEngine.Main
import MicroEngine.Microword.Builder
import MicroEngine.Proofs.Arithmetic
import MicroEngine.Proofs.BooleanBox.Description
import MicroEngine.Proofs.BranchCondition
import MicroEngine.Proofs.Configuration.Images
import MicroEngine.Proofs.Debugger.View
import MicroEngine.Proofs.Debugger.Windows
import MicroEngine.Proofs.Engine.BankConfinement
import MicroEngine.Proofs.Engine.FirstCycle
import MicroEngine.Proofs.Engine.Safety
import MicroEngine.Proofs.Engine.SecondPass
import MicroEngine.Proofs.Engine.Stretch
import MicroEngine.Proofs.Engine.UnknownCode
import MicroEngine.Proofs.Engine.UnusedPart
import MicroEngine.Proofs.Image.RoundTrip
import MicroEngine.Proofs.Image.Sentence
import MicroEngine.Proofs.Machine.Build
import MicroEngine.Proofs.Machine.IdleRun
import MicroEngine.Proofs.Machine.Invariant
import MicroEngine.Proofs.Machine.Lockstep
import MicroEngine.Proofs.Machine.Restart
import MicroEngine.Proofs.Machine.Resume
import MicroEngine.Proofs.Microword.Build
import MicroEngine.Proofs.Microword.ListingNumbers
