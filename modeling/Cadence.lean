import Cadence.Main
import Cadence.Node.Encode
import Cadence.Proofs.Invariant
import Cadence.Proofs.Induction
import Cadence.Proofs.Run
import Cadence.Proofs.Numbers
import Cadence.Proofs.Standard
import Cadence.Proofs.TrackFile
import Cadence.Proofs.Operators
import Cadence.Proofs.Storage
import Cadence.Proofs.Builtins
import Cadence.Proofs.WellFormed
import Cadence.Proofs.Soundness
import Cadence.Proofs.Lens
import Cadence.Proofs.Codec
import Cadence.Proofs.ProgramFiles
import Cadence.Proofs.TrackRequests
import Cadence.Proofs.Shortest
import Cadence.Proofs.DoubleText
import Cadence.Proofs.TrackFormat
import Cadence.Proofs.Layer
import Cadence.Proofs.Frames
import Cadence.Proofs.FunctionTable
import Cadence.Proofs.Coupling
import Cadence.Proofs.Lockstep
import Cadence.Proofs.PairedRuns
import Cadence.Proofs.Termination
import Cadence.Proofs.Expressions
import Cadence.Proofs.WrappedArithmetic
import Cadence.Proofs.PitchArithmetic
import Cadence.Proofs.PitchNames
import Cadence.Proofs.Repetition
import Cadence.Proofs.LoopMap
import Cadence.Proofs.IndexAssignment
import Cadence.Proofs.Independence
import Cadence.Proofs.Simulation
import Cadence.Proofs.SimulatedRuns
import Cadence.Proofs.CallDepth
import Cadence.Proofs.WhileForm
import Cadence.Proofs.WriteSet
import Cadence.Proofs.DeclaredNames
import Cadence.Proofs.ReferenceChains
