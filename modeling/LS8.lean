import LS8.Session
import LS8.Debugger.View
import LS8.Main
import LS8.Proofs.Faults
import LS8.Proofs.Atomicity
import LS8.Proofs.Stack
import LS8.Proofs.Printing
import LS8.Proofs.History
import LS8.Proofs.Ticks
import LS8.Proofs.Words
import LS8.Proofs.Reading
import LS8.Proofs.Restoring
import LS8.Proofs.Files
import LS8.Proofs.Launch
import LS8.Proofs.Tracing
import LS8.Proofs.Verdicts
import LS8.Proofs.Command
import LS8.Proofs.Sessions
import LS8.Proofs.Transactions
import LS8.Proofs.Grammar
import LS8.Proofs.Assembly
import LS8.Proofs.Joining
import LS8.Proofs.Resuming
import LS8.Proofs.StraightLine
import LS8.Proofs.Locality
import LS8.Proofs.Refusals
import LS8.Proofs.Frame
import LS8.Proofs.Debugging
import LS8.Proofs.Listing
import LS8.Proofs.Stepping
import LS8.Proofs.Stops
import LS8.Proofs.Attribution
import LS8.Proofs.Operands
import LS8.Proofs.Termination
import LS8.Proofs.MemoryMap
import LS8.Proofs.Layout
import LS8.Proofs.ProgramPanel
import LS8.Proofs.MemoryPanel
