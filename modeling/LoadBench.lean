import LoadBench.Main
import LoadBench.Proofs.Replay
import LoadBench.Proofs.Position
import LoadBench.Proofs.Samples
import LoadBench.Proofs.Validity
import LoadBench.Proofs.Undisturbed
import LoadBench.Proofs.Route
import LoadBench.Proofs.Itinerary
import LoadBench.Proofs.Keys
import LoadBench.Proofs.Spelling
import LoadBench.Proofs.Amplifier
import LoadBench.Proofs.Grammar
import LoadBench.Proofs.Calls
import LoadBench.Proofs.Waits
import LoadBench.Proofs.Footprint
import LoadBench.Proofs.Accounts
import LoadBench.Proofs.Startup
import LoadBench.Proofs.Underflow
import LoadBench.Proofs.Arrival
import LoadBench.Proofs.Punctuality
import LoadBench.Proofs.MailboxHistory
import LoadBench.Proofs.TwoPoint
import LoadBench.Proofs.KeyPlaces
import LoadBench.Proofs.Tiling
import LoadBench.Proofs.Offsets
import LoadBench.Proofs.MeasuredMove
import LoadBench.Proofs.Opening
import LoadBench.Proofs.Turns
import LoadBench.Proofs.Settings
import LoadBench.Proofs.Overflow
import LoadBench.Proofs.OffScale
import LoadBench.Proofs.Quotes
import LoadBench.Proofs.Averages
import LoadBench.Proofs.Documents
