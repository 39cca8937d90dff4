import FleetSync.Config
import FleetSync.Control.Change
import FleetSync.Control.Consumer
import FleetSync.Control.Intake
import FleetSync.Control.Sweep
import FleetSync.Event.Channel
import FleetSync.Program.Fault
import FleetSync.Store.Connection
import FleetSync.Proofs.Store.Record
import FleetSync.Proofs.Store.Rereading
import FleetSync.Proofs.Store.StoredResource
import FleetSync.Proofs.Interleaving.System
import FleetSync.Proofs.Store.Contents
import FleetSync.Proofs.Interleaving.Edit
import FleetSync.Proofs.Interleaving.Effect
import FleetSync.Proofs.Interleaving.Follows
import FleetSync.Proofs.Interleaving.Law
import FleetSync.Proofs.Interleaving.Conduct
import FleetSync.Proofs.Interleaving.Handling
import FleetSync.Proofs.Interleaving.Run
import FleetSync.Proofs.Interleaving.Sound
import FleetSync.Proofs.Interleaving.Versions
import FleetSync.Proofs.Interleaving.Ownership
import FleetSync.Proofs.Interleaving.Tombstones
import FleetSync.Proofs.Interleaving.Forgetting
import FleetSync.Proofs.Interleaving.Overwriting
import FleetSync.Proofs.Isolation.Blocking
import FleetSync.Proofs.Interleaving.Confirmations
import FleetSync.Proofs.Store.Card
import FleetSync.Proofs.Store.DesiredState
import FleetSync.Proofs.Store.Identity
import FleetSync.Proofs.Store.Selection
import FleetSync.Proofs.Sequence.Tidy
import FleetSync.Proofs.Interleaving.Creation
import FleetSync.Proofs.Sequence.Ensures
import FleetSync.Proofs.Sequence.Run
import FleetSync.Proofs.Sequence.Unsent
import FleetSync.Proofs.Mapping.Ledger
import FleetSync.Proofs.Mapping.Mapped
import FleetSync.Proofs.Sequence.Calls
import FleetSync.Proofs.Sequence.Dispatch
import FleetSync.Proofs.Sequence.Detachment
import FleetSync.Proofs.Sequence.Changes
import FleetSync.Proofs.Sequence.Operations
import FleetSync.Proofs.Sequence.Replays
import FleetSync.Proofs.Mapping.Soundness
import FleetSync.Proofs.Mapping.Attachment
import FleetSync.Proofs.Mapping.Resyncing
import FleetSync.Proofs.Mapping.Reattachment
import FleetSync.Proofs.Mapping.Membership
import FleetSync.Proofs.Sequence.Addresses
import FleetSync.Proofs.Store.FieldName
import FleetSync.Proofs.Store.ReadValue
import FleetSync.Proofs.Store.Keeping
import FleetSync.Proofs.Store.Saying
import FleetSync.Proofs.Isolation.Refusals
import FleetSync.Proofs.Events.Lifecycle
import FleetSync.Proofs.Sequence.Upholds
import FleetSync.Proofs.Sequence.Truth
import FleetSync.Proofs.Sequence.HonestCalls
import FleetSync.Proofs.Sequence.Honesty
import FleetSync.Proofs.Sequence.HonestSweeps
import FleetSync.Proofs.Sequence.Messages
import FleetSync.Proofs.Events.Mirror
import FleetSync.Proofs.Mapping.Silence
import FleetSync.Proofs.Bus.Consumption
import FleetSync.Proofs.Bus.Interchange
import FleetSync.Proofs.Sequence.Decisions
import FleetSync.Proofs.Sequence.Intake
import FleetSync.Proofs.Store.Timestamps
import FleetSync.Proofs.Intake.Faultless
import FleetSync.Proofs.Intake.Redelivery
import FleetSync.Proofs.Intake.Mixture
import FleetSync.Proofs.Sequence.Risks
import FleetSync.Proofs.Sequence.Permanent
import FleetSync.Proofs.Mapping.Filing
import FleetSync.Proofs.Mapping.Interruptions
import FleetSync.Proofs.Mapping.Healing
import FleetSync.Proofs.Sequence.DetachSummary
import FleetSync.Proofs.Sequence.Weathering
import FleetSync.Proofs.Sequence.Sweeping
import FleetSync.Proofs.Sequence.Orphans
import FleetSync.Proofs.Interleaving.Marking
import FleetSync.Proofs.Interleaving.Attempts
import FleetSync.Proofs.Interleaving.Tasks
import FleetSync.Proofs.Interleaving.Length
import FleetSync.Proofs.Interleaving.Overtaking
import FleetSync.Proofs.Interleaving.Contention
import FleetSync.Proofs.Store.Commutation
import FleetSync.Proofs.Wire.RoundTrip
import FleetSync.Proofs.Sequence.Returned
import FleetSync.Proofs.Mapping.ScopeRows
import FleetSync.Proofs.Sequence.Cutoffs
