import Rendezvous.Main
import Rendezvous.Simulation.Session
import Rendezvous.Proofs.Lifecycle
import Rendezvous.Proofs.Eviction
import Rendezvous.Proofs.Backings
import Rendezvous.Proofs.Abandonment
import Rendezvous.Proofs.Keys
import Rendezvous.Proofs.Serving
import Rendezvous.Proofs.Disturbed
import Rendezvous.Proofs.Changes
import Rendezvous.Proofs.Sweeping
import Rendezvous.Proofs.Effects
import Rendezvous.Proofs.Ledger
import Rendezvous.Proofs.Accounts
import Rendezvous.Proofs.Scheduling
import Rendezvous.Proofs.Timestamps
import Rendezvous.Proofs.Records
import Rendezvous.Proofs.Requests
import Rendezvous.Proofs.Secrecy
import Rendezvous.Proofs.Amendments
import Rendezvous.Proofs.Identity
import Rendezvous.Proofs.Refreshing
import Rendezvous.Proofs.Fates
import Rendezvous.Proofs.Idempotence
import Rendezvous.Proofs.Registration
import Rendezvous.Proofs.Failures
import Rendezvous.Proofs.Readback
import Rendezvous.Proofs.Complaints
import Rendezvous.Proofs.Conflicts
import Rendezvous.Proofs.Elapsed
import Rendezvous.Proofs.Configuring
import Rendezvous.Proofs.Shapes
import Rendezvous.Proofs.Collation
import Rendezvous.Proofs.Seeds
