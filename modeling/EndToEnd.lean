import EndToEnd.CipherSuite.Standard
import EndToEnd.Fleet
import EndToEnd.Report
import EndToEnd.Version
import EndToEnd.Proofs.Backup.System
import EndToEnd.Proofs.Card.Coherent
import EndToEnd.Proofs.Card.Links
import EndToEnd.Proofs.Card.Parse
import EndToEnd.Proofs.Card.Resolve
import EndToEnd.Proofs.Card.Verified
import EndToEnd.Proofs.Directory.History
import EndToEnd.Proofs.Directory.Mirror
import EndToEnd.Proofs.Envelope.Canonical
import EndToEnd.Proofs.Fleet.Lifecycle
import EndToEnd.Proofs.Fleet.Readable
import EndToEnd.Proofs.Signing
import EndToEnd.Proofs.Stream.RoundTrip
import EndToEnd.Proofs.Backup.Outcome
import EndToEnd.Proofs.Directory.Owned
import EndToEnd.Proofs.Device.Spares
import EndToEnd.Proofs.Fleet.Isolation
import EndToEnd.Proofs.Fleet.Delivery
import EndToEnd.Proofs.Card.RoundTrip
import EndToEnd.Proofs.Message.Dated
import EndToEnd.Proofs.Stream.Disjoint
import EndToEnd.Proofs.Fleet.Notified
import EndToEnd.Proofs.Stream.Arrival
import EndToEnd.Proofs.Message.Check
import EndToEnd.Proofs.Stream.Failure
import EndToEnd.Proofs.KeyStore.Map
import EndToEnd.Proofs.Card.Transfer
import EndToEnd.Proofs.Fleet.Found
import EndToEnd.Proofs.Backup.Clients
import EndToEnd.Proofs.Settings.Text
import EndToEnd.Proofs.Settings.Costs
import EndToEnd.Proofs.Settings.Cooldown
import EndToEnd.Proofs.Authenticated
import EndToEnd.Proofs.Key.Text
import EndToEnd.Proofs.Directory.Walk
import EndToEnd.Proofs.Error
import EndToEnd.Proofs.Backup.Interfered
