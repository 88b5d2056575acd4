import NinjaFile.Session.Step
import NinjaFile.Proofs.Reachable
import NinjaFile.Proofs.Layout.Documents
import NinjaFile.Proofs.Manifest.Json
import NinjaFile.Proofs.Manifest.Cbor
import NinjaFile.Proofs.Manifest.Canonical
import NinjaFile.Proofs.Session.Short
import NinjaFile.Proofs.Session.Saves
import NinjaFile.Proofs.Session.Changed
import NinjaFile.Proofs.Session.Observed
import NinjaFile.Proofs.Cbor.Cuts
import NinjaFile.Proofs.Json.Cuts
import NinjaFile.Proofs.Manifest.Truncated
import NinjaFile.Proofs.Decimal.Shortest
import NinjaFile.Proofs.Decimal.Style
import NinjaFile.Proofs.Json.Unambiguous
import NinjaFile.Proofs.Manifest.Telling
import NinjaFile.Proofs.Manifest.Written
import NinjaFile.Proofs.Manifest.Views
import NinjaFile.Proofs.Session.Counts
import NinjaFile.Proofs.Session.Growth
import NinjaFile.Proofs.Session.Failures
import NinjaFile.Proofs.Session.History
import NinjaFile.Proofs.Session.Reordered
import NinjaFile.Proofs.Session.Saved
import NinjaFile.Proofs.Unescaping
import NinjaFile.Proofs.Changes.Edge
import NinjaFile.Proofs.Binary.Doubles
import NinjaFile.Proofs.Value.FromJson
import NinjaFile.Proofs.Manifest.Payloads
import NinjaFile.Proofs.Rounds
import NinjaFile.Proofs.Manifest.Respelled
import NinjaFile.Proofs.Journal
import NinjaFile.Proofs.Manifest.Texts
import NinjaFile.Proofs.Changes.Rule
import NinjaFile.Proofs.Config
import NinjaFile.Proofs.Exports
import NinjaFile.Proofs.Session.Unfinished
import NinjaFile.Proofs.Diagnostic
import NinjaFile.Proofs.Joining
import NinjaFile.Proofs.Session.Configured
import NinjaFile.Proofs.Storage.Paths
