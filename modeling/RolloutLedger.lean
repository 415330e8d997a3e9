import RolloutLedger.Journal.Method
import RolloutLedger.Proofs.Document.NormalForm
import RolloutLedger.Proofs.Gate.Reporting
import RolloutLedger.Proofs.Gate.Reread
import RolloutLedger.Proofs.History.Refusals
import RolloutLedger.Proofs.Lifecycle
import RolloutLedger.Proofs.Patch.Application
import RolloutLedger.Proofs.Patch.Decoding
import RolloutLedger.Proofs.Patch.MergePatch
import RolloutLedger.Proofs.Revision.Contract
import RolloutLedger.Proofs.Revision.Directives
import RolloutLedger.Proofs.Revision.Document
import RolloutLedger.Proofs.Revision.RoleLabels
import RolloutLedger.Proofs.Selector.Selection
import RolloutLedger.Proofs.Settings
import RolloutLedger.Proofs.Sync.Conservation
import RolloutLedger.Proofs.Sync.Detection
import RolloutLedger.Proofs.Sync.Failure
import RolloutLedger.Proofs.Sync.ListingOrder
import RolloutLedger.Proofs.Sync.Naming
import RolloutLedger.Proofs.Sync.Report
import RolloutLedger.Proofs.Time.Chronology
