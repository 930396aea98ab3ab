import Hekla.Keys.Store
import Hekla.Keys.Adoption
import Hekla.Keys.Reachability
import Hekla.Keys.SealedWrites
import Hekla.Keys.Migration
import Hekla.Host.Idempotency
import Hekla.Host.Deciding
import Hekla.Backup.Clamp
import Hekla.Backup.Complete
import Hekla.Effect.LaneRows
import Hekla.Effect.Watermark
import Hekla.Effect.Supersession
import Hekla.Effect.Collapse
import Hekla.Derived.Reconciliation
import Hekla.Lanes.Schedule
import Hekla.Lanes.Encoding
import Hekla.Library.Runs
import Hekla.Folds.Follow
import Hekla.Keys.Sweeping
import Hekla.Keys.Decryptor
import Hekla.Effect.Stuck
import Hekla.Effect.Retention
import Hekla.Verify.Comparison
import Hekla.Verify.Collapsed
import Hekla.Reads.Pagination
import Hekla.Reads.TablePages
import Hekla.Reads.ReadYourWrites
import Hekla.Language.HistoryWalk
import Hekla.Language.Journal
import Hekla.Host.Envelope
import Hekla.Reads.Sealed
import Hekla.Language.Cells
import Hekla.Language.RowRefinement
import Hekla.Language.Unfired
import Hekla.Reads.OneWalk
import Hekla.Language.Timestamps
import Hekla.Plan.Affected
import Hekla.Projector.Quarantine
import Hekla.Derived.Servability
import Hekla.Projector.Swap
import Hekla.Projector.Bounded
import Hekla.Host.Redaction
import Hekla.Reads.Indexes
import Hekla.Reads.Pinned
import Hekla.Absence.Check
import Hekla.Absence.Complete
import Hekla.Adopt.Settling
import Hekla.Reads.RowByKey
import Hekla.Plan.Diff
