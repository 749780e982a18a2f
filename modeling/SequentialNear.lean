import SequentialNear.Runs
import SequentialNear.Borsh
import SequentialNear.BorshSpec
import SequentialNear.Nep366
import SequentialNear.WireFormat
import SequentialNear.Gate
import SequentialNear.GateSpec
import SequentialNear.Ledger
import SequentialNear.LedgerSpec
import SequentialNear.Register
import SequentialNear.Tickets
import SequentialNear.Lifecycle
import SequentialNear.Conservation
import SequentialNear.Provenance
import SequentialNear.Accounting
import SequentialNear.Chain
import SequentialNear.Numbering
import SequentialNear.Ordering
import SequentialNear.Sequencing
import SequentialNear.Continuation
import SequentialNear.OneBatch
import SequentialNear.TailPending
import SequentialNear.Completion
import SequentialNear.Delivery
import SequentialNear.Validation
import SequentialNear.Replay
import SequentialNear.Ladder
import SequentialNear.Fees
import SequentialNear.FeeLadder
import SequentialNear.Resume
import SequentialNear.Solvency
import SequentialNear.Transfers
import SequentialNear.FtShim
import SequentialNear.Json
import SequentialNear.JsonSpec
import SequentialNear.Rearrange
import SequentialNear.Verdict
import SequentialNear.Trace
import SequentialNear.Decimal
import SequentialNear.JsonText
import SequentialNear.Utf8
import SequentialNear.Permutation
import SequentialNear.Attempts
import SequentialNear.World
import SequentialNear.WorldBatch
import SequentialNear.SequenceRun
import SequentialNear.Handover
import SequentialNear.Exchange
import SequentialNear.Custody
import SequentialNear.Authority
import SequentialNear.Decisions
import SequentialNear.Draining
import SequentialNear.Wedged
import SequentialNear.Views
import SequentialNear.SubmitRun
import SequentialNear.Rpc
import SequentialNear.Delegate
import SequentialNear.Submissions
import SequentialNear.Script
import SequentialNear.Refusals
import SequentialNear.Numbered
import SequentialNear.Sender
