import Stablemate.Lib.Bfs
import Stablemate.Lib.Gap
import Stablemate.Lib.Hmac
import Stablemate.Lib.Lines
import Stablemate.Lib.Marks
import Stablemate.Lib.Memo
import Stablemate.Lib.Newest
import Stablemate.Lib.Run
import Stablemate.Lib.Scan
import Stablemate.Lib.Sweep
import Stablemate.Lib.Tally
import Stablemate.Lib.Window
import Stablemate.Model.Changes
import Stablemate.Model.Charges
import Stablemate.Model.Dotenv
import Stablemate.Model.Excerpts
import Stablemate.Model.Export
import Stablemate.Model.Flows
import Stablemate.Model.History
import Stablemate.Model.LiveHistory
import Stablemate.Model.Locators
import Stablemate.Model.Partition
import Stablemate.Model.Places
import Stablemate.Model.Profile
import Stablemate.Model.QaReport
import Stablemate.Model.QaSession
import Stablemate.Model.Reach
import Stablemate.Model.Reground
import Stablemate.Model.Review
import Stablemate.Model.Stack
import Stablemate.Model.TextIndex
import Stablemate.Model.Totp
import Stablemate.Model.Worktree
import Stablemate.Proof.Alerts
import Stablemate.Proof.Archive
import Stablemate.Proof.Attend
import Stablemate.Proof.Audit
import Stablemate.Proof.Behavior
import Stablemate.Proof.Budget
import Stablemate.Proof.Cache
import Stablemate.Proof.Causes
import Stablemate.Proof.Changes
import Stablemate.Proof.Charges
import Stablemate.Proof.Commands
import Stablemate.Proof.Config
import Stablemate.Proof.Control
import Stablemate.Proof.Digest
import Stablemate.Proof.Dispatch
import Stablemate.Proof.Dotenv
import Stablemate.Proof.Evidence
import Stablemate.Proof.Excerpts
import Stablemate.Proof.Export
import Stablemate.Proof.Flows
import Stablemate.Proof.Gates
import Stablemate.Proof.Handles
import Stablemate.Proof.History
import Stablemate.Proof.Index
import Stablemate.Proof.Install
import Stablemate.Proof.Job
import Stablemate.Proof.Ladder
import Stablemate.Proof.LiveHistory
import Stablemate.Proof.Locators
import Stablemate.Proof.Park
import Stablemate.Proof.Partition
import Stablemate.Proof.Pipeline
import Stablemate.Proof.Places
import Stablemate.Proof.Profile
import Stablemate.Proof.QaReport
import Stablemate.Proof.QaSession
import Stablemate.Proof.Reach
import Stablemate.Proof.Redact
import Stablemate.Proof.Reground
import Stablemate.Proof.Relay
import Stablemate.Proof.Review
import Stablemate.Proof.Rewind
import Stablemate.Proof.Rounds
import Stablemate.Proof.Select
import Stablemate.Proof.Selection
import Stablemate.Proof.Settle
import Stablemate.Proof.Spans
import Stablemate.Proof.Stack
import Stablemate.Proof.SubFlow
import Stablemate.Proof.TextIndex
import Stablemate.Proof.Totp
import Stablemate.Proof.Verify
import Stablemate.Proof.Waits
import Stablemate.Proof.Worktree
