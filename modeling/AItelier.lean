import AItelier.Proofs.Review
import AItelier.Proofs.Independence
import AItelier.Proofs.Checkouts
import AItelier.Proofs.Registry
import AItelier.Proofs.Handoffs
import AItelier.Proofs.Invalidation
import AItelier.Proofs.History
import AItelier.Proofs.Bundles
import AItelier.Notes.Chains
import AItelier.Proofs.Takeover
import AItelier.Proofs.Repeats
import AItelier.Proofs.Idle
import AItelier.Proofs.Settings
import AItelier.Proofs.Designs
import AItelier.DriverInbox.Lossless
import AItelier.Git.Links
import AItelier.Git.IndexCodec
import AItelier.Registration.Rollback
import AItelier.Migration.ReleasePath
import AItelier.Isolation.OneWriter
import AItelier.Seeds.Competing
import AItelier.Deployment.Lasting
import AItelier.Mail.Standing
import AItelier.Scheduler.Recovery
import AItelier.Scheduler.Slots
import AItelier.Scheduler.TaskHistory
import AItelier.Render.OwnRow
import AItelier.Render.Diagnostics
import AItelier.Scope.Selecting
import AItelier.Mail.TwoProviders
import AItelier.Proofs.Shipping
import AItelier.Todo.Progress
import AItelier.Todo.Episode
import AItelier.Proofs.Impact
import AItelier.Writer.Exact
import AItelier.Writer.Authority
import AItelier.Router.Failover
import AItelier.Proofs.Expiry
import AItelier.Todo.ScopeGlob
import AItelier.Gates.Audit
import AItelier.Pipeline.Renamespace
import AItelier.Review.Inputs
import AItelier.Coding.Regression
import AItelier.Novel.Entities
