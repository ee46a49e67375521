import Paperboat.Bandwidth.Delivery
import Paperboat.Bandwidth.Disclosure
import Paperboat.Billing.UsageMonth
import Paperboat.Config.Ancestor
import Paperboat.Config.Directories
import Paperboat.Config.Publish
import Paperboat.Connector.Joint
import Paperboat.FileTransfer.Publication
import Paperboat.LocalDaemon.Inventory
import Paperboat.LocalDaemon.Republish
import Paperboat.Output.Deliver
import Paperboat.Output.Memory
import Paperboat.Output.Pace
import Paperboat.Paste.Interceptor
import Paperboat.Policy.Changes
import Paperboat.Policy.Scopes
import Paperboat.Relay.Leases
import Paperboat.Relay.Memberships
import Paperboat.Relay.Pairs
import Paperboat.Relay.PeerRelay
import Paperboat.Relay.Revocation
import Paperboat.Route.Attachments
import Paperboat.Route.Close
import Paperboat.Tailnet.Rollback
import Paperboat.Tailnet.Withdrawal
import Paperboat.Terminal.Capacity
import Paperboat.Terminal.Interrupt
import Paperboat.Terminal.Restart
import Paperboat.Update.Execs
import Paperboat.Update.GateAnswers
import Paperboat.Usage.Absolutes
import Paperboat.Vault.Records
