import Avault.Agent.Admission
import Avault.Agent.Binding
import Avault.Agent.Concrete
import Avault.Agent.HelperCanonical
import Avault.Agent.HelperRun
import Avault.Agent.MasterCache
import Avault.Agent.Operation
import Avault.Agent.Rejected
import Avault.Agent.SingleUse
import Avault.Agent.SocketParent
import Avault.Crypto.ProtectedRecord
import Avault.Crypto.RecordFamily
import Avault.Store.FailedOperation
import Avault.Store.AuthorizeRuns
import Avault.Store.AutoLoads
import Avault.Store.Cooldown
import Avault.Store.FirstUse
import Avault.Store.KeyFileRuns
import Avault.Store.TpmRuns
import Avault.Deliver.InjectJson
import Avault.Fetch.QueryUrl
import Avault.Fetch.Redaction
import Avault.Store.Session
import Avault.Cli.Egress
import Avault.Cli.Backup
import Avault.Cli.SameOpening
import Avault.Cli.Stdin
import Avault.Crypto.Taproot
import Avault.Agent.Framing
import Avault.Store.AtomicWrite
import Avault.Cli.ImportField
import Avault.Cli.KeyRestore
import Avault.Cli.ImportFaults
import Avault.Agent.Progress
