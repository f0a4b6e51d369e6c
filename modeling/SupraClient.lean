import SupraClient.Frame.Decider
import SupraClient.Authorization.PeerIdLength
import SupraClient.Authorization.Ownership
import SupraClient.Authorization.EventLog
import SupraClient.Authorization.Independence
import SupraClient.Authorization.Admission
import SupraClient.Authorization.Swap
import SupraClient.Authorization.Lifecycle
import SupraClient.Authorization.Initialization
import SupraClient.Authorization.ConnectionEdits
import SupraClient.Authorization.Network
import SupraClient.ProofOfExistence.History
import SupraClient.Oracle.PriceDrift
import SupraClient.Oracle.Exclusion
import SupraClient.Runtime.SignedTransaction
import SupraClient.Frame.Composition
import SupraClient.Runtime.Claims
import SupraClient.Node.Accounting
import SupraClient.Node.Subcommands
