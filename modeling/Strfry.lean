import Strfry.CollectCalls
import Strfry.Connections
import Strfry.Convergence
import Strfry.DTags
import Strfry.Deletion
import Strfry.Expiration
import Strfry.FilterSetItems
import Strfry.ForwardingRuns
import Strfry.FriedChecks
import Strfry.HandoffFaults
import Strfry.HttpBatch
import Strfry.HttpReads
import Strfry.HttpRequests
import Strfry.Intake
import Strfry.JsonMatching
import Strfry.JsonRestore
import Strfry.MonitorLoops
import Strfry.PluginDialogue
import Strfry.ProxyAddress
import Strfry.PubkeyExtraction
import Strfry.QueryStatus
import Strfry.RateCacheLists
import Strfry.RateWindows
import Strfry.SyncBookkeeping
import Strfry.Transports
import Strfry.TreeMirror
