import Gofra.WideChecksum
import Gofra.TransmitPaths
import Gofra.HdrLenHint
import Gofra.HotPath
import Gofra.VipTable
import Gofra.SlotKeys
import Gofra.PeersText
import Gofra.Striping
import Gofra.IniLayout
import Gofra.NumericSettings
import Gofra.ChainedChecksum
import Gofra.HeaderBounds
import Gofra.Mtu
import Gofra.Mirror
import Gofra.LoadShare
import Gofra.Evidence
import Gofra.StreamTransport
import Gofra.Liveness
import Gofra.Tunnel
import Gofra.FailStop
import Gofra.Privileges
import Gofra.Wiring
import Gofra.LinkSetup
import Gofra.Descriptors
import Gofra.Refinement
import Gofra.SharedState
import Gofra.ConfigText
import Gofra.Failover
import Gofra.Visits
