import Gofra.Delivery
import Gofra.Mirror

namespace Gofra.Evidence

open Lib.Network Lib.LastWins Addr Peers Conns SlotKeys SlotTable TunReader Dispatch Transmission UdpReader ReceiveLoop
open Destination Mesh Delivery Mirror

variable {peers : PeerTable} {tables : Fin peers.peers.length → ConnTable}

end Gofra.Evidence
