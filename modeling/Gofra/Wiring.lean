import Gofra.FailStop
import Gofra.Phases

namespace Gofra.Wiring

open Lib.Calls Addr NumericStl Peers Conns Settings Kernel Socks Tun Startup Phases FailStop

end Gofra.Wiring
