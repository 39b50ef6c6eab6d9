import Gofra.Socks

namespace Gofra.Tun

open Lib.Calls Addr Kernel Socks

def copyIfName (name : Str) : Sys Str :=
  if ifNamSiz ≤ name.length then raise 0 (str "iface name too long: " ++ name) else pure name

def iffTun : UInt16 := 0x0001
def iffMultiQueue : UInt16 := 0x0100
def iffNoPi : UInt16 := 0x1000
def iffVnetHdr : UInt16 := 0x4000

def tunFCsum : UInt64 := 1
def tunFTso4 : UInt64 := 2

def openTun (dev : Str) : Sys ℤ := do
  let fd ← attempt .openTun (str "open /dev/net/tun")
  call (.own fd)
  let name ← copyIfName (cStr dev)
  let _ ← attempt (.tunIoctl fd (.setIff name (iffTun ||| iffNoPi ||| iffMultiQueue ||| iffVnetHdr)))
    (str "TUNSETIFF " ++ cStr dev)
  let _ ← attempt (.tunIoctl fd (.setVnetHdrSz 10)) (str "TUNSETVNETHDRSZ " ++ cStr dev)
  let _ ← attempt (.tunIoctl fd (.setOffload (tunFCsum ||| tunFTso4))) (str "TUNSETOFFLOAD " ++ cStr dev)
  return fd

def afUnspec : UInt8 := 0
def afInet : UInt8 := 2

/-- The rest of `ifIndexFor`, in the scope of its socket. -/
def siocgIfIndex (s : ℤ) (dev : Str) : Sys ℤ := do
  let name ← copyIfName (cStr dev)
  let (r, index) ← call (.ifIndex s name)
  let _ ← check r (str "SIOCGIFINDEX " ++ cStr dev)
  return index

def ifIndexFor (dev : Str) : Sys ℤ := do
  let s ← attempt (.socket 2) (str "socket(AF_INET,SOCK_DGRAM)")
  (siocgIfIndex s dev).ensuring (call (.close s))

structure Netlink where
  nl : ℕ
  portId : UInt32
  seq : UInt32

def Netlink.nextSeq (n : Netlink) : Netlink := { n with seq := n.seq + 1 }

/-- A `Netlink` in a scope of its own, with the destructor at its end. -/
def withNetlink {α : Type} (body : Netlink → Sys α) : Sys α := do
  match ← call .mnlOpen with
  | .error e => raise e (str "mnl_socket_open")
  | .ok nl => do
    let r ← call (.op (.mnlBind nl))
    if r.ret < 0 then do
      call (.mnlClose nl)
      raise r.errno (str "mnl_socket_bind")
    else do
      let portId ← call (.mnlPortid nl)
      (body ⟨nl, portId, 0⟩).ensuring (call (.mnlClose nl))

def Netlink.run (n : Netlink) (nh : NlMsg) (what : Str) : Sys Unit := do
  let _ ← attempt (.mnlSendto n.nl nh) (what ++ str ": mnl_socket_sendto")
  let (r, rbuf) ← call (.mnlRecvfrom n.nl)
  let len ← check r (what ++ str ": mnl_socket_recvfrom")
  let _ ← attempt (.mnlCbRun (rbuf.take len.toNat) nh.seq n.portId) (what ++ str ": netlink ack")

def rtmNewLink : UInt16 := 16
def rtmNewAddr : UInt16 := 20

def nlmFRequest : UInt16 := 0x001
def nlmFAck : UInt16 := 0x004
def nlmFExcl : UInt16 := 0x200
def nlmFCreate : UInt16 := 0x400

def iflaMtu : UInt16 := 4
def ifaAddress : UInt16 := 1
def ifaLocal : UInt16 := 2
def ifaBroadcast : UInt16 := 4
def iffUp : UInt32 := 1
def rtScopeUniverse : UInt8 := 0

/-- The cast `(u32)` of an `int`. -/
def toU32 (v : ℤ) : UInt32 := UInt32.ofNat (v % 2 ^ 32).toNat

def mtuMsg (seq : UInt32) (idx mtu : ℤ) : NlMsg :=
  ⟨rtmNewLink, nlmFRequest ||| nlmFAck, seq, .ifinfo afUnspec idx 0 0, [(iflaMtu, toU32 mtu)]⟩

def hostMask (prefixLen : UInt8) : UInt32 :=
  if prefixLen = 0 then 0xFFFFFFFF else (1 <<< (32 - prefixLen.toUInt32)) - 1

/-- `htonl` is its own inverse. -/
abbrev htonl : UInt32 → UInt32 := ntohl

def addrMsg (seq : UInt32) (idx : ℤ) (vip : UInt32) (prefixLen : UInt8) : NlMsg :=
  ⟨rtmNewAddr, nlmFRequest ||| nlmFAck ||| nlmFCreate ||| nlmFExcl, seq,
    .ifaddr afInet prefixLen 0 rtScopeUniverse (toU32 idx),
    [(ifaLocal, htonl vip), (ifaAddress, htonl vip)] ++
      if prefixLen < 32 then [(ifaBroadcast, htonl (vip ||| hostMask prefixLen))] else []⟩

def upMsg (seq : UInt32) (idx : ℤ) : NlMsg :=
  ⟨rtmNewLink, nlmFRequest ||| nlmFAck, seq, .ifinfo afUnspec idx iffUp iffUp, []⟩

def Netlink.setMtu (n : Netlink) (idx mtu : ℤ) : Sys Netlink := do
  let n := n.nextSeq
  n.run (mtuMsg n.seq idx mtu) (str "RTM_NEWLINK MTU")
  return n

def Netlink.addAddr (n : Netlink) (idx : ℤ) (vip : UInt32) (prefixLen : UInt8) : Sys Netlink := do
  let n := n.nextSeq
  n.run (addrMsg n.seq idx vip prefixLen) (str "RTM_NEWADDR")
  return n

def Netlink.linkUp (n : Netlink) (idx : ℤ) : Sys Netlink := do
  let n := n.nextSeq
  n.run (upMsg n.seq idx) (str "RTM_NEWLINK UP")
  return n

def configureTun (dev : Str) (mtu : ℤ) (vip : UInt32) (prefixLen : UInt8) : Sys Unit := do
  let idx ← ifIndexFor dev
  withNetlink fun nl ↦ do
    let nl ← nl.setMtu idx mtu
    let nl ← nl.addAddr idx vip prefixLen
    let _ ← nl.linkUp idx

end Gofra.Tun
