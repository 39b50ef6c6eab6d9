import Gofra.Kernel

namespace Gofra.Socks

open Lib.Calls Addr Kernel

def ifNamSiz : ℕ := 16

def family : SockAddr → ℤ
  | .inet .. => 2
  | .inet6 .. => 10

/-- The name of the first interface that has the address. -/
def ifaceFor (src : SockAddr) : Sys Str := do
  let (r, ifs) ← call .getifaddrs
  checkZero r (str "getifaddrs")
  match ifs.find? fun p ↦ p.addr.any (·.sinAddr = src.sinAddr) with
  | some p => return (cStr p.name).take (ifNamSiz - 1)
  | none => raise 0 (str "no iface owns src")

def setBufForce (fd : ℤ) (opt : SockOpt) (name : Str) : Sys Unit := do
  let _ ← attempt (.setsockopt fd opt) name

def openUdpSocket (src : SockAddr) (rcvBuf sndBuf : ℤ) : Sys ℤ := do
  let fd ← attempt (.socket (family src)) (str "socket(UDP)")
  call (.own fd)
  let name ← ifaceFor src
  let _ ← attempt (.setsockopt fd (.bindToDevice name)) (str "SO_BINDTODEVICE " ++ name)
  setBufForce fd (.rcvBufForce rcvBuf) (str "SO_RCVBUFFORCE")
  setBufForce fd (.sndBufForce sndBuf) (str "SO_SNDBUFFORCE")
  let _ ← attempt (.setsockopt fd (.reuseAddr 1)) (str "SO_REUSEADDR")
  let _ ← attempt (.setsockopt fd (.udpGro 1)) (str "UDP_GRO")
  let r ← call (.op (.bind fd src))
  if r.ret < 0 then do
    -- `errno` is read after `getnameinfo`
    let info ← call (.getnameinfo src)
    raise info.errno (str "bind " ++ info.host ++ str ":" ++ info.serv)
  else return fd

end Gofra.Socks
