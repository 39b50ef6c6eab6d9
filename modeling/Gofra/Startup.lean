import Gofra.Conns
import Gofra.NumericStl
import Gofra.Settings
import Gofra.Tun

namespace Gofra.Startup

open Lib.Calls Addr Peers Conns Settings Kernel Socks Tun

/-- The constructor of the table, with its sockets. -/
def createTable (peers : PeerTable) (self : Fin peers.peers.length) (rcvBuf sndBuf : ℤ) (timeoutMs : UInt64) :
    Sys ConnTable := do
  let me := peers.at self
  let srcFds ← me.dsts.mapM (openUdpSocket · rcvBuf sndBuf)
  let startMs ← call .nowMs
  return (peers.peers.eraseIdx self).foldl (addConn me startMs) ⟨timeoutMs, srcFds, [], [], ∅, ∅⟩

def usage {α : Type} : Sys α := do
  call .usage
  .fail (.exit 2)

def dropPrivs (user : Str) : Sys Unit := do
  match ← call (.getpwnam (cStr user)) with
  | none => raise 0 (str "unknown user: " ++ cStr user)
  | some pw =>
    checkZero (← call (.cred (.setgroups 0))) (str "setgroups")
    checkZero (← call (.cred (.setresgid pw.gid))) (str "setresgid")
    checkZero (← call (.cred (.setresuid pw.uid))) (str "setresuid")

/-- The loop over `argv[1]`, `argv[2]`, …, where a later `--config` replaces an earlier one. -/
def configPath : List Str → Str → Option Str
  | [], path => if path = [] then none else some path
  | [_], _ => none
  | arg :: value :: args, _ => if arg = str "--config" then configPath args value else none

def toU64 (v : ℤ) : UInt64 := UInt64.ofNat (v % 2 ^ 64).toNat

/-- The threads, in the order in which they are created: two for each source
address, then the prober and the statistics. -/
def runnables (cfg : Config) (srcFds tunFds : List ℤ) : List Runnable :=
  ((tunFds.zip srcFds).zipIdx.flatMap fun q ↦
    [.tunReader q.1.1, .udpReader q.1.2 q.1.1 (UInt32.ofNat q.2)]) ++
  [.prober cfg.probeIntervalMs, .slotsStats cfg.probeTimeoutMs cfg.statsIntervalSec]

def spawn (r : Runnable) : Sys Unit := do
  orThrow (← call (.spawn r))

/-- `run` from the configuration to the network interface. -/
def setup (cfg : Config) : Sys (ConnTable × List ℤ) := do
  let conns ← createTable cfg.peers cfg.self cfg.udpRecvBuf cfg.udpSendBuf cfg.probeTimeoutMs
  let tunFds ← (List.replicate conns.srcFds.length cfg.tunDev).mapM openTun
  configureTun cfg.tunDev cfg.tunMtu cfg.tunVip cfg.tunPrefixLen
  return (conns, tunFds)

def dropUser : Option Str → Sys Unit
  | some user => dropPrivs user
  | none => pure ()

/-- The rest of `run`. -/
def launch (cfg : Config) (conns : ConnTable) (tunFds : List ℤ) : Sys Unit := do
  call (.banner (cStr cfg.tunDev) (toU64 cfg.tunMtu) (UInt64.ofNat conns.srcFds.length)
    (UInt64.ofNat conns.conns.length))
  let threads ← (runnables cfg conns.srcFds tunFds).mapM spawn
  let _ ← (List.range threads.length).mapM fun i ↦ call (.join i)

def start (cfg : Config) : Sys Unit := do
  let (conns, tunFds) ← setup cfg
  dropUser cfg.user
  launch cfg conns tunFds

def load (stl : Stl) (path : Str) : Sys Config := do
  let text ← orThrow (← call (.readFile path))
  match loadConfig stl text with
  | .error e => .fail (.thrown (.error e))
  | .ok cfg => return cfg

/-- The order in which a pool destroys what it owns. -/
structure Pool where
  order : List ℤ → List ℤ
  perm : ∀ fds, (order fds).Perm fds

/-- What the pool owns after a call. -/
def noteOwned : List ℤ → Event → List ℤ
  | fds, ⟨.own fd, _⟩ => fd :: fds
  | fds, ⟨.release fd, _⟩ => fds.erase fd
  | fds, _ => fds

def Pool.destroy (pool : Pool) (fds : List ℤ) : Sys Unit := do
  let _ ← (pool.order fds).mapM fun fd ↦ call (.release fd)

/-- The scope of the pool, with its destructor at the end. -/
def withPool {α : Type} (pool : Pool) (body : Sys α) : Sys α := body.inScope noteOwned pool.destroy []

/-- `run`, with the arguments after the program's name. -/
def run (stl : Stl) (pool : Pool) (args : List Str) : Sys Unit := do
  match configPath args [] with
  | none => usage
  | some path => do
    call .ignoreSigPipe
    withPool pool do
      let cfg ← load stl path
      start cfg

/-- `main`, which ends with the code of the process. -/
def main (stl : Stl) (pool : Pool) (args : List Str) : Prog Call Answer Empty ℕ :=
  (run stl pool args >>= fun _ ↦ pure 0).handle fun
    | .exit code => pure code
    | .thrown e => do
      perform (Call.report e)
      return 1

def sampleText : Str :=
  str "[me]\nvip = 10.0.0.1\nuser = nobody\n[peers]\n10.0.0.1 = 192.0.2.1:7000\n10.0.0.2 = 192.0.2.2:7000\n"

/-- A system on which nothing fails. -/
def agreeable (past : List Event) : (c : Call) → Answer c
  | .op _ => ⟨past.length + 3, 0⟩
  | .cred _ => ⟨0, 0⟩
  | .readFile _ => .ok sampleText
  | .getifaddrs => (⟨0, 0⟩, [⟨str "eth0", some (.inet 0 0x010200c0)⟩])
  | .getnameinfo _ => ⟨[], [], 0⟩
  | .ifIndex .. => (⟨0, 0⟩, 7)
  | .mnlOpen => .ok past.length
  | .mnlPortid _ => 1
  | .mnlRecvfrom _ => (⟨0, 0⟩, [])
  | .nowMs => 0
  | .getpwnam _ => some ⟨65534, 65534⟩
  | .spawn _ => .ok ()
  | .usage | .ignoreSigPipe | .own _ | .release _ | .close _ | .mnlClose _ | .banner .. | .join _ | .report _ => ()

/-- The last one in is the first one out. -/
def stackPool : Pool := ⟨List.reverse, List.reverse_perm⟩

def sampleArgs : List Str := [str "--config", str "gofra.ini"]

end Gofra.Startup
