import Gofra.Lib.Interleaving
import Gofra.Mesh
import Gofra.Plane

namespace Gofra.Processes

open Lib.Calls Lib.Chunks Lib.Network Lib.Interleaving Addr Peers Gso Conns Kernel TunReader Dispatch Routing UdpReader
open ReceiveLoop Tunnel Destination Mesh Plane

/-- What a host has when `run` has started its threads: the table, the address
that the socket of a descriptor is bound to, the reads that its kernel may give
out at the TUN, and the threads. -/
structure Site where
  table : ConnTable
  bound : ℤ → Option SockAddr
  gives : List UInt8 → Prop
  threads : List Runnable

/-- What `run` sees to before it starts a thread: the `i`-th socket is bound to
the `i`-th endpoint of the host. -/
structure Site.Ready (peers : PeerTable) (a : Fin peers.peers.length) (site : Site) : Prop where
  created : ∃ host rcvBuf sndBuf timeoutMs, ConnTable.create host peers a rcvBuf sndBuf timeoutMs = .ok site.table
  bound : ∀ fd dst, site.bound fd = some dst ↔
    ∃ i : ℕ, site.table.srcFds[i]? = some fd ∧ (peers.at a).dsts[i]? = some dst

abbrev Sites (peers : PeerTable) : Type := Fin peers.peers.length → Site

variable {peers : PeerTable}

/-- All threads of all hosts. -/
abbrev ThreadId (sites : Sites peers) : Type := (a : Fin peers.peers.length) × Fin (sites a).threads.length

def runnable {sites : Sites peers} (i : ThreadId sites) : Runnable := (sites i.1).threads.get i.2

/-- A packet with its vnet header, on its way to the host that it is for. -/
abbrev Parcel (peers : PeerTable) : Type := Fin peers.peers.length × List UInt8

/-- What the threads of all hosts work on, with what has been read from and
written to the TUNs. -/
structure World (peers : PeerTable) where
  tables : Fin peers.peers.length → ConnTable
  clocks : Fin peers.peers.length → UInt64
  net : Net Dgram
  log : List (Obs (Parcel peers))

def hostWithVip (peers : PeerTable) (vip : UInt32) : Option (Fin peers.peers.length) :=
  (List.finRange _).find? fun b ↦ (peers.at b).vip = vip

def hostAt (peers : PeerTable) (dst : SockAddr) : Option (Fin peers.peers.length) :=
  (List.finRange _).find? fun b ↦ dst ∈ (peers.at b).dsts

/-- How the host that a packet is for is told by its VIP, and by an endpoint. -/
structure Naming (peers : PeerTable) where
  ofVip : UInt32 → Option (Fin peers.peers.length)
  ofDst : SockAddr → Option (Fin peers.peers.length)

def naming (peers : PeerTable) : Naming peers := ⟨hostWithVip peers, hostAt peers⟩

/-- The packets built from a read, for the host with the VIP in it. -/
def Naming.parcels (names : Naming peers) (data : List UInt8) (pkts : List (List UInt8)) : List (Parcel peers) :=
  match names.ofVip (vipOf data) with
  | none => []
  | some b => pkts.map fun p ↦ (b, withHeader p)

/-- What a datagram carries, and where to; a probe carries nothing. -/
def Naming.carried (names : Naming peers) (dst : SockAddr) (payload : List UInt8) : Option (Parcel peers) :=
  if payload = [] then none else (names.ofDst dst).map fun b ↦ (b, withHeader payload)

abbrev parcels (peers : PeerTable) : List UInt8 → List (List UInt8) → List (Parcel peers) := (naming peers).parcels

def cargo (d : Dgram) : Option (Parcel peers) := (naming peers).carried d.dst d.payload

/-- The reads that the code copes with: parts of the vnet header that are used lie
inside the packet, and the segments of a packet for a peer fit their buffers. -/
structure FromTun (t : ConnTable) (data : List UInt8) : Prop where
  wellFormed : WellFormed data
  consistent : ConsistentRead data
  fitting : FittingRead t data

def storeSeen (t : ConnTable) (slot : ℕ) (now : UInt64) : ConnTable :=
  { t with allSlots := t.allSlots.modify slot fun s ↦ { s with lastSeen := now } }

/-- How a call of a thread of the host `a` is answered, and what it does. Any
system call may fail. -/
inductive Answer (site : Site) (a : Fin peers.peers.length) (w : World peers) : (c : Act) → Ans c → World peers → Prop
  | nowMs : Answer site a w .nowMs (w.clocks a) w
  | read {tunFd : ℤ} {sc : Scratch} {data : List UInt8} {pkts : List (List UInt8)} (hdata : site.gives data)
      (hpkts : Packets site.table sc data pkts) : Answer site a w (.read tunFd sc) (.ok data)
        { w with log := w.log ++ [.sent (parcels peers data pkts)] }
  | readFailed {tunFd : ℤ} {sc : Scratch} (err : ℕ) : Answer site a w (.read tunFd sc) (.error err) w
  | addAndFetchRr {k : ℕ} {c : Conn} (h : (w.tables a).conns[k]? = some c) :
      Answer site a w (.addAndFetchRr k) (c.rr + 1)
        { w with tables := Function.update w.tables a (Threads.draw (w.tables a) k) }
  | fetchLastSeen {slot : ℕ} {s : ConnSlot} (h : (w.tables a).allSlots[slot]? = some s) :
      Answer site a w (.fetchLastSeen slot) s.lastSeen w
  | storeLastSeen (slot : ℕ) (now : UInt64) : Answer site a w (.storeLastSeen slot now) ()
      { w with tables := Function.update w.tables a (storeSeen (w.tables a) slot now) }
  | sendto {fd : ℤ} {src dst : SockAddr} (pkt : List UInt8) (h : site.bound fd = some src) :
      Answer site a w (.sendto fd pkt dst) (.ok ()) { w with net := w.net.send [⟨src, dst, pkt⟩] }
  | sendtoFailed {fd : ℤ} {pkt : List UInt8} {dst : SockAddr} (err : ℕ) :
      Answer site a w (.sendto fd pkt dst) (.error err) w
  | sendmsg {fd : ℤ} {src dst : SockAddr} (iov : List (List UInt8)) (gsoSize : UInt16)
      (h : site.bound fd = some src) : Answer site a w (.sendmsg fd iov gsoSize dst) (.ok ())
        { w with net := w.net.send ((cut gsoSize.toNat iov.flatten).map (⟨src, dst, ·⟩)) }
  | sendmsgFailed {fd : ℤ} {iov : List (List UInt8)} {gsoSize : UInt16} {dst : SockAddr} (err : ℕ) :
      Answer site a w (.sendmsg fd iov gsoSize dst) (.error err) w
  | recvmmsg {udpFd : ℤ} {dst : SockAddr} {dgs : List Dgram} {ds : List Datagram} {net : Net Dgram}
      {sc sc' : UdpReaderScratch} (h : site.bound udpFd = some dst) (hnet : Delivery w.net dgs net)
      (harrived : Arrived dst dgs ds) (hrecv : Recvmmsg sc ds sc') :
      Answer site a w (.recvmmsg udpFd sc) (.ok (sc', ds.length)) { w with net }
  | recvmmsgFailed {udpFd : ℤ} {sc : UdpReaderScratch} (err : ℕ) :
      Answer site a w (.recvmmsg udpFd sc) (.error err) w
  | write {tunFd : ℤ} (x : TunWrite) : Answer site a w (.write tunFd x) (.ok ())
      { w with log := w.log ++ [.delivered (a, x.flatten)] }
  | writeFailed {tunFd : ℤ} {x : TunWrite} (err : ℕ) : Answer site a w (.write tunFd x) (.error err) w
  | warnErrno (what : Str) (err : ℕ) : Answer site a w (.warnErrno what err) () w
  | warn (msg : Str) : Answer site a w (.warn msg) () w
  | print (line : Str) : Answer site a w (.print line) () w
  | usleep (us : UInt32) : Answer site a w (.usleep us) () w
  | sleep (s : UInt32) : Answer site a w (.sleep s) () w

/-- What happens besides: clocks go on, and the network loses and copies datagrams. -/
inductive Env : World peers → World peers → Prop
  | tick {w : World peers} {a : Fin peers.peers.length} {now : UInt64} (h : w.clocks a ≤ now) :
      Env w { w with clocks := Function.update w.clocks a now }
  | fault {w : World peers} {net : Net Dgram} (h : Fault w.net net) : Env w { w with net }

/-- The threads of all hosts side by side. -/
def system (sites : Sites peers) : System (ThreadId sites) Act Ans Undefined Local (World peers) where
  body i := turn (sites i.1).table (runnable i)
  answer i := Answer (sites i.1) i.1
  env := Env

abbrev State (sites : Sites peers) : Type :=
  Lib.Interleaving.State (ThreadId sites) Act Ans Undefined Local (World peers)

/-- What a thread is started with. -/
inductive Fresh : Runnable → Local → Prop
  | tunReader (tunFd : ℤ) (sc : Scratch) : Fresh (.tunReader tunFd) (.tun sc)
  | udpReader {udpFd tunFd : ℤ} {srcIdx : UInt32} {mem : Fin batch → Raw} {sc : UdpReaderScratch}
      (h : makeUdpReaderScratch mem = some sc) : Fresh (.udpReader udpFd tunFd srcIdx) (.udp sc)
  | prober (intervalMs : UInt64) : Fresh (.prober intervalMs) .nothing
  | slotsStats (timeoutMs intervalSec : UInt64) : Fresh (.slotsStats timeoutMs intervalSec) .nothing

structure Start (sites : Sites peers) (st : State sites) : Prop where
  rest : ∀ i, ∃ s, st.rest i = .ret s ∧ Fresh (runnable i) s
  tables : ∀ a, st.world.tables a = (sites a).table
  net : st.world.net = Net.empty
  log : st.world.log = []

/-- The states that the hosts can get into, whatever the order of steps. -/
def Reachable (sites : Sites peers) (st : State sites) : Prop :=
  ∃ st₀, Start sites st₀ ∧ Steps (system sites) st₀ st

theorem Reachable.invariant {sites : Sites peers} {P : State sites → Prop} (hstart : ∀ st, Start sites st → P st)
    (hstep : ∀ st st', P st → Step (system sites) st st' → P st') {st : State sites} (h : Reachable sites st) :
    P st := by
  obtain ⟨st₀, h₀, hsteps⟩ := h
  induction hsteps with
  | refl => exact hstart st₀ h₀
  | tail _ hs ih => exact hstep _ _ ih hs

end Gofra.Processes
