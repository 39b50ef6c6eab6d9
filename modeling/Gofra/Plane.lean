import Gofra.Kernel
import Gofra.NumericText
import Gofra.TunReader
import Gofra.UdpReader

namespace Gofra.Plane

open Lib.Calls Lib.Buffer Addr Gso Conns Kernel NumericText TunReader UdpReader

/-- What a thread of the data plane does that the rest of the world takes part
in: system calls, and the atomic accesses to what the threads share. -/
inductive Act where
  | nowMs
  | read (tunFd : ℤ) (sc : Scratch)
  | addAndFetchRr (conn : ℕ)
  | fetchLastSeen (slot : ℕ)
  | storeLastSeen (slot : ℕ) (now : UInt64)
  | sendto (fd : ℤ) (pkt : List UInt8) (dst : SockAddr)
  | sendmsg (fd : ℤ) (iov : List (List UInt8)) (gsoSize : UInt16) (dst : SockAddr)
  | recvmmsg (udpFd : ℤ) (sc : UdpReaderScratch)
  | write (tunFd : ℤ) (w : TunWrite)
  | warnErrno (what : Str) (err : ℕ)
  | warn (msg : Str)
  | print (line : Str)
  | usleep (us : UInt32)
  | sleep (s : UInt32)

/-- The answers. A system call that fails gives an `errno`; `read` gives what it
has read, `recvmmsg` the filled headers and buffers and the number of messages. -/
abbrev Ans : Act → Type
  | .nowMs | .addAndFetchRr _ | .fetchLastSeen _ => UInt64
  | .read .. => Except ℕ (List UInt8)
  | .sendto .. | .sendmsg .. | .write .. => Except ℕ Unit
  | .recvmmsg .. => Except ℕ (UdpReaderScratch × ℕ)
  | .storeLastSeen .. | .warnErrno .. | .warn _ | .print _ | .usleep _ | .sleep _ => Unit

/-- An access out of bounds, or a division by zero. -/
inductive Undefined where
  | undefined

abbrev Thread (α : Type) : Type := Prog Act Ans Undefined α

abbrev act (a : Act) : Thread (Ans a) := perform a

def must {α : Type} : Option α → Thread α
  | some a => pure a
  | none => .fail .undefined

def orWarn (what : Str) : Except ℕ Unit → Thread Unit
  | .ok () => pure ()
  | .error err => act (.warnErrno what err)

/-- The loop of `Conn::next` over the slots that it has not looked at. -/
def scan (c : Conn) (now : UInt64) (base : ℕ) : List ℕ → Thread ℕ
  | [] => must c.slots[base]?
  | i :: is => do
    let slot ← must c.slots[i]?
    let ls ← act (.fetchLastSeen slot)
    if alive now ls c.timeoutMs then return slot else scan c now base is

/-- `Conn::next` on connection `k`; the slot is its place in `allSlots`. -/
def next (t : ConnTable) (k : ℕ) (now : UInt64) : Thread ℕ := do
  let c ← must t.conns[k]?
  let n := c.slots.length
  let sum ← act (.addAndFetchRr k)
  if n = 0 then .fail .undefined
  else
    let base := (sum - 1).toNat % n
    scan c now base (scanOrder n base)

def sendOne (t : ConnTable) (k : ℕ) (pkt : List UInt8) : Thread Unit := do
  let now ← act .nowMs
  let slot ← next t k now
  let s ← must t.allSlots[slot]?
  let r ← act (.sendto s.srcFd pkt s.dstAddr)
  orWarn (str "udp sendto") r

/-- The loop of `sendUso` from segment `i` on. -/
def usoLoop (t : ConnTable) (k : ℕ) (now : UInt64) (segBufs : List (List UInt8)) (segSizes : List ℕ)
    (gsoSize : UInt16) (partSize segs : ℕ) : (fuel i : ℕ) → Thread Unit
  | 0, _ => pure ()
  | fuel + 1, i =>
    if i < segs then do
      let stop := min (i + partSize) segs
      let iov ← must (iovs segBufs segSizes i stop)
      let slot ← next t k now
      let s ← must t.allSlots[slot]?
      let r ← act (.sendmsg s.srcFd iov gsoSize s.dstAddr)
      orWarn (str "udp sendmsg(USO)") r
      usoLoop t k now segBufs segSizes gsoSize partSize segs fuel stop
    else pure ()

def sendUso (t : ConnTable) (k : ℕ) (segBufs : List (List UInt8)) (segSizes : List ℕ) (segs : ℕ) : Thread Unit := do
  let partSize := (segs + usoParts - 1) / usoParts
  let size ← must segSizes[0]?
  let now ← act .nowMs
  usoLoop t k now segBufs segSizes (UInt16.ofNat size) partSize segs segs 0

def forward (t : ConnTable) (k : ℕ) (sc : Scratch) (innerLen : ℕ) (hdr : VirtioNetHdr) : Thread Scratch :=
  if hdr.gsoType = virtioNetHdrGsoNone then do
    let sc ← must (sc.completeChecksum innerLen hdr)
    sendOne t k (sc.inner.take innerLen)
    return sc
  else if hdr.gsoType = virtioNetHdrGsoTcpv4 then do
    let (segs, sc) ← must (sc.split innerLen hdr)
    if segs < 0 then
      act (.warn (str "gsoSplit: too many segments / unsupported gso_type"))
      return sc
    else
      sendUso t k sc.segBufs sc.segSizes segs.toNat
      return sc
  else do
    act (.warn (str "tunReader: unsupported gso_type"))
    return sc

/-- One turn of the `tunReader` loop. -/
def tunReader (t : ConnTable) (tunFd : ℤ) (sc : Scratch) : Thread Scratch := do
  match ← act (.read tunFd sc) with
  | .error err =>
    act (.warnErrno (str "tun read") err)
    return sc
  | .ok data =>
    let n := min data.length readSize
    let sc := sc.read data
    if n < virtioNetHdrLen + 20 then return sc
    else
      let hdr ← must (decodeVirtioNetHdr sc.readBuf)
      let innerLen := n - virtioNetHdrLen
      match (dstFromIPv4 sc.inner innerLen).bind t.lookup with
      | none => return sc
      | some k => forward t k sc innerLen hdr

/-- The loop that cuts a coalesced buffer into its datagrams. -/
def splitLoop (tunFd : ℤ) (zeroHdr buf : List UInt8) (gsoSize payloadLen : ℕ) : (fuel off : ℕ) → Thread Unit
  | 0, _ => pure ()
  | fuel + 1, off =>
    if off < payloadLen then do
      let chunk := min gsoSize (payloadLen - off)
      let data ← must (slice buf (virtioNetHdrLen + off) chunk)
      let w ← act (.write tunFd [zeroHdr, data])
      orWarn (str "tun writev") w
      splitLoop tunFd zeroHdr buf gsoSize payloadLen fuel (off + chunk)
    else pure ()

def writeMsg (tunFd : ℤ) (zeroHdr : List UInt8) (m : Msg) (gsoSize : ℤ) : Thread Unit :=
  if m.msgLen < 20 then pure ()
  else if 0 < gsoSize ∧ gsoSize.toNat < m.msgLen then
    splitLoop tunFd zeroHdr m.buf gsoSize.toNat m.msgLen m.msgLen 0
  else do
    let data ← must (slice m.buf 0 (virtioNetHdrLen + m.msgLen))
    let w ← act (.write tunFd [data])
    orWarn (str "tun write") w

def hear (t : ConnTable) (srcIdx : UInt32) (addr : SockAddr) (now : UInt64) : Thread Unit :=
  match t.lookupSlot srcIdx addr with
  | none => pure ()
  | some slot => act (.storeLastSeen slot now)

/-- The loop over a batch from message `i` on. -/
def batchLoop (t : ConnTable) (tunFd : ℤ) (srcIdx : UInt32) (now : UInt64) :
    (fuel i : ℕ) → UdpReaderScratch → Thread UdpReaderScratch
  | 0, _, sc => pure sc
  | fuel + 1, i, sc => do
    let m ← must sc.msgs[i]?
    hear t srcIdx m.addr now
    let gsoSize ← must (groSize m.cbuf m.controllen)
    let sc := { sc with msgs := sc.msgs.set i m.reset }
    writeMsg tunFd sc.zeroHdr m gsoSize
    batchLoop t tunFd srcIdx now fuel (i + 1) sc

/-- One turn of the `udpReader` loop. -/
def udpReader (t : ConnTable) (udpFd tunFd : ℤ) (srcIdx : UInt32) (sc : UdpReaderScratch) :
    Thread UdpReaderScratch := do
  match ← act (.recvmmsg udpFd sc) with
  | .error err =>
    act (.warnErrno (str "udp recvmmsg") err)
    return sc
  | .ok (sc, n) =>
    let now ← act .nowMs
    batchLoop t tunFd srcIdx now n 0 sc

/-- The slots that a visitor is given, which `prober` and `slotsStats` keep. -/
def visited (t : ConnTable) : List ℕ := t.visitSlots (fun slots slot ↦ slots ++ [slot]) []

def probe (t : ConnTable) (slot : ℕ) : Thread Unit := do
  let s ← must t.allSlots[slot]?
  let r ← act (.sendto s.srcFd [] s.dstAddr)
  orWarn (str "probe sendto") r

/-- One turn of the `prober` loop. -/
def prober (t : ConnTable) (intervalMs : UInt64) : Thread Unit := do
  let _ ← (visited t).mapM (probe t)
  act (.usleep (intervalMs * 1000).toUInt32)

/-- What `inet_ntop` writes for the bytes of an address where `sin_addr` has its own. -/
def inetNtop (sa : SockAddr) : Str := dotted (ntohl sa.sinAddr)

/-- The entry of one slot in the line of `slotsStats`. -/
def snapshot (s : ConnSlot) (alive : Bool) : Str :=
  str " [" ++ inetNtop s.srcAddr ++ str "," ++ inetNtop s.dstAddr ++ str "," ++
    decimal (if alive then 1 else 0) ++ str "]"

/-- The loop of `slotsStats`, with the line so far and the two counts. -/
def statsLoop (t : ConnTable) (now timeoutMs : UInt64) : List ℕ → Str → UInt64 → UInt64 →
    Thread (Str × UInt64 × UInt64)
  | [], sb, aliveCount, deadCount => pure (sb, aliveCount, deadCount)
  | slot :: slots, sb, aliveCount, deadCount => do
    let s ← must t.allSlots[slot]?
    let ls ← act (.fetchLastSeen slot)
    let sb := sb ++ snapshot s (alive now ls timeoutMs)
    if alive now ls timeoutMs then statsLoop t now timeoutMs slots sb (aliveCount + 1) deadCount
    else statsLoop t now timeoutMs slots sb aliveCount (deadCount + 1)

/-- One turn of the `slotsStats` loop. -/
def slotsStats (t : ConnTable) (timeoutMs intervalSec : UInt64) : Thread Unit := do
  let now ← act .nowMs
  let (sb, aliveCount, deadCount) ← statsLoop t now timeoutMs (visited t) (str "gofra slots:") 0 0
  act (.print sb)
  act (.print (str "gofra slot_health alive=" ++ decimal aliveCount.toNat ++ str " dead=" ++
    decimal deadCount.toNat))
  act (.sleep intervalSec.toUInt32)

/-- What a thread keeps from turn to turn. -/
inductive Local where
  | tun (sc : Scratch)
  | udp (sc : UdpReaderScratch)
  | nothing

/-- The turn of a thread's loop. -/
def turn (t : ConnTable) : Runnable → Local → Thread Local
  | .tunReader tunFd, .tun sc => Local.tun <$> tunReader t tunFd sc
  | .udpReader udpFd tunFd srcIdx, .udp sc => Local.udp <$> udpReader t udpFd tunFd srcIdx sc
  | .prober intervalMs, .nothing => do
    prober t intervalMs
    return .nothing
  | .slotsStats timeoutMs intervalSec, .nothing => do
    slotsStats t timeoutMs intervalSec
    return .nothing
  | _, _ => .fail .undefined

end Gofra.Plane
