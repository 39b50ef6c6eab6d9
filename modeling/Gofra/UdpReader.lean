import Gofra.Conns
import Gofra.Lib.Chunks

namespace Gofra.UdpReader

open Lib.Buffer Lib.Chunks Addr Gso Conns
open Csum (leNat)

def batch : ℕ := 64

def msgSize : ℕ := 10 + 65536

def sockaddrStorageLen : ℕ := 128

def cmsgHdrLen : ℕ := 16

def cmsgAlign (n : ℕ) : ℕ := (n + 7) / 8 * 8

def cbufLen : ℕ := cmsgAlign 4 + cmsgAlign cmsgHdrLen

def solUdp : ℕ := 17

def udpGro : ℕ := 104

/-- The `i`-th entries of `msgs`, `iovs`, `addrs`, `cbufs` and `bufs`, which the
constructor ties together for good. The `iovec` is a range of `buf`. -/
structure Msg where
  iovOff : ℕ
  iovLen : ℕ
  namelen : ℕ
  controllen : ℕ
  msgLen : ℕ
  addr : SockAddr
  cbuf : List UInt8
  buf : List UInt8

structure UdpReaderScratch where
  msgs : List Msg
  zeroHdr : List UInt8

/-- The memory that the constructor finds behind one entry. -/
structure Raw where
  addr : SockAddr
  cbuf : List UInt8
  buf : List UInt8
  length_cbuf : cbuf.length = cbufLen
  length_buf : buf.length = msgSize

def Raw.msg (raw : Raw) : Option Msg := do
  let buf ← zeroVirtioNetHdr raw.buf
  return ⟨virtioNetHdrLen, msgSize - virtioNetHdrLen, sockaddrStorageLen, cbufLen, 0, raw.addr, raw.cbuf, buf⟩

def makeUdpReaderScratch (mem : Fin batch → Raw) : Option UdpReaderScratch := do
  return ⟨← (List.ofFn mem).mapM Raw.msg, List.replicate virtioNetHdrLen 0⟩

/-- Any incoming packet is evidence that its slot is alive. -/
def hear (t : ConnTable) (srcIdx : UInt32) (addr : SockAddr) (now : UInt64) : ConnTable :=
  match t.lookupSlot srcIdx addr with
  | none => t
  | some slot => { t with allSlots := t.allSlots.modify slot fun s ↦ { s with lastSeen := now } }

def leInt (bs : List UInt8) : ℤ := if leNat bs < 2 ^ 31 then leNat bs else leNat bs - 2 ^ 32

structure Cmsghdr where
  cmsgLen : ℕ
  cmsgLevel : ℕ
  cmsgType : ℕ

def cmsgAt (cbuf : List UInt8) (off : ℕ) : Option Cmsghdr := do
  return ⟨leNat (← slice cbuf off 8), leNat (← slice cbuf (off + 8) 4), leNat (← slice cbuf (off + 12) 4)⟩

/-- `CMSG_NXTHDR`: the place of the next header, where there is room for one. -/
def cmsgNext (cbuf : List UInt8) (controllen off : ℕ) (cm : Cmsghdr) : Option (Option ℕ) :=
  let next := off + cmsgAlign cm.cmsgLen
  if cm.cmsgLen < cmsgHdrLen ∨ controllen < next + cmsgHdrLen then some none
  else do
    let cm' ← cmsgAt cbuf next
    return if controllen < next + cmsgAlign cm'.cmsgLen then none else some next

/-- The loop over the control messages from the one at `off` on. -/
def groScan (cbuf : List UInt8) (controllen : ℕ) : (fuel off : ℕ) → Option ℤ
  | 0, _ => some 0
  | fuel + 1, off => do
    let cm ← cmsgAt cbuf off
    if cm.cmsgLevel = solUdp ∧ cm.cmsgType = udpGro then
      return leInt (← slice cbuf (off + cmsgHdrLen) 4)
    else
      match ← cmsgNext cbuf controllen off cm with
      | none => return 0
      | some next => groScan cbuf controllen fuel next

/-- `gsoSize` after the loop. `CMSG_FIRSTHDR` wants room for a header; each
further header is at least a header behind the one before. -/
def groSize (cbuf : List UInt8) (controllen : ℕ) : Option ℤ :=
  if cmsgHdrLen ≤ controllen then groScan cbuf controllen (controllen / cmsgHdrLen) 0 else some 0

/-- What one `write` or `writev` call puts out: the pieces of one packet. -/
abbrev TunWrite : Type := List (List UInt8)

/-- The loop that cuts a coalesced buffer into its datagrams. -/
def splitLoop (zeroHdr buf : List UInt8) (gsoSize payloadLen : ℕ) : (fuel off : ℕ) → Option (List TunWrite)
  | 0, _ => some []
  | fuel + 1, off =>
    if off < payloadLen then do
      let chunk := min gsoSize (payloadLen - off)
      let data ← slice buf (virtioNetHdrLen + off) chunk
      let rest ← splitLoop zeroHdr buf gsoSize payloadLen fuel (off + chunk)
      return [zeroHdr, data] :: rest
    else some []

def writeMsg (zeroHdr : List UInt8) (m : Msg) (gsoSize : ℤ) : Option (List TunWrite) :=
  if m.msgLen < 20 then some []
  else if 0 < gsoSize ∧ gsoSize.toNat < m.msgLen then
    splitLoop zeroHdr m.buf gsoSize.toNat m.msgLen m.msgLen 0
  else do return [[← slice m.buf 0 (virtioNetHdrLen + m.msgLen)]]

def Msg.reset (m : Msg) : Msg := { m with namelen := sockaddrStorageLen, controllen := cbufLen }

/-- The loop over a batch from message `i` on, with the writes for each message. -/
def udpReaderLoop (srcIdx : UInt32) (now : UInt64) : (fuel i : ℕ) → ConnTable → UdpReaderScratch →
    Option (ConnTable × UdpReaderScratch × List (List TunWrite))
  | 0, _, t, sc => some (t, sc, [])
  | fuel + 1, i, t, sc => do
    let m ← sc.msgs[i]?
    let t := hear t srcIdx m.addr now
    let gsoSize ← groSize m.cbuf m.controllen
    let sc := { sc with msgs := sc.msgs.set i m.reset }
    let out ← writeMsg sc.zeroHdr m gsoSize
    let (t, sc, outs) ← udpReaderLoop srcIdx now fuel (i + 1) t sc
    return (t, sc, out :: outs)

/-- The body of the `udpReader` loop after `recvmmsg` has returned `n`. -/
def udpReader (t : ConnTable) (srcIdx : UInt32) (now : UInt64) (sc : UdpReaderScratch) (n : ℕ) :
    Option (ConnTable × UdpReaderScratch × List (List TunWrite)) :=
  udpReaderLoop srcIdx now n 0 t sc

/-- The first control message of some control data says it is a GRO size. -/
def IsGro (control : List UInt8) : Prop :=
  leNat ((control.drop 8).take 4) = solUdp ∧ leNat ((control.drop 12).take 4) = udpGro

instance (control : List UInt8) : Decidable (IsGro control) := inferInstanceAs (Decidable (_ ∧ _))

/-- A message as the kernel hands it over: its control data, which comes in
whole messages, and the length that is reported for it, which may count
padding. A GRO size is an `int`. -/
structure Datagram where
  addr : SockAddr
  payload : List UInt8
  control : List UInt8
  controllen : ℕ
  payload_le : payload.length ≤ msgSize - virtioNetHdrLen
  control_le : control.length ≤ controllen
  controllen_le : controllen ≤ cbufLen
  whole : cmsgHdrLen ≤ controllen → cmsgHdrLen ≤ control.length
  gro : cmsgHdrLen ≤ controllen → IsGro control → cmsgHdrLen + 4 ≤ control.length

/-- What `recvmmsg` makes of the entry that it fills with `d`. Control data
comes whole where there is room for it, and so does the address. -/
structure Delivered (m m' : Msg) (d : Datagram) : Prop where
  iovOff : m'.iovOff = m.iovOff
  iovLen : m'.iovLen = m.iovLen
  fits : d.payload.length ≤ m.iovLen
  msgLen : m'.msgLen = d.payload.length
  buf : m'.buf = patch m.buf m.iovOff d.payload
  namelen : m'.namelen ≤ m.namelen
  addr : addrLen d.addr ≤ m.namelen → m'.addr = d.addr
  controllen : m'.controllen ≤ m.controllen
  length_cbuf : m'.cbuf.length = m.cbuf.length
  control : d.controllen ≤ m.controllen →
    m'.controllen = d.controllen ∧ m'.cbuf = d.control ++ m.cbuf.drop d.control.length

/-- A `recvmmsg` call that returns the messages `ds`. -/
structure Recvmmsg (sc : UdpReaderScratch) (ds : List Datagram) (sc' : UdpReaderScratch) : Prop where
  length_le : ds.length ≤ sc.msgs.length
  length : sc'.msgs.length = sc.msgs.length
  delivered : ∀ (i : ℕ) d, ds[i]? = some d → ∃ m m', sc.msgs[i]? = some m ∧ sc'.msgs[i]? = some m' ∧
    Delivered m m' d
  rest : ∀ i : ℕ, ds.length ≤ i → sc'.msgs[i]? = sc.msgs[i]?
  zeroHdr : sc'.zeroHdr = sc.zeroHdr

/-- A thread's scratch, each time it comes to `recvmmsg`. Other threads may have
changed the table since, and the call may fail. -/
inductive Run (srcIdx : UInt32) : UdpReaderScratch → Prop
  | start {mem : Fin batch → Raw} {sc : UdpReaderScratch} (h : makeUdpReaderScratch mem = some sc) :
      Run srcIdx sc
  | failed {sc : UdpReaderScratch} (h : Run srcIdx sc) : Run srcIdx sc
  | batch {sc sc' sc'' : UdpReaderScratch} {ds : List Datagram} {t t' : ConnTable} {now : UInt64}
      {outs : List (List TunWrite)} (h : Run srcIdx sc) (hrecv : Recvmmsg sc ds sc')
      (hread : udpReader t srcIdx now sc' ds.length = some (t', sc'', outs)) : Run srcIdx sc''

/-- An entry that is ready for the next message. -/
structure Msg.Ready (m : Msg) : Prop where
  iovOff : m.iovOff = virtioNetHdrLen
  iovLen : m.iovLen = msgSize - virtioNetHdrLen
  namelen : m.namelen = sockaddrStorageLen
  controllen : m.controllen = cbufLen
  length_cbuf : m.cbuf.length = cbufLen
  length_buf : m.buf.length = msgSize
  header : m.buf.take virtioNetHdrLen = List.replicate virtioNetHdrLen 0

structure Ready (sc : UdpReaderScratch) : Prop where
  length : sc.msgs.length = batch
  msgs : ∀ m ∈ sc.msgs, m.Ready
  zeroHdr : sc.zeroHdr = List.replicate virtioNetHdrLen 0

end Gofra.UdpReader
