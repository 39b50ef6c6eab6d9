import Gofra.GsoSplit
import Gofra.Conns

namespace Gofra.TunReader

open Lib.Buffer Addr Gso GsoSplit Conns

def maxSegs : ℕ := 64

def segSize : ℕ := 2048

def readSize : ℕ := 10 + 65535 + 128

structure Scratch where
  readBuf : List UInt8
  segBufs : List (List UInt8)
  segSizes : List ℕ
  length_readBuf : readBuf.length = readSize
  segBufs_eq : segBufs.map List.length = List.replicate maxSegs segSize
  length_segSizes : segSizes.length = maxSegs

theorem Scratch.segBuf (sc : Scratch) {i : ℕ} (hi : i < maxSegs) :
    ∃ b, sc.segBufs[i]? = some b ∧ b.length = segSize := by
  have h := congrArg (·[i]?) sc.segBufs_eq
  simp only [List.getElem?_map, List.getElem?_replicate, if_pos hi] at h
  exact Option.map_eq_some_iff.mp h

/-- The scratch after `read` has put `data` into `readBuf`; what does not fit is lost. -/
def Scratch.read (sc : Scratch) (data : List UInt8) : Scratch :=
  { sc with
    readBuf := data.take readSize ++ sc.readBuf.drop data.length
    length_readBuf := by
      have h := sc.length_readBuf
      rw [List.length_append, List.length_take, List.length_drop]
      omega }

/-- `inner`: the packet, and whatever lies behind it in `readBuf`. -/
def Scratch.inner (sc : Scratch) : List UInt8 := sc.readBuf.drop virtioNetHdrLen

def Scratch.setInner (sc : Scratch) (inner : List UInt8) (h : inner.length = sc.inner.length) :
    Scratch :=
  { sc with
    readBuf := sc.readBuf.take virtioNetHdrLen ++ inner
    length_readBuf := by
      rw [List.length_append, h, Scratch.inner, ← List.length_append, List.take_append_drop,
        sc.length_readBuf] }

def Scratch.split (sc : Scratch) (innerLen : ℕ) (hdr : VirtioNetHdr) : Option (ℤ × Scratch) :=
  (gsoSplit sc.inner innerLen hdr sc.segBufs sc.segSizes maxSegs).pmap
    (fun r h ↦ (r.ret, { sc.setInner r.inp (length_gsoSplit h).1 with
      segBufs := r.outBufs
      segSizes := r.outSizes
      segBufs_eq := (length_gsoSplit h).2.1.trans sc.segBufs_eq
      length_segSizes := (length_gsoSplit h).2.2.trans sc.length_segSizes }))
    (fun _ h ↦ h)

def Scratch.noneChecksum (sc : Scratch) (innerLen : ℕ) (hdr : VirtioNetHdr) : Option Scratch :=
  (gsoNoneChecksum sc.inner innerLen hdr.csumStart hdr.csumOffset).pmap
    (fun inner h ↦ sc.setInner inner (length_gsoNoneChecksum h)) (fun _ h ↦ h)

theorem Scratch.setInner_inner (sc : Scratch) (inner : List UInt8) (h : inner.length = sc.inner.length) :
    (sc.setInner inner h).inner = inner := by
  have hlen : (sc.readBuf.take virtioNetHdrLen).length = virtioNetHdrLen := by
    rw [List.length_take, sc.length_readBuf]
    rfl
  change (sc.readBuf.take virtioNetHdrLen ++ inner).drop virtioNetHdrLen = inner
  exact List.drop_left' hlen

theorem Scratch.split_of_gsoSplit {sc : Scratch} {innerLen : ℕ} {hdr : VirtioNetHdr} {r : Split}
    (h : gsoSplit sc.inner innerLen hdr sc.segBufs sc.segSizes maxSegs = some r) :
    ∃ sc', sc.split innerLen hdr = some (r.ret, sc') ∧ sc'.segBufs = r.outBufs ∧
      sc'.segSizes = r.outSizes :=
  ⟨_, Option.pmap_some' h, rfl, rfl⟩

theorem Scratch.noneChecksum_of_gsoNoneChecksum {sc : Scratch} {innerLen : ℕ} {hdr : VirtioNetHdr}
    {inner : List UInt8} (h : gsoNoneChecksum sc.inner innerLen hdr.csumStart hdr.csumOffset = some inner) :
    ∃ sc', sc.noneChecksum innerLen hdr = some sc' ∧ sc'.inner = inner :=
  ⟨_, Option.pmap_some' h, sc.setInner_inner inner _⟩

/-- A `sendto` or `sendmsg` call: the slot it was made for, its socket and
destination, the pieces of its payload and its `UDP_SEGMENT` size. -/
structure Send where
  slot : ℕ
  srcFd : ℤ
  dstAddr : SockAddr
  iov : List (List UInt8)
  segment : Option UInt16
  deriving DecidableEq

/-- What other threads and the clock contribute to the processing of one read:
the time, and the `lastSeen` values that each `Conn::next` call finds. -/
structure Env where
  now : UInt64
  load : ℕ → ℕ → UInt64

def takeSlot (t : ConnTable) (k : ℕ) (env : Env) (call : ℕ) : Option (ConnTable × ℕ × ConnSlot) := do
  let conn ← t.conns[k]?
  let (slot, conn') ← conn.next env.now (env.load call)
  let s ← t.allSlots[slot]?
  return ({ t with conns := t.conns.set k conn' }, slot, s)

def sendOne (t : ConnTable) (k : ℕ) (env : Env) (pkt : List UInt8) : Option (ConnTable × List Send) := do
  let (t, slot, s) ← takeSlot t k env 0
  return (t, [⟨slot, s.srcFd, s.dstAddr, [pkt], none⟩])

def usoParts : ℕ := 8

/-- What the `iovec`s of segments `i`, …, `stop - 1` point to. -/
def iovs (segBufs : List (List UInt8)) (segSizes : List ℕ) (i stop : ℕ) : Option (List (List UInt8)) :=
  (List.range' i (stop - i)).mapM fun k ↦ do slice (← segBufs[k]?) 0 (← segSizes[k]?)

/-- The loop of `sendUso` from segment `i` on; a turn takes at least one segment. -/
def usoLoop (k : ℕ) (env : Env) (segBufs : List (List UInt8)) (segSizes : List ℕ) (gsoSize : UInt16)
    (partSize segs : ℕ) : (fuel i call : ℕ) → ConnTable → Option (ConnTable × List Send)
  | 0, _, _, t => some (t, [])
  | fuel + 1, i, call, t =>
    if i < segs then do
      let stop := min (i + partSize) segs
      let iov ← iovs segBufs segSizes i stop
      let (t, slot, s) ← takeSlot t k env call
      let (t, rest) ← usoLoop k env segBufs segSizes gsoSize partSize segs fuel stop (call + 1) t
      return (t, ⟨slot, s.srcFd, s.dstAddr, iov, some gsoSize⟩ :: rest)
    else some (t, [])

def sendUso (t : ConnTable) (k : ℕ) (env : Env) (segBufs : List (List UInt8)) (segSizes : List ℕ)
    (segs : ℕ) : Option (ConnTable × List Send) := do
  let partSize := (segs + usoParts - 1) / usoParts
  let gsoSize := UInt16.ofNat (← segSizes[0]?)
  usoLoop k env segBufs segSizes gsoSize partSize segs segs 0 0 t

def dstFromIPv4 (pkt : List UInt8) (len : ℕ) : Option UInt32 :=
  if len < 20 then none
  else if pkt.getD 0 0 >>> 4 ≠ 4 then none
  else some (be32At pkt 16)

structure State where
  conns : ConnTable
  sc : Scratch

/-- The checksum of a plain packet, where the kernel has left it to us. -/
def Scratch.completeChecksum (sc : Scratch) (innerLen : ℕ) (hdr : VirtioNetHdr) : Option Scratch :=
  if hdr.flags &&& virtioNetHdrFNeedsCsum ≠ 0 then sc.noneChecksum innerLen hdr else some sc

def forward (st : State) (k : ℕ) (env : Env) (innerLen : ℕ) (hdr : VirtioNetHdr) :
    Option (State × List Send) :=
  if hdr.gsoType = virtioNetHdrGsoNone then do
    let sc ← st.sc.completeChecksum innerLen hdr
    let (conns, sent) ← sendOne st.conns k env (sc.inner.take innerLen)
    return (⟨conns, sc⟩, sent)
  else if hdr.gsoType = virtioNetHdrGsoTcpv4 then do
    let (segs, sc) ← st.sc.split innerLen hdr
    if segs < 0 then return (⟨st.conns, sc⟩, [])
    else
      let (conns, sent) ← sendUso st.conns k env sc.segBufs sc.segSizes segs.toNat
      return (⟨conns, sc⟩, sent)
  else some (st, [])

/-- The body of the `tunReader` loop for a read that returns `data`. -/
def tunReader (st : State) (env : Env) (data : List UInt8) : Option (State × List Send) :=
  let n := min data.length readSize
  let st := { st with sc := st.sc.read data }
  if n < virtioNetHdrLen + 20 then some (st, [])
  else do
    let hdr ← decodeVirtioNetHdr st.sc.readBuf
    let innerLen := n - virtioNetHdrLen
    match (dstFromIPv4 st.sc.inner innerLen).bind st.conns.lookup with
    | none => some (st, [])
    | some k => forward st k env innerLen hdr

end Gofra.TunReader
