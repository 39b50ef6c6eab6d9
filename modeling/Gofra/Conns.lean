import Gofra.Peers

namespace Gofra.Conns

open Lib.LastWins Addr Peers

structure ConnSlot where
  srcAddr : SockAddr
  srcFd : ℤ
  srcIdx : UInt32
  dstAddr : SockAddr
  lastSeen : UInt64
  deriving DecidableEq

/-- A connection to one peer; its slots are places in the table's `allSlots`. -/
structure Conn where
  vip : UInt32
  timeoutMs : UInt64
  slots : List ℕ
  rr : UInt64
  deriving DecidableEq

structure ConnTable where
  timeoutMs : UInt64
  srcFds : List ℤ
  conns : List Conn
  allSlots : List ConnSlot
  byVip : AList fun _ : UInt64 ↦ ℕ
  byEntry : AList fun _ : UInt64 ↦ ℕ

def entryKey (srcIdx : UInt32) (sa : SockAddr) : UInt64 :=
  (srcIdx.toUInt64 <<< 32) ||| sa.sinAddr.toUInt64

/-- The liveness test of `Conn::next` and of `slotsStats`, in `u64`. -/
def alive (now ls timeoutMs : UInt64) : Bool := now - ls ≤ timeoutMs

/-- The slots a call looks at from `base` on, in order. -/
def scanOrder (n base : ℕ) : List ℕ := (List.range n).map fun k ↦ (base + k) % n

/-- `Conn::next`, where `load i` is the `lastSeen` that the call finds in the
connection's slot `i`. A connection without slots would divide by zero. -/
def Conn.next (c : Conn) (now : UInt64) (load : ℕ → UInt64) : Option (ℕ × Conn) :=
  let n := c.slots.length
  if n = 0 then none
  else
    let base := c.rr.toNat % n
    let i := ((scanOrder n base).find? fun i ↦ alive now (load i) c.timeoutMs).getD base
    c.slots[i]?.map fun slot ↦ (slot, { c with rr := c.rr + 1 })

def slotsFor (me : Peer) (srcFds : List ℤ) (startMs : UInt64) (dst : SockAddr) : List ConnSlot :=
  (me.dsts.zip srcFds).zipIdx.map fun src ↦
    { srcAddr := src.1.1, srcFd := src.1.2, srcIdx := UInt32.ofNat src.2, dstAddr := dst,
      lastSeen := startMs }

def slotsTo (me : Peer) (srcFds : List ℤ) (startMs : UInt64) (p : Peer) : List ConnSlot :=
  p.dsts.flatMap (slotsFor me srcFds startMs)

/-- The entries for a list of slots whose first one is at place `first`. -/
def slotEntries (first : ℕ) (slots : List ConnSlot) : List (UInt64 × ℕ) :=
  (slots.zipIdx first).map fun s ↦ (entryKey s.1.srcIdx s.1.dstAddr, s.2)

/-- The body of the construction loop, for a peer other than `me`. -/
def addConn (me : Peer) (startMs : UInt64) (t : ConnTable) (p : Peer) : ConnTable :=
  let slots := slotsTo me t.srcFds startMs p
  { t with
    allSlots := t.allSlots ++ slots
    byEntry := insertAll t.byEntry (slotEntries t.allSlots.length slots)
    conns := t.conns ++ [⟨p.vip, t.timeoutMs, List.range' t.allSlots.length slots.length, 0⟩]
    byVip := t.byVip.insert p.vip.toUInt64 t.conns.length }

/-- The sockets of one host: what its `i`-th `openUdpSocket` call gives, and its
clock when the table is built. -/
structure Host where
  openUdpSocket : ℕ → SockAddr → ℤ → ℤ → Except Error ℤ
  startMs : UInt64

def openAll (host : Host) (rcvBuf sndBuf : ℤ) : ℕ → List SockAddr → Except Error (List ℤ)
  | _, [] => .ok []
  | i, dst :: dsts => do
    let fd ← host.openUdpSocket i dst rcvBuf sndBuf
    let fds ← openAll host rcvBuf sndBuf (i + 1) dsts
    return fd :: fds

def ConnTable.create (host : Host) (peers : PeerTable) (self : Fin peers.peers.length)
    (rcvBuf sndBuf : ℤ) (timeoutMs : UInt64) : Except Error ConnTable := do
  let me := peers.at self
  let srcFds ← openAll host rcvBuf sndBuf 0 me.dsts
  return (peers.peers.eraseIdx self).foldl (addConn me host.startMs)
    ⟨timeoutMs, srcFds, [], [], ∅, ∅⟩

def ConnTable.lookup (t : ConnTable) (vip : UInt32) : Option ℕ := t.byVip.lookup vip.toUInt64

def ConnTable.lookupSlot (t : ConnTable) (srcIdx : UInt32) (peerSrc : SockAddr) : Option ℕ :=
  t.byEntry.lookup (entryKey srcIdx peerSrc)

/-- The loop of `visitSlotsImpl`; a slot is its place in `allSlots`. -/
def ConnTable.visitSlots {σ : Type} (t : ConnTable) (v : σ → ℕ → σ) (s : σ) : σ :=
  (List.range t.allSlots.length).foldl v s

theorem length_openAll {host : Host} {rcvBuf sndBuf : ℤ} {i : ℕ} {dsts : List SockAddr} {fds : List ℤ}
    (h : openAll host rcvBuf sndBuf i dsts = .ok fds) : fds.length = dsts.length := by
  induction dsts generalizing i fds with
  | nil =>
    cases h
    rfl
  | cons dst dsts ih =>
    rw [openAll] at h
    cases hfd : host.openUdpSocket i dst rcvBuf sndBuf with
    | error e =>
      rw [hfd] at h
      cases h
    | ok fd =>
      rw [hfd] at h
      cases hrest : openAll host rcvBuf sndBuf (i + 1) dsts with
      | error e =>
        simp only [hrest] at h
        cases h
      | ok fds' =>
        simp only [hrest] at h
        cases h
        simp only [List.length_cons, ih hrest]

theorem slotEntries_append (first : ℕ) (slots slots' : List ConnSlot) :
    slotEntries first (slots ++ slots') =
      slotEntries first slots ++ slotEntries (first + slots.length) slots' := by
  rw [slotEntries, List.zipIdx_append, List.map_append, slotEntries, slotEntries, Nat.add_comm]

/-- The table built for the peers `ps`. -/
structure Built (me : Peer) (fds : List ℤ) (startMs timeout : UInt64) (ps : List Peer)
    (t : ConnTable) : Prop where
  srcFds : t.srcFds = fds
  timeoutMs : t.timeoutMs = timeout
  allSlots : t.allSlots = ps.flatMap (slotsTo me fds startMs)
  byEntry : t.byEntry = insertAll ∅ (slotEntries 0 t.allSlots)
  byVip : t.byVip = insertAll ∅ (vipEntries ps)
  conns : ∀ k : ℕ, t.conns[k]? = ps[k]?.map fun p ↦ ⟨p.vip, timeout,
    List.range' ((ps.take k).flatMap (slotsTo me fds startMs)).length
      (slotsTo me fds startMs p).length, 0⟩

section Build

variable {me : Peer} {fds : List ℤ} {startMs timeout : UInt64}

theorem Built.length_conns {ps : List Peer} {t : ConnTable}
    (h : Built me fds startMs timeout ps t) : t.conns.length = ps.length := by
  apply Nat.le_antisymm
  · rw [← List.getElem?_eq_none_iff, h.conns, List.getElem?_eq_none le_rfl, Option.map_none]
  · rw [← List.getElem?_eq_none_iff]
    have hnone := h.conns t.conns.length
    rw [List.getElem?_eq_none le_rfl] at hnone
    exact Option.map_eq_none_iff.mp hnone.symm

theorem addConn_built {ps : List Peer} {t : ConnTable} (h : Built me fds startMs timeout ps t)
    (p : Peer) : Built me fds startMs timeout (ps ++ [p]) (addConn me startMs t p) where
  srcFds := h.srcFds
  timeoutMs := h.timeoutMs
  allSlots := by
    simp only [addConn, h.srcFds, h.allSlots, List.flatMap_append, List.flatMap_singleton]
  byEntry := by
    simp only [addConn, slotEntries_append, insertAll_append, Nat.zero_add, h.byEntry]
  byVip := by
    rw [vipEntries, List.zipIdx_append, List.map_append, insertAll_append, ← vipEntries, ← h.byVip,
      Nat.zero_add, ← h.length_conns]
    rfl
  conns k := by
    simp only [addConn, h.srcFds, h.timeoutMs]
    rcases Nat.lt_or_ge k ps.length with hk | hk
    · rw [List.getElem?_append_left (by rw [h.length_conns]; exact hk), h.conns,
        List.getElem?_append_left hk, List.take_append_of_le_length (by omega)]
    · rw [List.getElem?_append_right (by rw [h.length_conns]; exact hk),
        List.getElem?_append_right hk, h.length_conns, List.getElem?_singleton, List.getElem?_singleton]
      by_cases h0 : k - ps.length = 0
      · obtain rfl : k = ps.length := by omega
        rw [if_pos h0, if_pos h0, Option.map_some, List.take_left', h.allSlots]
        rfl
      · rw [if_neg h0, if_neg h0, Option.map_none]

theorem foldl_addConn_built {ps ps' : List Peer} {t : ConnTable}
    (h : Built me fds startMs timeout ps t) :
    Built me fds startMs timeout (ps ++ ps') (ps'.foldl (addConn me startMs) t) := by
  induction ps' generalizing ps t with
  | nil => simpa using h
  | cons p ps' ih => simpa using ih (addConn_built h p)

end Build

theorem ConnTable.create_built {host : Host} {peers : PeerTable} {self : Fin peers.peers.length}
    {rcvBuf sndBuf : ℤ} {timeoutMs : UInt64} {t : ConnTable}
    (h : ConnTable.create host peers self rcvBuf sndBuf timeoutMs = .ok t) :
    ∃ srcFds : List ℤ, srcFds.length = (peers.at self).dsts.length ∧
      Built (peers.at self) srcFds host.startMs timeoutMs (peers.peers.eraseIdx self) t := by
  rw [ConnTable.create] at h
  cases hfds : openAll host rcvBuf sndBuf 0 (peers.at self).dsts with
  | error e =>
    simp only [hfds] at h
    cases h
  | ok srcFds =>
    simp only [hfds] at h
    cases h
    refine ⟨srcFds, length_openAll hfds, ?_⟩
    have hnil : Built (peers.at self) srcFds host.startMs timeoutMs []
        ⟨timeoutMs, srcFds, [], [], ∅, ∅⟩ := ⟨rfl, rfl, rfl, rfl, rfl, fun k ↦ rfl⟩
    exact foldl_addConn_built hnil

end Gofra.Conns
