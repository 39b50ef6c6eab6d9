import Gofra.Parts

namespace Gofra.PacketTrace

open Lib.Buffer Gso GsoSegment GsoSplit Bounds Conns TunReader Sending Dispatch

/-- The bytes `off`, …, `off + len - 1` of the packet. -/
structure Access where
  off : ℕ
  len : ℕ
  deriving DecidableEq

def Access.Touches (a : Access) (j : ℕ) : Prop := a.off ≤ j ∧ j < a.off + a.len

/-- What the processing of a packet reads and writes of it, and the `size_t`
subtractions of lengths on the way, minuend first. -/
structure Trace where
  accesses : List Access
  lengths : List (ℕ × ℕ)
  deriving DecidableEq

instance : EmptyCollection Trace := ⟨⟨[], []⟩⟩

instance : Append Trace := ⟨fun a b ↦ ⟨a.accesses ++ b.accesses, a.lengths ++ b.lengths⟩⟩

structure Trace.InBounds (tr : Trace) (pktLen : ℕ) : Prop where
  lt : ∀ a ∈ tr.accesses, ∀ j, a.Touches j → j < pktLen
  le : ∀ s ∈ tr.lengths, s.2 ≤ s.1

def gsoNoneChecksumTrace (pktLen : ℕ) (csumStart csumOffset : UInt16) : Trace :=
  let csumAt := csumStart.toNat + csumOffset.toNat
  ⟨[⟨csumAt, 2⟩, ⟨csumAt, 1⟩, ⟨csumAt + 1, 1⟩, ⟨csumStart.toNat, subSize pktLen csumStart.toNat⟩, ⟨csumAt, 2⟩],
    [(pktLen, csumStart.toNat)]⟩

/-- One turn of the loop of `gsoSplit`: the IPv4 header, the TCP header, the
payload, and the two addresses of the pseudo-header. -/
def turnTrace (hdr : VirtioNetHdr) (nextDataAt nextEnd : ℕ) : Trace :=
  let iphLen := hdr.csumStart.toNat
  let hdrTotal := hdr.hdrLen.toNat
  let segDataLen := nextEnd - nextDataAt
  ⟨[⟨0, iphLen⟩, ⟨iphLen, subSize hdrTotal iphLen⟩, ⟨nextDataAt, segDataLen⟩,
      ⟨ipv4SrcAddrOffset, ipv4AddrLen⟩, ⟨ipv4SrcAddrOffset + ipv4AddrLen, ipv4AddrLen⟩],
    [(nextEnd, nextDataAt), (hdrTotal, iphLen), (hdrTotal + segDataLen, iphLen)]⟩

/-- The loop of `gsoSplit` as the source has it, with `none` if `fuel` turns were
not enough for it to return. -/
def gsoLoopTrace (inLen : ℕ) (hdr : VirtioNetHdr) (maxSegs : ℕ) : (fuel i nextDataAt : ℕ) → Option (ℤ × Trace)
  | 0, _, _ => none
  | fuel + 1, i, nextDataAt =>
    if nextDataAt < inLen then
      if i = maxSegs then some (-1, ∅)
      else do
        let nextEnd := min (nextDataAt + hdr.gsoSize.toNat) inLen
        let (ret, rest) ← gsoLoopTrace inLen hdr maxSegs fuel (i + 1) (nextDataAt + hdr.gsoSize.toNat)
        return (ret, turnTrace hdr nextDataAt nextEnd ++ rest)
    else some (castInt i, ∅)

def gsoSplitTrace (fuel inLen : ℕ) (hdr : VirtioNetHdr) (maxSegs : ℕ) : Option (ℤ × Trace) :=
  if hdr.gsoType ≠ virtioNetHdrGsoTcpv4 then some (-1, ∅)
  else do
    let transportCsumAt := hdr.csumStart.toNat + hdr.csumOffset.toNat
    let (ret, rest) ← gsoLoopTrace inLen hdr maxSegs fuel 0 hdr.hdrLen.toNat
    return (ret, ⟨[⟨10, 1⟩, ⟨11, 1⟩, ⟨transportCsumAt, 1⟩, ⟨transportCsumAt + 1, 1⟩,
      ⟨hdr.csumStart.toNat + 4, 4⟩], []⟩ ++ rest)

/-- The number of turns that the loop of `sendUso` takes from segment `i` on. -/
def usoTurns (partSize segs : ℕ) : (fuel i : ℕ) → Option ℕ
  | 0, _ => none
  | fuel + 1, i =>
    if i < segs then (usoTurns partSize segs fuel (min (i + partSize) segs)).map Nat.succ
    else some 0

def forwardTrace (fuel innerLen : ℕ) (hdr : VirtioNetHdr) : Option Trace :=
  if hdr.gsoType = virtioNetHdrGsoNone then
    if hdr.flags &&& virtioNetHdrFNeedsCsum ≠ 0 then
      some (gsoNoneChecksumTrace innerLen hdr.csumStart hdr.csumOffset)
    else some ∅
  else if hdr.gsoType = virtioNetHdrGsoTcpv4 then do
    let (segs, tr) ← gsoSplitTrace fuel innerLen hdr maxSegs
    if segs < 0 then return tr
    else
      let _ ← usoTurns ((segs.toNat + usoParts - 1) / usoParts) segs.toNat fuel 0
      return tr
  else some ∅

def tunReaderTrace (fuel : ℕ) (t : ConnTable) (data : List UInt8) : Option Trace :=
  if data.length < virtioNetHdrLen + 20 then some ∅
  else do
    let hdr ← decodeVirtioNetHdr data
    let inner := data.drop virtioNetHdrLen
    match (dstFromIPv4 inner (pktLen data)).bind t.lookup with
    | none => some ∅
    | some _ => forwardTrace fuel (pktLen data) hdr

theorem touches_lt_iff (a : Access) (n : ℕ) :
    (∀ j, a.Touches j → j < n) ↔ a.len = 0 ∨ a.off + a.len ≤ n := by
  constructor
  · intro h
    by_cases hlen : a.len = 0
    · exact .inl hlen
    · have hlast := h (a.off + a.len - 1) ⟨by omega, by omega⟩
      exact .inr (by omega)
  · rintro h j ⟨hle, hlt⟩
    omega

theorem Trace.inBounds_mk (accesses : List Access) (lengths : List (ℕ × ℕ)) (n : ℕ) :
    Trace.InBounds ⟨accesses, lengths⟩ n ↔
      (∀ a ∈ accesses, a.len = 0 ∨ a.off + a.len ≤ n) ∧ ∀ s ∈ lengths, s.2 ≤ s.1 := by
  constructor
  · intro h
    exact ⟨fun a ha ↦ (touches_lt_iff a n).mp (h.lt a ha), h.le⟩
  · rintro ⟨hlt, hle⟩
    exact ⟨fun a ha ↦ (touches_lt_iff a n).mpr (hlt a ha), hle⟩

theorem Trace.inBounds_empty (n : ℕ) : Trace.InBounds ∅ n :=
  ⟨fun _ ha ↦ absurd ha List.not_mem_nil, fun _ hs ↦ absurd hs List.not_mem_nil⟩

theorem Trace.inBounds_append (a b : Trace) (n : ℕ) :
    (a ++ b).InBounds n ↔ a.InBounds n ∧ b.InBounds n := by
  constructor
  · intro h
    exact ⟨⟨fun x hx ↦ h.lt x (List.mem_append_left _ hx), fun s hs ↦ h.le s (List.mem_append_left _ hs)⟩,
      ⟨fun x hx ↦ h.lt x (List.mem_append_right _ hx), fun s hs ↦ h.le s (List.mem_append_right _ hs)⟩⟩
  · rintro ⟨ha, hb⟩
    constructor
    case lt => exact fun x hx ↦ (List.mem_append.mp hx).elim (ha.lt x) (hb.lt x)
    case le => exact fun s hs ↦ (List.mem_append.mp hs).elim (ha.le s) (hb.le s)

theorem gsoNoneChecksumTrace_inBounds {pktLen : ℕ} (hlen : pktLen < 2 ^ 64) (csumStart csumOffset : UInt16) :
    (gsoNoneChecksumTrace pktLen csumStart csumOffset).InBounds pktLen ↔
      csumStart.toNat + csumOffset.toNat + 2 ≤ pktLen := by
  simp only [gsoNoneChecksumTrace, Trace.inBounds_mk, List.forall_mem_cons, List.not_mem_nil, false_implies,
    implies_true, and_true]
  constructor
  · rintro ⟨⟨hat, -⟩, -⟩
    omega
  · intro h
    have hsub := subSize_eq (show csumStart.toNat ≤ pktLen by omega) hlen
    omega

section Split

variable {inLen : ℕ} {hdr : VirtioNetHdr} {maxSegs : ℕ}

theorem turnTrace_inBounds {nextDataAt nextEnd : ℕ} (h20 : 20 ≤ inLen) (hin : hdr.hdrLen.toNat < inLen)
    (hcsum : hdr.csumStart.toNat ≤ hdr.hdrLen.toNat) (hle : nextDataAt ≤ nextEnd) (hend : nextEnd ≤ inLen) :
    (turnTrace hdr nextDataAt nextEnd).InBounds inLen := by
  have hlt := hdr.hdrLen.toNat_lt
  have hsub := subSize_eq hcsum (show hdr.hdrLen.toNat < 2 ^ 64 by omega)
  have hsrc : ipv4SrcAddrOffset = 12 := rfl
  have haddr : ipv4AddrLen = 4 := rfl
  simp only [turnTrace, Trace.inBounds_mk, List.forall_mem_cons, List.not_mem_nil, false_implies, implies_true,
    and_true, hsub]
  omega

/-- The loop returns within `maxSegs` turns. -/
theorem gsoLoopTrace_exists (hmax : maxSegs < 2 ^ 31) {fuel i : ℕ} (hi : i ≤ maxSegs) (hfuel : maxSegs - i < fuel)
    (nextDataAt : ℕ) : ∃ ret tr, gsoLoopTrace inLen hdr maxSegs fuel i nextDataAt = some (ret, tr) ∧
      (ret = -1 ∨ ∃ n ≤ maxSegs, ret = n) := by
  induction fuel generalizing i nextDataAt with
  | zero => omega
  | succ fuel ih =>
    rw [gsoLoopTrace]
    split
    · split
      · exact ⟨-1, ∅, rfl, .inl rfl⟩
      · obtain ⟨ret, tr, hrun, hret⟩ := ih (show i + 1 ≤ maxSegs by omega) (by omega)
          (nextDataAt + hdr.gsoSize.toNat)
        exact ⟨ret, _, by rw [hrun]; rfl, hret⟩
    · exact ⟨castInt i, ∅, rfl, .inr ⟨i, hi, castInt_of_lt (by omega)⟩⟩

theorem gsoLoopTrace_inBounds (h20 : 20 ≤ inLen)
    (hcsum : hdr.hdrLen.toNat < inLen → hdr.csumStart.toNat ≤ hdr.hdrLen.toNat) {fuel i nextDataAt : ℕ}
    (hnext : hdr.hdrLen.toNat ≤ nextDataAt) {ret : ℤ} {tr : Trace}
    (h : gsoLoopTrace inLen hdr maxSegs fuel i nextDataAt = some (ret, tr)) : tr.InBounds inLen := by
  induction fuel generalizing i nextDataAt ret tr with
  | zero => cases h
  | succ fuel ih =>
    rw [gsoLoopTrace] at h
    split at h
    · rename_i hlt
      have hin : hdr.hdrLen.toNat < inLen := by omega
      split at h
      · cases h
        exact Trace.inBounds_empty inLen
      · simp only [Option.bind_eq_bind, Option.bind_eq_some_iff] at h
        obtain ⟨⟨ret', rest⟩, hrest, heq⟩ := h
        cases heq
        refine (Trace.inBounds_append _ _ _).mpr ⟨?_, ih (by omega) hrest⟩
        exact turnTrace_inBounds h20 hin (hcsum hin) (by omega) (by omega)
    · obtain ⟨rfl, rfl⟩ := Prod.mk.inj (Option.some.inj h)
      exact Trace.inBounds_empty inLen

theorem gsoLoopTrace_lengths {fuel i nextDataAt : ℕ} (hlt : nextDataAt < inLen) (hi : i ≠ maxSegs) {ret : ℤ}
    {tr : Trace} (h : gsoLoopTrace inLen hdr maxSegs fuel i nextDataAt = some (ret, tr)) :
    (hdr.hdrLen.toNat, hdr.csumStart.toNat) ∈ tr.lengths := by
  cases fuel with
  | zero => cases h
  | succ fuel =>
    rw [gsoLoopTrace, if_pos hlt, if_neg hi] at h
    simp only [Option.bind_eq_bind, Option.bind_eq_some_iff] at h
    obtain ⟨⟨ret', rest⟩, -, heq⟩ := h
    cases heq
    exact List.mem_append_left _ (List.mem_cons_of_mem _ List.mem_cons_self)

/-- `gsoSplit` stays inside a packet of `inLen` bytes. -/
structure SplitFits (inLen : ℕ) (hdr : VirtioNetHdr) : Prop where
  csum_le : hdr.csumStart.toNat + hdr.csumOffset.toNat + 2 ≤ inLen
  seq_le : hdr.csumStart.toNat + 8 ≤ inLen
  start_le : hdr.hdrLen.toNat < inLen → hdr.csumStart.toNat ≤ hdr.hdrLen.toNat

theorem gsoSplitTrace_exists (hmax : maxSegs < 2 ^ 31) {fuel : ℕ} (hfuel : maxSegs < fuel) :
    ∃ ret tr, gsoSplitTrace fuel inLen hdr maxSegs = some (ret, tr) ∧ (ret = -1 ∨ ∃ n ≤ maxSegs, ret = n) := by
  rw [gsoSplitTrace]
  split
  · exact ⟨-1, ∅, rfl, .inl rfl⟩
  · obtain ⟨ret, tr, hloop, hret⟩ := @gsoLoopTrace_exists inLen hdr maxSegs hmax fuel 0 (Nat.zero_le _) hfuel
      hdr.hdrLen.toNat
    exact ⟨ret, _, by rw [hloop]; rfl, hret⟩

theorem gsoSplitTrace_inBounds (h20 : 20 ≤ inLen) (htcp : hdr.gsoType = virtioNetHdrGsoTcpv4)
    (hmax : 0 < maxSegs) {fuel : ℕ} {ret : ℤ} {tr : Trace}
    (h : gsoSplitTrace fuel inLen hdr maxSegs = some (ret, tr)) : tr.InBounds inLen ↔ SplitFits inLen hdr := by
  rw [gsoSplitTrace, if_neg (not_not.mpr htcp)] at h
  simp only [Option.bind_eq_bind, Option.bind_eq_some_iff] at h
  obtain ⟨⟨ret', rest⟩, hloop, heq⟩ := h
  cases heq
  rw [Trace.inBounds_append, Trace.inBounds_mk]
  simp only [List.forall_mem_cons, List.not_mem_nil, false_implies, implies_true, and_true]
  constructor
  · rintro ⟨⟨-, -, -, hcsum, hseq⟩, hrest⟩
    refine ⟨by omega, by omega, fun hlt ↦ ?_⟩
    exact hrest.le _ (gsoLoopTrace_lengths hlt hmax.ne hloop)
  · intro hfit
    have hcsum := hfit.csum_le
    have hseq := hfit.seq_le
    exact ⟨by omega, gsoLoopTrace_inBounds h20 hfit.start_le le_rfl hloop⟩

theorem usoTurns_exists {partSize segs : ℕ} (hp : 0 < segs → 1 ≤ partSize) {fuel i : ℕ} (h : segs - i < fuel) :
    ∃ m ≤ segs - i, usoTurns partSize segs fuel i = some m := by
  induction fuel generalizing i with
  | zero => omega
  | succ fuel ih =>
    rw [usoTurns]
    split
    · rename_i hlt
      have hpos := hp (by omega)
      obtain ⟨m, hm, hrun⟩ := @ih (min (i + partSize) segs) (by omega)
      exact ⟨m + 1, by omega, by rw [hrun]; rfl⟩
    · exact ⟨0, Nat.zero_le _, rfl⟩

end Split

/-- The parts of the vnet header that are used lie inside a packet of `pktLen`
bytes. -/
structure OffsetsFit (hdr : VirtioNetHdr) (pktLen : ℕ) : Prop where
  plain : hdr.gsoType = virtioNetHdrGsoNone → hdr.flags &&& virtioNetHdrFNeedsCsum ≠ 0 →
    hdr.csumStart.toNat + hdr.csumOffset.toNat + 2 ≤ pktLen
  super : hdr.gsoType = virtioNetHdrGsoTcpv4 → SplitFits pktLen hdr

theorem forwardTrace_exists (innerLen : ℕ) (hdr : VirtioNetHdr) {fuel : ℕ} (hfuel : maxSegs < fuel) :
    ∃ tr, forwardTrace fuel innerLen hdr = some tr := by
  rw [forwardTrace]
  split
  · split
    · exact ⟨_, rfl⟩
    · exact ⟨_, rfl⟩
  · split
    · obtain ⟨ret, tr, hsplit, hret⟩ := @gsoSplitTrace_exists innerLen hdr maxSegs (by decide) fuel hfuel
      simp only [Option.bind_eq_bind]
      rw [hsplit, Option.bind_some]
      rcases hret with rfl | ⟨segs, hsegs, rfl⟩
      · exact ⟨tr, rfl⟩
      · obtain ⟨m, -, hm⟩ := @usoTurns_exists ((segs + usoParts - 1) / usoParts) segs usoParts_pos fuel 0
          (by omega)
        exact ⟨tr, by rw [if_neg (by omega), Int.toNat_natCast, hm]; rfl⟩
    · exact ⟨_, rfl⟩

theorem forwardTrace_inBounds {fuel innerLen : ℕ} {hdr : VirtioNetHdr} {tr : Trace} (h20 : 20 ≤ innerLen)
    (hlen : innerLen < 2 ^ 64) (h : forwardTrace fuel innerLen hdr = some tr) :
    tr.InBounds innerLen ↔ OffsetsFit hdr innerLen := by
  have hne : virtioNetHdrGsoNone ≠ virtioNetHdrGsoTcpv4 := by decide
  rw [forwardTrace] at h
  split at h
  · rename_i hnone
    have hsuper (htcp : hdr.gsoType = virtioNetHdrGsoTcpv4) : SplitFits innerLen hdr :=
      absurd (hnone.symm.trans htcp) hne
    split at h
    · rename_i hneeds
      cases h
      rw [gsoNoneChecksumTrace_inBounds hlen]
      exact ⟨fun hat ↦ ⟨fun _ _ ↦ hat, hsuper⟩, fun hfit ↦ hfit.plain hnone hneeds⟩
    · rename_i hneeds
      cases h
      exact iff_of_true (Trace.inBounds_empty innerLen) ⟨fun _ hn ↦ absurd hn hneeds, hsuper⟩
  · rename_i hnone
    split at h
    · rename_i htcp
      simp only [Option.bind_eq_bind, Option.bind_eq_some_iff] at h
      obtain ⟨⟨ret, tr'⟩, hsplit, hsend⟩ := h
      have htr : tr' = tr := by
        dsimp only at hsend
        split at hsend
        · exact Option.some.inj hsend
        · obtain ⟨-, -, hsend⟩ := Option.bind_eq_some_iff.mp hsend
          exact Option.some.inj hsend
      rw [← htr, gsoSplitTrace_inBounds h20 htcp (by decide) hsplit]
      exact ⟨fun hfit ↦ ⟨fun hn ↦ absurd hn hnone, fun _ ↦ hfit⟩, fun hfit ↦ hfit.super htcp⟩
    · rename_i htcp
      cases h
      exact iff_of_true (Trace.inBounds_empty innerLen)
        ⟨fun hn ↦ absurd hn hnone, fun ht ↦ absurd ht htcp⟩

end Gofra.PacketTrace
