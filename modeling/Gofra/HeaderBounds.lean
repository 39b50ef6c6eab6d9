import Gofra.PacketTrace
import Gofra.Routing

namespace Gofra.HeaderBounds

open Lib.Buffer Addr Peers Gso GsoSegment GsoSplit Segmentation Bounds Conns NumericStl TunReader Sending Dispatch
open PacketTrace

theorem gsoNoneChecksum_fits {pkt r : List UInt8} {pktLen : ℕ} {csumStart csumOffset : UInt16}
    (h : gsoNoneChecksum pkt pktLen csumStart csumOffset = some r) :
    csumStart.toNat + csumOffset.toNat + 2 ≤ pkt.length := by
  unfold gsoNoneChecksum at h
  simp only [Option.bind_eq_bind, Option.bind_eq_some_iff] at h
  obtain ⟨_, -, p₁, h₁, _, h₂, -⟩ := h
  have hlen := length_of_store h₁
  have hfit : csumStart.toNat + csumOffset.toNat + 1 + 1 ≤ p₁.length := (store_eq_some.mp h₂).1
  omega

/-- On the bytes of the packet alone `gsoNoneChecksum` succeeds exactly when its
trace is in bounds. -/
theorem gsoNoneChecksum_iff_inBounds {pkt : List UInt8} (hlen : pkt.length < 2 ^ 64)
    (csumStart csumOffset : UInt16) : (∃ r, gsoNoneChecksum pkt pkt.length csumStart csumOffset = some r) ↔
      (gsoNoneChecksumTrace pkt.length csumStart csumOffset).InBounds pkt.length := by
  rw [gsoNoneChecksumTrace_inBounds hlen]
  constructor
  · rintro ⟨r, hr⟩
    exact gsoNoneChecksum_fits hr
  · intro h
    exact gsoNoneChecksum_total h le_rfl hlen

section Split

variable {inp : List UInt8} {hdr : VirtioNetHdr}

theorem getBE32_fits {p : List UInt8} {off : ℕ} {v : UInt32} (h : getBE32 p off = some v) :
    off + 4 ≤ p.length := by
  unfold getBE32 at h
  simp only [Option.bind_eq_bind, Option.bind_eq_some_iff] at h
  obtain ⟨_, -, _, -, _, -, b, hb, -⟩ := h
  obtain ⟨hlt, -⟩ := List.getElem?_eq_some_iff.mp hb
  omega

theorem writeTransport_start_le {inLen i nextDataAt nextEnd : ℕ} {seq : UInt32} {out out' : List UInt8}
    (hin : inp.length < 2 ^ 63) (h : writeTransport inp inLen hdr seq i nextDataAt nextEnd out = some out') :
    hdr.csumStart.toNat ≤ hdr.hdrLen.toNat := by
  have hlt := hdr.csumStart.toNat_lt
  unfold writeTransport at h
  simp only [Option.bind_eq_bind, Option.bind_eq_some_iff] at h
  obtain ⟨_, hslice, -⟩ := h
  have hfit := (slice_eq_some.mp hslice).1
  unfold subSize at hfit
  omega

theorem gsoLoop_start_le (hin : inp.length < 2 ^ 63) {inLen room i nextDataAt : ℕ} {seq : UInt32}
    {outBufs : List (List UInt8)} {outSizes : List ℕ} {r : Split} (hlt : nextDataAt < inLen)
    (h : gsoLoop inp inLen hdr seq (room + 1) i nextDataAt outBufs outSizes = some r) :
    hdr.csumStart.toNat ≤ hdr.hdrLen.toNat := by
  rw [gsoLoop, if_pos hlt] at h
  simp only [Option.bind_eq_bind, Option.bind_eq_some_iff] at h
  obtain ⟨_, -, _, -, _, -, _, htr, -⟩ := h
  exact writeTransport_start_le hin htr

theorem gsoSplit_fits {maxSegs : ℕ} (hin : inp.length < 2 ^ 63) (htcp : hdr.gsoType = virtioNetHdrGsoTcpv4)
    (hmax : 0 < maxSegs) {outBufs : List (List UInt8)} {outSizes : List ℕ} {r : Split}
    (h : gsoSplit inp inp.length hdr outBufs outSizes maxSegs = some r) : SplitFits inp.length hdr := by
  rw [gsoSplit, if_neg (not_not.mpr htcp)] at h
  simp only [Option.bind_eq_bind, Option.bind_eq_some_iff] at h
  obtain ⟨i₁, h₁, i₂, h₂, i₃, h₃, i₄, h₄, seq, hseq, hloop⟩ := h
  have hl₁ := length_of_store h₁
  have hl₂ := length_of_store h₂
  have hl₃ := length_of_store h₃
  have hl₄ := length_of_store h₄
  have hcsum : hdr.csumStart.toNat + hdr.csumOffset.toNat + 1 + 1 ≤ i₃.length := (store_eq_some.mp h₄).1
  have hfits := getBE32_fits hseq
  refine ⟨by omega, by omega, fun hlt ↦ ?_⟩
  obtain ⟨room, rfl⟩ := Nat.exists_eq_succ_of_ne_zero hmax.ne'
  exact gsoLoop_start_le (by omega) hlt hloop

theorem clearFinPsh_fits {out out' : List UInt8} {iphLen nextEnd inLen : ℕ}
    (h : clearFinPsh iphLen nextEnd inLen out = some out') (hne : nextEnd ≠ inLen) :
    iphLen + tcpFlagsOffset < out.length := by
  rw [clearFinPsh, if_pos hne] at h
  obtain ⟨_, hget, -⟩ := Option.bind_eq_some_iff.mp h
  exact (List.getElem?_eq_some_iff.mp hget).1

/-- The room that the segments of a packet of `pktLen` bytes need in `segBufs`. -/
structure SegmentFits (hdr : VirtioNetHdr) (pktLen : ℕ) : Prop where
  fits : Fits hdr segSize (min hdr.gsoSize.toNat (pktLen - hdr.hdrLen.toNat))
    (pktLen ≤ hdr.hdrLen.toNat + hdr.gsoSize.toNat)
  csum_le : hdr.csumStart.toNat + hdr.csumOffset.toNat + 2 ≤ segSize

theorem writeTransport_needs {inLen i nextDataAt nextEnd : ℕ} {seq : UInt32} {out out' : List UInt8}
    (h : writeTransport inp inLen hdr seq i nextDataAt nextEnd out = some out')
    (hle : hdr.csumStart.toNat ≤ hdr.hdrLen.toNat) (hsize : nextEnd - nextDataAt < 2 ^ 16) :
    Fits hdr out.length (nextEnd - nextDataAt) (nextEnd = inLen) ∧
      hdr.csumStart.toNat + hdr.csumOffset.toNat + 2 ≤ out.length := by
  have hseg := writeTransport_fits h hle hsize
  have hlen := length_writeTransport h
  unfold writeTransport at h
  simp only [Option.bind_eq_bind, Option.bind_eq_some_iff] at h
  obtain ⟨_, -, _, h₁, _, h₂, _, h₃, _, -, _, -, _, -, _, -, _, -, h₄⟩ := h
  have hl₁ := length_of_store h₁
  have hl₂ := length_of_store h₂
  have hl₄ := length_of_store h₄
  have hseq : hdr.csumStart.toNat + 4 + 4 ≤ _ := (store_eq_some.mp h₂).1
  have hcsum : hdr.csumStart.toNat + hdr.csumOffset.toNat + 2 ≤ _ := (store_eq_some.mp h₄).1
  refine ⟨⟨hseg, by omega, fun hlast ↦ ?_⟩, by omega⟩
  have hflags := clearFinPsh_fits h₃ (by simpa using hlast)
  rw [tcpFlagsOffset] at hflags
  omega

/-- The first turn of the loop already needs the room of the longest segment. -/
theorem gsoLoop_segmentFits {sc : Scratch} {inLen room : ℕ} {seq : UInt32} {r : Split}
    (hle : hdr.csumStart.toNat ≤ hdr.hdrLen.toNat) (hlt : hdr.hdrLen.toNat < inLen)
    (h : gsoLoop inp inLen hdr seq (room + 1) 0 hdr.hdrLen.toNat sc.segBufs sc.segSizes = some r) :
    SegmentFits hdr inLen := by
  have hg := hdr.gsoSize.toNat_lt
  obtain ⟨nextEnd, hend⟩ : ∃ e, e = min (hdr.hdrLen.toNat + hdr.gsoSize.toNat) inLen := ⟨_, rfl⟩
  have hlast : (nextEnd = inLen) = (inLen ≤ hdr.hdrLen.toNat + hdr.gsoSize.toNat) := propext (by omega)
  have hlen : nextEnd - hdr.hdrLen.toNat = min hdr.gsoSize.toNat (inLen - hdr.hdrLen.toNat) := by omega
  rw [gsoLoop, if_pos hlt] at h
  simp only [Option.bind_eq_bind, Option.bind_eq_some_iff, ← hend] at h
  obtain ⟨_, -, b, hb, o, ho, _, htr, -⟩ := h
  obtain ⟨b', hb', hcap⟩ := sc.segBuf (show 0 < maxSegs by decide)
  obtain rfl := Option.some.inj (hb.symm.trans hb')
  have hout := (length_writeIpv4Header ho).trans hcap
  obtain ⟨hfits, hcsum⟩ := writeTransport_needs htr hle (by omega)
  rw [hout, hlen] at hfits
  simp only [hlast] at hfits
  exact ⟨hfits, hout ▸ hcsum⟩

theorem gsoSplit_segmentFits {sc : Scratch} {inLen : ℕ} {r : Split} (htcp : hdr.gsoType = virtioNetHdrGsoTcpv4)
    (hle : hdr.csumStart.toNat ≤ hdr.hdrLen.toNat) (hlt : hdr.hdrLen.toNat < inLen)
    (h : gsoSplit inp inLen hdr sc.segBufs sc.segSizes maxSegs = some r) : SegmentFits hdr inLen := by
  rw [gsoSplit, if_neg (not_not.mpr htcp)] at h
  simp only [Option.bind_eq_bind, Option.bind_eq_some_iff] at h
  obtain ⟨_, -, _, -, _, -, _, -, _, -, hloop⟩ := h
  exact gsoLoop_segmentFits hle hlt hloop

theorem SegmentFits.placed {pktLen : ℕ} (h : SegmentFits hdr pktLen)
    (hle : hdr.csumStart.toNat ≤ hdr.hdrLen.toNat) : Placed hdr segSize :=
  ⟨by decide, h.csum_le, hle⟩

/-- On the bytes of the packet alone `gsoSplit` succeeds exactly when its trace
is in bounds and the segments fit `segBufs`. -/
theorem gsoSplit_iff_inBounds {sc : Scratch} {fuel : ℕ} (h20 : 20 ≤ inp.length) (hin : inp.length < 2 ^ 63)
    (htcp : hdr.gsoType = virtioNetHdrGsoTcpv4) {ret : ℤ} {tr : Trace}
    (htrace : gsoSplitTrace fuel inp.length hdr maxSegs = some (ret, tr)) :
    (∃ r, gsoSplit inp inp.length hdr sc.segBufs sc.segSizes maxSegs = some r) ↔
      tr.InBounds inp.length ∧ (hdr.hdrLen.toNat < inp.length → SegmentFits hdr inp.length) := by
  rw [gsoSplitTrace_inBounds h20 htcp (by decide) htrace]
  constructor
  · rintro ⟨r, hr⟩
    have hfit := gsoSplit_fits hin htcp (by decide) hr
    exact ⟨hfit, fun hlt ↦ gsoSplit_segmentFits htcp (hfit.start_le hlt) hlt hr⟩
  · rintro ⟨hfit, hseg⟩
    obtain ⟨r, hr, -⟩ := gsoSplit_total h20 le_rfl hfit.csum_le hfit.seq_le (show maxSegs < 2 ^ 31 by decide)
      (fun hlt ↦ (hseg hlt).placed (hfit.start_le hlt)) (fun hlt ↦ (hseg hlt).fits) (fun j hj ↦ sc.segBuf hj)
      sc.length_segSizes.ge
    exact ⟨r, hr⟩

theorem gsoLoop_done {inLen nextDataAt : ℕ} (hle : inLen ≤ nextDataAt) (seq : UInt32) (room i : ℕ)
    (outBufs : List (List UInt8)) (outSizes : List ℕ) :
    gsoLoop inp inLen hdr seq room i nextDataAt outBufs outSizes = some ⟨castInt i, inp, outBufs, outSizes⟩ := by
  cases room with
  | zero => rw [gsoLoop, if_neg (by omega)]
  | succ room => rw [gsoLoop, if_neg (by omega)]

/-- A packet without payload gives no segment. -/
theorem split_done {sc sc' : Scratch} {inLen : ℕ} {ret : ℤ} (htcp : hdr.gsoType = virtioNetHdrGsoTcpv4)
    (hle : inLen ≤ hdr.hdrLen.toNat) (h : sc.split inLen hdr = some (ret, sc')) : ret = 0 := by
  obtain ⟨r, hr, -, heq⟩ := Option.pmap_eq_some_iff.mp h
  obtain ⟨rfl, -⟩ := Prod.mk.inj heq
  rw [gsoSplit, if_neg (not_not.mpr htcp)] at hr
  simp only [Option.bind_eq_bind, Option.bind_eq_some_iff] at hr
  obtain ⟨_, -, _, -, _, -, _, -, _, -, hloop⟩ := hr
  rw [gsoLoop_done hle] at hloop
  rw [← Option.some.inj hloop]
  rfl

end Split

section Read

variable {st : State} {data : List UInt8} {hdr : VirtioNetHdr}

theorem tunReaderTrace_eq {t : ConnTable} (hlen : 30 ≤ data.length) (h4 : IsIPv4 data)
    (hvip : t.lookup (vipOf data) ≠ none) (hdec : decodeVirtioNetHdr data = some hdr) (fuel : ℕ) :
    tunReaderTrace fuel t data = forwardTrace fuel (pktLen data) hdr := by
  have hvnet : virtioNetHdrLen = 10 := rfl
  have hread : readSize = 65673 := rfl
  have hpkt : pktLen data = min data.length readSize - 10 := rfl
  obtain ⟨k, hk⟩ := Option.ne_none_iff_exists'.mp hvip
  have hdst : dstFromIPv4 (data.drop virtioNetHdrLen) (pktLen data) = some (vipOf data) := by
    rw [dstFromIPv4, if_neg (by omega), if_neg (not_not.mpr (by exact h4))]
    rfl
  rw [tunReaderTrace, if_neg (by omega), hdec]
  simp only [Option.bind_eq_bind]
  rw [Option.bind_some, hdst, Option.bind_some, hk]

theorem tunReaderTrace_inBounds {t : ConnTable} (hlen : 30 ≤ data.length) (h4 : IsIPv4 data)
    (hvip : t.lookup (vipOf data) ≠ none) (hdec : decodeVirtioNetHdr data = some hdr) :
    (∃ fuel tr, tunReaderTrace fuel t data = some tr ∧ tr.InBounds (pktLen data)) ↔
      OffsetsFit hdr (pktLen data) := by
  have hle := pktLen_le data
  have hread : readSize = 65673 := rfl
  have hpkt : pktLen data = min data.length readSize - 10 := rfl
  simp only [tunReaderTrace_eq hlen h4 hvip hdec]
  constructor
  · rintro ⟨fuel, tr, hrun, hin⟩
    exact (forwardTrace_inBounds (by omega) (by omega) hrun).mp hin
  · intro hfit
    obtain ⟨tr, hrun⟩ := forwardTrace_exists (pktLen data) hdr (Nat.lt_succ_self maxSegs)
    exact ⟨_, tr, hrun, (forwardTrace_inBounds (by omega) (by omega) hrun).mpr hfit⟩

/-- What the read is handed to works on the bytes of the packet alone. -/
structure WorksAlone (sc : Scratch) (pkt : List UInt8) (hdr : VirtioNetHdr) : Prop where
  plain : hdr.gsoType = virtioNetHdrGsoNone → hdr.flags &&& virtioNetHdrFNeedsCsum ≠ 0 →
    ∃ r, gsoNoneChecksum pkt pkt.length hdr.csumStart hdr.csumOffset = some r
  super : hdr.gsoType = virtioNetHdrGsoTcpv4 →
    ∃ r, gsoSplit pkt pkt.length hdr sc.segBufs sc.segSizes maxSegs = some r

/-- The header fits the packet, and the segments it asks for fit `segBufs`. -/
structure HeaderFits (hdr : VirtioNetHdr) (pktLen : ℕ) : Prop extends OffsetsFit hdr pktLen where
  segments : hdr.gsoType = virtioNetHdrGsoTcpv4 → hdr.hdrLen.toNat < pktLen → SegmentFits hdr pktLen

theorem worksAlone_iff {pkt : List UInt8} (h20 : 20 ≤ pkt.length) (hlen : pkt.length < 2 ^ 63) (sc : Scratch) :
    WorksAlone sc pkt hdr ↔ HeaderFits hdr pkt.length := by
  have hplain := gsoNoneChecksum_iff_inBounds (show pkt.length < 2 ^ 64 by omega) hdr.csumStart hdr.csumOffset
  rw [gsoNoneChecksumTrace_inBounds (by omega)] at hplain
  have hsuper (htcp : hdr.gsoType = virtioNetHdrGsoTcpv4) :
      (∃ r, gsoSplit pkt pkt.length hdr sc.segBufs sc.segSizes maxSegs = some r) ↔
        SplitFits pkt.length hdr ∧ (hdr.hdrLen.toNat < pkt.length → SegmentFits hdr pkt.length) := by
    obtain ⟨ret, tr, htrace, -⟩ := @gsoSplitTrace_exists pkt.length hdr maxSegs (by decide) _
      (Nat.lt_succ_self maxSegs)
    rw [gsoSplit_iff_inBounds h20 hlen htcp htrace, gsoSplitTrace_inBounds h20 htcp (by decide) htrace]
  constructor
  · intro h
    exact ⟨⟨fun hn hc ↦ hplain.mp (h.plain hn hc), fun ht ↦ ((hsuper ht).mp (h.super ht)).1⟩,
      fun ht ↦ ((hsuper ht).mp (h.super ht)).2⟩
  · intro h
    exact ⟨fun hn hc ↦ hplain.mpr (h.plain hn hc), fun ht ↦ (hsuper ht).mpr ⟨h.super ht, h.segments ht⟩⟩

/-- The header asks for something outside its packet. -/
inductive Inconsistent (hdr : VirtioNetHdr) (pktLen : ℕ) : Prop
  | plain (hnone : hdr.gsoType = virtioNetHdrGsoNone) (hneeds : hdr.flags &&& virtioNetHdrFNeedsCsum ≠ 0)
      (hcsum : pktLen < hdr.csumStart.toNat + hdr.csumOffset.toNat + 2)
  | checksum (htcp : hdr.gsoType = virtioNetHdrGsoTcpv4)
      (hcsum : pktLen < hdr.csumStart.toNat + hdr.csumOffset.toNat + 2)
  | headers (htcp : hdr.gsoType = virtioNetHdrGsoTcpv4) (hhdr : pktLen < hdr.hdrLen.toNat)
  | transport (htcp : hdr.gsoType = virtioNetHdrGsoTcpv4) (hstart : hdr.hdrLen.toNat < hdr.csumStart.toNat)

/-- No header leads out of the packet: the processing of the read ends with a
result and stays inside it, so that it needs no byte but the packet's, and a
header that asks for more has it dropped. -/
structure Guarded (st : State) (data : List UInt8) (hdr : VirtioNetHdr) : Prop where
  contained : ∃ fuel tr, tunReaderTrace fuel st.conns data = some tr ∧ tr.InBounds (pktLen data)
  alone : WorksAlone st.sc ((st.sc.read data).inner.take (pktLen data)) hdr
  processed : ∀ env, ∃ st' sent, tunReader st env data = some (st', sent)
  dropped : Inconsistent hdr (pktLen data) → ∀ env, ∃ st', tunReader st env data = some (st', [])

theorem HeaderFits.forwarded (h20 : 20 ≤ pktLen data) (h : HeaderFits hdr (pktLen data)) {k : ℕ} {c : Conn}
    (hc : Sendable st.conns k c) (env : Env) :
    ∃ st' sent, forward st k env (pktLen data) hdr = some (st', sent) := by
  have hle := pktLen_le data
  obtain ⟨st', sent, hrun, -⟩ := forward_works hc (fun hnone ↦ completeChecksum_works (h.plain hnone))
    (fun htcp ↦ split_works h20 ((h.super htcp).csum_le.trans hle)
      (fun hlt ↦ (h.segments htcp hlt).placed ((h.super htcp).start_le hlt))
      fun hlt ↦ (h.segments htcp hlt).fits) env
  exact ⟨st', sent, hrun⟩

/-- A super-packet without payload is dropped. -/
theorem forward_done {st' : State} {k : ℕ} {env : Env} {innerLen : ℕ} {sent : List Send}
    (htcp : hdr.gsoType = virtioNetHdrGsoTcpv4) (hle : innerLen ≤ hdr.hdrLen.toNat)
    (h : forward st k env innerLen hdr = some (st', sent)) : sent = [] := by
  have hne : virtioNetHdrGsoTcpv4 ≠ virtioNetHdrGsoNone := by decide
  rw [forward, if_neg (htcp ▸ hne), if_pos htcp] at h
  obtain ⟨⟨ret, sc⟩, hsplit, h⟩ := Option.bind_eq_some_iff.mp h
  obtain rfl := split_done htcp hle hsplit
  dsimp only at h
  rw [if_neg (Int.lt_irrefl 0), sendUso] at h
  simp only [Option.bind_eq_bind, Option.bind_eq_some_iff] at h
  obtain ⟨_, ⟨_, -, huso⟩, heq⟩ := h
  obtain rfl := Option.some.inj huso
  exact (Prod.mk.inj (Option.some.inj heq)).2.symm

theorem HeaderFits.done (h : HeaderFits hdr (pktLen data)) (hbad : Inconsistent hdr (pktLen data)) :
    hdr.gsoType = virtioNetHdrGsoTcpv4 ∧ pktLen data ≤ hdr.hdrLen.toNat := by
  cases hbad with
  | plain hnone hneeds hcsum => exact absurd (h.plain hnone hneeds) (by omega)
  | checksum htcp hcsum => exact absurd (h.super htcp).csum_le (by omega)
  | headers htcp hhdr => exact ⟨htcp, hhdr.le⟩
  | transport htcp hstart =>
    refine ⟨htcp, Nat.le_of_not_lt fun hlt ↦ ?_⟩
    exact absurd ((h.super htcp).start_le hlt) (by omega)

/-- Nothing checks the offsets of the vnet header or the room of the segments, so
that only those that fit are safe. -/
theorem tunReader_guarded_iff {host : Host} {peers : PeerTable} {me : Fin peers.peers.length}
    {rcvBuf sndBuf : ℤ} {timeoutMs : UInt64} {t₀ : ConnTable}
    (ht : ConnTable.create host peers me rcvBuf sndBuf timeoutMs = .ok t₀) (hs : SameShape t₀ st.conns)
    (hlen : 30 ≤ data.length) (h4 : IsIPv4 data) (hvip : st.conns.lookup (vipOf data) ≠ none)
    (hdec : decodeVirtioNetHdr data = some hdr) : Guarded st data hdr ↔ HeaderFits hdr (pktLen data) := by
  have hle := pktLen_le data
  have hpkt : ((st.sc.read data).inner.take (pktLen data)).length = pktLen data := by
    rw [List.length_take, length_inner]
    omega
  have hread : readSize = 65673 := rfl
  have hvnet : pktLen data = min data.length readSize - 10 := rfl
  have halone := @worksAlone_iff hdr _ (show 20 ≤ ((st.sc.read data).inner.take (pktLen data)).length by omega)
    (by omega) st.sc
  rw [hpkt] at halone
  constructor
  · intro h
    exact halone.mp h.alone
  · intro hfit
    obtain ⟨k, hk⟩ := Option.ne_none_iff_exists'.mp hvip
    obtain ⟨c, -, hc, -⟩ := ((create_routes ht).of_sameShape hs).conn _ k hk
    have hrun (env : Env) := @HeaderFits.forwarded ⟨st.conns, st.sc.read data⟩ data hdr (by omega) hfit k c hc env
    have heq (env : Env) := tunReader_forward hlen h4 hk hdec env
    refine ⟨(tunReaderTrace_inBounds hlen h4 hvip hdec).mpr hfit.toOffsetsFit, halone.mpr hfit,
      fun env ↦ heq env ▸ hrun env, fun hbad env ↦ ?_⟩
    obtain ⟨st', sent, hst'⟩ := hrun env
    obtain ⟨htcp, hdone⟩ := hfit.done hbad
    obtain rfl := forward_done htcp hdone hst'
    exact ⟨st', heq env ▸ hst'⟩

/-- A bare IPv4 header for 10.0.0.2 that asks for a checksum at its byte 6. -/
def nearChecksum : List UInt8 :=
  [1, 0, 0, 0, 0, 0, 4, 0, 2, 0] ++ (0x45 :: List.replicate 15 0 ++ [10, 0, 0, 2])

theorem threeHosts_table : ∃ t, ConnTable.create SlotKeys.sampleHost SlotKeys.threeHosts ⟨0, by decide⟩ 0 0 1000 =
    .ok t ∧ t.lookup 0x0a000002 ≠ none := by
  have hrun : (ConnTable.create SlotKeys.sampleHost SlotKeys.threeHosts ⟨0, by decide⟩ 0 0 1000).toOption.any
      (fun t ↦ (t.lookup 0x0a000002).isSome) = true := by
    decide +kernel
  obtain ⟨t, ht, hk⟩ := ok_of_any hrun
  exact ⟨t, ht, Option.isSome_iff_ne_none.mp hk⟩

theorem tunReader_guarded_iff_near : ∃ t, ConnTable.create SlotKeys.sampleHost SlotKeys.threeHosts ⟨0, by decide⟩
    0 0 1000 = .ok t ∧ ∀ sc, Guarded ⟨t, sc⟩ nearChecksum ⟨1, 0, 0, 0, 4, 2⟩ ∧
      Guarded ⟨t, sc⟩ Routing.superRead sampleHdr := by
  obtain ⟨t, ht, hvip⟩ := threeHosts_table
  have h4 : IsIPv4 nearChecksum := rfl
  have h4' : IsIPv4 Routing.superRead := rfl
  refine ⟨t, ht, fun sc ↦ ⟨?_, ?_⟩⟩
  · refine (tunReader_guarded_iff ht (.refl t) (by decide) h4 hvip rfl).mpr ⟨⟨fun _ _ ↦ by decide, ?_⟩, ?_⟩
    all_goals exact fun h ↦ absurd h (by decide)
  · refine (tunReader_guarded_iff ht (.refl t) (by decide) h4' hvip Routing.superRead_hdr).mpr
      ⟨⟨fun h ↦ absurd h (by decide), fun _ ↦ ⟨by decide, by decide, fun _ ↦ by decide⟩⟩, fun htcp hlt ↦ ?_⟩
    exact ⟨Routing.superRead_fits htcp hlt, by decide⟩

/-- A checksum that is not even in `readBuf`. -/
theorem forward_far {k innerLen : ℕ} {env : Env} (hnone : hdr.gsoType = virtioNetHdrGsoNone)
    (hneeds : hdr.flags &&& virtioNetHdrFNeedsCsum ≠ 0)
    (hfar : 65663 < hdr.csumStart.toNat + hdr.csumOffset.toNat + 2) : forward st k env innerLen hdr = none := by
  have hcsum : gsoNoneChecksum st.sc.inner innerLen hdr.csumStart hdr.csumOffset = none := by
    rw [Option.eq_none_iff_forall_ne_some]
    intro r hr
    have hfits := gsoNoneChecksum_fits hr
    rw [length_inner] at hfits
    omega
  rw [forward, if_pos hnone, Scratch.completeChecksum, if_pos hneeds, Scratch.noneChecksum,
    Option.pmap_eq_none_iff.mpr hcsum]
  rfl

/-- The same with the checksum at byte 131070. -/
def farChecksum : List UInt8 :=
  [1, 0, 0, 0, 0, 0, 0xff, 0xff, 0xff, 0xff] ++ (0x45 :: List.replicate 15 0 ++ [10, 0, 0, 2])

theorem far_checksum_unguarded : ∃ t, ConnTable.create SlotKeys.sampleHost SlotKeys.threeHosts ⟨0, by decide⟩
    0 0 1000 = .ok t ∧ 30 ≤ farChecksum.length ∧ IsIPv4 farChecksum ∧ t.lookup (vipOf farChecksum) ≠ none ∧
      decodeVirtioNetHdr farChecksum = some ⟨1, 0, 0, 0, 65535, 65535⟩ ∧
      ∀ sc, ¬ Guarded ⟨t, sc⟩ farChecksum ⟨1, 0, 0, 0, 65535, 65535⟩ ∧
        ∀ env, tunReader ⟨t, sc⟩ env farChecksum = none := by
  obtain ⟨t, ht, hvip⟩ := threeHosts_table
  have hlen : 30 ≤ farChecksum.length := by decide
  have h4 : IsIPv4 farChecksum := rfl
  refine ⟨t, ht, hlen, h4, hvip, rfl, fun sc ↦ ⟨fun h ↦ ?_, fun env ↦ ?_⟩⟩
  · have hfit := (tunReaderTrace_inBounds hlen h4 hvip rfl).mp h.contained
    exact absurd (hfit.plain rfl (by decide)) (by decide)
  · obtain ⟨k, hk⟩ := Option.ne_none_iff_exists'.mp hvip
    rw [tunReader_forward hlen h4 hk rfl]
    exact forward_far rfl (by decide) (by decide)

end Read

end Gofra.HeaderBounds
