import Gofra.Parts
import Gofra.Segmentation

namespace Gofra.Transmission

open Lib.Chunks Addr Peers Gso GsoSplit Segmentation Conns TunReader Sending Dispatch Parts

/-- The datagrams that a call puts on the wire: the kernel cuts its payload at
the multiples of its `UDP_SEGMENT` size. -/
def wire (s : Send) : List (List UInt8) :=
  match s.segment with
  | none => [s.iov.flatten]
  | some gsoSize => cut gsoSize.toNat s.iov.flatten

def segmentAt (sc : Scratch) (j : ℕ) : List UInt8 := (sc.segBufs.getD j []).take (sc.segSizes.getD j 0)

/-- The packets built from the packet of `len` bytes in `sc`: the packet with its
checksum completed, or the segments of a super-packet that can be split. -/
inductive Built (sc : Scratch) (len : ℕ) (hdr : VirtioNetHdr) : List (List UInt8) → Prop
  | plain {sc' : Scratch} (hnone : hdr.gsoType = virtioNetHdrGsoNone)
      (h : sc.completeChecksum len hdr = some sc') : Built sc len hdr [sc'.inner.take len]
  | super {segs : ℤ} {sc' : Scratch} (hsuper : SuperPacket sc.inner len hdr)
      (h : sc.split len hdr = some (segs, sc')) (hsegs : 0 ≤ segs) :
      Built sc len hdr ((List.range segs.toNat).map (segmentAt sc'))

/-- A read of a packet that is sent on, and the packets built from it. -/
structure Accepted (t : ConnTable) (sc : Scratch) (data : List UInt8) (pkts : List (List UInt8)) : Prop where
  length : virtioNetHdrLen + 20 ≤ data.length
  ipv4 : IsIPv4 data
  conn : t.lookup (vipOf data) ≠ none
  built : ∃ hdr, decodeVirtioNetHdr data = some hdr ∧ Built (sc.read data) (pktLen data) hdr pkts

/-- With a segment size of zero the loop never gets past its first payload byte. -/
theorem gsoLoop_zero {inp : List UInt8} {inLen : ℕ} {hdr : VirtioNetHdr} {seq : UInt32}
    (hg : hdr.gsoSize.toNat = 0) {room i nextDataAt : ℕ} (hlt : nextDataAt < inLen)
    {outBufs : List (List UInt8)} {outSizes : List ℕ} {r : Split}
    (h : gsoLoop inp inLen hdr seq room i nextDataAt outBufs outSizes = some r) : r.ret = -1 := by
  induction room generalizing i outBufs outSizes with
  | zero =>
    rw [gsoLoop, if_pos hlt] at h
    obtain rfl := Option.some.inj h
    rfl
  | succ room ih =>
    rw [gsoLoop, if_pos hlt] at h
    simp only [Option.bind_eq_bind, Option.bind_eq_some_iff, hg, Nat.add_zero] at h
    obtain ⟨_, -, _, -, _, -, _, -, hrest⟩ := h
    exact ih hrest

theorem gsoLoop_done {inp : List UInt8} {inLen : ℕ} {hdr : VirtioNetHdr} {seq : UInt32} {room i nextDataAt : ℕ}
    (hle : inLen ≤ nextDataAt) (outBufs : List (List UInt8)) (outSizes : List ℕ) :
    gsoLoop inp inLen hdr seq room i nextDataAt outBufs outSizes = some ⟨castInt i, inp, outBufs, outSizes⟩ := by
  cases room with
  | zero => rw [gsoLoop, if_neg (by omega)]
  | succ room => rw [gsoLoop, if_neg (by omega)]

theorem gsoSplit_pos {inp : List UInt8} {inLen : ℕ} {hdr : VirtioNetHdr} {outBufs : List (List UInt8)}
    {outSizes : List ℕ} {maxSegs : ℕ} {r : Split}
    (h : gsoSplit inp inLen hdr outBufs outSizes maxSegs = some r) (hpos : 0 < r.ret) :
    hdr.hdrLen.toNat < inLen ∧ 1 ≤ hdr.gsoSize.toNat := by
  unfold gsoSplit at h
  split at h
  · obtain rfl := Option.some.inj h
    cases hpos
  · simp only [Option.bind_eq_bind, Option.bind_eq_some_iff] at h
    obtain ⟨_, -, _, -, _, -, _, -, _, -, hloop⟩ := h
    by_cases hlt : hdr.hdrLen.toNat < inLen
    · refine ⟨hlt, Nat.pos_of_ne_zero fun hg ↦ ?_⟩
      rw [gsoLoop_zero hg hlt hloop] at hpos
      omega
    · rw [gsoLoop_done (by omega)] at hloop
      obtain rfl := Option.some.inj hloop
      cases hpos

section

variable {sc sc' : Scratch} {inLen : ℕ} {hdr : VirtioNetHdr}

theorem gsoSplit_of_split {ret : ℤ} (h : sc.split inLen hdr = some (ret, sc')) :
    ∃ r, gsoSplit sc.inner inLen hdr sc.segBufs sc.segSizes maxSegs = some r ∧ r.ret = ret ∧
      r.outBufs = sc'.segBufs ∧ r.outSizes = sc'.segSizes := by
  rw [Scratch.split] at h
  obtain ⟨r, hr, -, he⟩ := Option.pmap_eq_some_iff.mp h
  obtain ⟨hret, rfl⟩ := Prod.mk.inj he
  exact ⟨r, hr, hret.symm, rfl, rfl⟩

theorem split_result (h : SuperPacket sc.inner inLen hdr) {ret : ℤ}
    (hs : sc.split inLen hdr = some (ret, sc')) (hret : 0 < ret) :
    1 ≤ hdr.gsoSize.toNat ∧ ret.toNat = segCount (inLen - hdr.hdrLen.toNat) hdr.gsoSize.toNat ∧
      ∀ j < ret.toNat, sc'.segSizes[j]? = some (splitSegment sc.inner inLen hdr j).length ∧
        ∃ b, sc'.segBufs[j]? = some b ∧
          b.take (splitSegment sc.inner inLen hdr j).length = splitSegment sc.inner inLen hdr j := by
  obtain ⟨r, hr, rfl, hbufs, hsizes⟩ := gsoSplit_of_split hs
  obtain ⟨-, hg⟩ := gsoSplit_pos hr hret
  obtain ⟨hroom, rfl⟩ := (gsoSplit_iff h.splittable hg _ _ _ _).mp hr
  have hcount := splitResult_ret sc.inner hg h.inLen_le sc.segBufs sc.segSizes maxSegs
  by_cases hk : segCount (inLen - hdr.hdrLen.toNat) hdr.gsoSize.toNat ≤ maxSegs
  · rw [if_pos hk] at hcount
    refine ⟨hg, by rw [hcount, Int.toNat_natCast], fun j hj ↦ ?_⟩
    rw [hcount, Int.toNat_natCast] at hj
    rw [← hbufs, ← hsizes]
    exact splitResult_getElem hroom (by rwa [written, Nat.min_eq_right hk])
  · rw [if_neg hk] at hcount
    omega

theorem segmentAt_eq (h : SuperPacket sc.inner inLen hdr) {ret : ℤ}
    (hs : sc.split inLen hdr = some (ret, sc')) (hret : 0 < ret) {j : ℕ} (hj : j < ret.toNat) :
    segmentAt sc' j = splitSegment sc.inner inLen hdr j := by
  obtain ⟨-, -, hall⟩ := split_result h hs hret
  obtain ⟨hsize, b, hb, htake⟩ := hall j hj
  rw [segmentAt, List.getD_eq_getElem?_getD, List.getD_eq_getElem?_getD, hb, hsize, Option.getD_some,
    Option.getD_some, htake]

theorem length_segmentAt (h : SuperPacket sc.inner inLen hdr) {ret : ℤ}
    (hs : sc.split inLen hdr = some (ret, sc')) (hret : 0 < ret) {j : ℕ} (hj : j < ret.toNat) :
    (segmentAt sc' j).length = hdr.hdrLen.toNat +
      min hdr.gsoSize.toNat (inLen - hdr.hdrLen.toNat - j * hdr.gsoSize.toNat) := by
  rw [segmentAt_eq h hs hret hj, length_splitSegment h.splittable]

/-- The segments of a super-packet fill a row of buffers, all of one length
except that the last may be shorter. -/
theorem split_segments (h : SuperPacket sc.inner inLen hdr) {ret : ℤ}
    (hs : sc.split inLen hdr = some (ret, sc')) (hret : 0 < ret) :
    Segments sc'.segBufs sc'.segSizes ret.toNat (segmentAt sc' 0).length (segmentAt sc') := by
  have hin := h.inLen_le
  have hpos : 0 < ret.toNat := by omega
  have hlen {j : ℕ} (hj : j < ret.toNat) := length_segmentAt h hs hret hj
  obtain ⟨hg, hcount, hall⟩ := split_result h hs hret
  have hbefore {j : ℕ} (hj : j < ret.toNat) : j * hdr.gsoSize.toNat < inLen - hdr.hdrLen.toNat :=
    (lt_segCount hg).mp (hcount ▸ hj)
  constructor
  case holds =>
    intro j hj
    obtain ⟨hsize, b, hb, htake⟩ := hall j hj
    have hle := congrArg List.length htake
    rw [List.length_take] at hle
    exact ⟨b, _, hb, hsize, by omega, htake.trans (segmentAt_eq h hs hret hj).symm⟩
  case first =>
    obtain ⟨hsize, -⟩ := hall 0 hpos
    rw [hsize, segmentAt_eq h hs hret hpos]
  case size_lt =>
    have hle := h.hdrLen_le
    rw [hlen hpos]
    omega
  case length_eq =>
    intro j hj
    have hmul := hbefore hj
    rw [Nat.add_one_mul] at hmul
    rw [hlen (by omega), hlen hpos]
    omega
  case last =>
    intro j hj
    have hmul := hbefore (show j < ret.toNat by omega)
    rw [hlen (by omega), hlen hpos]
    omega

end

/-- Cutting the payloads of the calls gives back the segments, in their order. -/
theorem wire_usoSent {t : ConnTable} {k : ℕ} {c : Conn} {env : Env} {gsoSize : UInt16}
    {seg : ℕ → List UInt8} {segs partSize call : ℕ} {sent : List Send}
    (h : UsoSent t k c env gsoSize seg segs partSize 0 call sent)
    (hpieces : ∀ s ∈ sent, Pieces gsoSize.toNat s.iov) :
    sent.flatMap wire = (List.range segs).map seg := by
  have hwire : ∀ s ∈ sent, wire s = s.iov := by
    intro s hs
    rw [wire, h.gsoSize s hs]
    exact cut_flatten (hpieces s hs)
  obtain ⟨runs, -, hiovs, hcover⟩ := h.runs
  rw [List.flatMap_congr hwire, List.flatMap_def, hiovs, ← List.flatMap_def, ← List.map_flatMap, hcover,
    Nat.sub_zero, List.range_eq_range']

theorem sendUso_wire {t : ConnTable} {k : ℕ} {c : Conn} (hc : Sendable t k c) (env : Env)
    {sc sc' : Scratch} {inLen : ℕ} {hdr : VirtioNetHdr} (h : SuperPacket sc.inner inLen hdr) {ret : ℤ}
    (hs : sc.split inLen hdr = some (ret, sc')) (hret : 0 ≤ ret) :
    ∃ sent, sendUso t k env sc'.segBufs sc'.segSizes ret.toNat = some (bump t k sent.length, sent) ∧
      sent.flatMap wire = (List.range ret.toNat).map (segmentAt sc') := by
  rcases Int.lt_or_eq_of_le hret with hpos | rfl
  · have hsegs := split_segments h hs hpos
    have hsize := UInt16.toNat_ofNat_of_lt' hsegs.size_lt
    obtain ⟨sent, hsent, huso⟩ := sendUso_eq hsegs.holds env hc hsegs.first
    refine ⟨sent, hsent, wire_usoSent huso (pieces_of_usoSent huso ?_ ?_)⟩
    · intro j hj
      rw [hsize]
      exact hsegs.length_eq j hj
    · intro j hj
      rw [hsize]
      exact hsegs.last j hj
  · have hlen : 0 < sc'.segSizes.length := by
      rw [sc'.length_segSizes]
      decide
    have hnone : Holds sc'.segBufs sc'.segSizes 0 (segmentAt sc') := nofun
    obtain ⟨sent, hsent, huso⟩ := sendUso_eq hnone env hc (List.getElem?_eq_getElem hlen)
    refine ⟨sent, hsent, wire_usoSent huso ?_⟩
    exact pieces_of_usoSent huso (fun j hj ↦ absurd hj (by omega)) fun j hj ↦ absurd hj (by omega)

/-- What is sent for a read that is accepted is, on the wire, the packets built
from it, whatever slots are chosen. -/
theorem tunReader_wire {peers : PeerTable} {me : Fin peers.peers.length} {t : ConnTable}
    (h : Routes peers me t) {sc : Scratch} {data : List UInt8} {pkts : List (List UInt8)}
    (ha : Accepted t sc data pkts) (env : Env) : ∃ st' sent,
      tunReader ⟨t, sc⟩ env data = some (st', sent) ∧ SameShape t st'.conns ∧ sent.flatMap wire = pkts := by
  have hlen := ha.length
  obtain ⟨hdr, hdec, hbuilt⟩ := ha.built
  obtain ⟨k, hk⟩ := Option.ne_none_iff_exists'.mp ha.conn
  obtain ⟨c, -, hc, -⟩ := h.conn _ k hk
  rw [tunReader_forward hlen ha.ipv4 hk hdec env, forward]
  cases hbuilt with
  | plain hnone hsc =>
    obtain ⟨s, hs, -, hiov, hseg⟩ := sendOne_eq hc env (List.take (pktLen data) _)
    rw [if_pos hnone, hsc, Option.bind_eq_bind, Option.bind_some, hs]
    refine ⟨_, _, rfl, sameShape_bump t k 1, ?_⟩
    rw [List.flatMap_singleton, wire, hseg, hiov, List.flatten_singleton]
  | super hsuper hsplit hsegs =>
    have hne : hdr.gsoType ≠ virtioNetHdrGsoNone := by
      rw [hsuper.gsoType]
      decide
    obtain ⟨sent, hsent, hwire⟩ := sendUso_wire hc env hsuper hsplit hsegs
    rw [if_neg hne, if_pos hsuper.gsoType, hsplit, Option.bind_eq_bind, Option.bind_some]
    dsimp only
    rw [if_neg (by omega), hsent]
    exact ⟨_, sent, rfl, sameShape_bump t k sent.length, hwire⟩

theorem built_length {sc : Scratch} {len : ℕ} {hdr : VirtioNetHdr} {pkts : List (List UInt8)}
    (h : Built sc len hdr pkts) (hlen : 20 ≤ len) (hle : len ≤ 65663) : ∀ p ∈ pkts, 20 ≤ p.length := by
  intro p hp
  cases h with
  | @plain sc' hnone hsc =>
    obtain rfl := List.mem_singleton.mp hp
    rw [List.length_take, length_inner]
    omega
  | @super segs sc' hsuper hsplit hsegs =>
    obtain ⟨j, hj, rfl⟩ := List.mem_map.mp hp
    have hj := List.mem_range.mp hj
    have hip := hsuper.iphLen
    have hhdr := hsuper.hdrLen
    rw [length_segmentAt hsuper hsplit (by omega) hj]
    omega

/-- What reader threads send for the reads that they accept, one after another
and each into its own scratch, and the packets built from these reads. -/
inductive Session (t₀ : ConnTable) : ConnTable → List Send → List (List UInt8) → Prop
  | start : Session t₀ t₀ [] []
  | others {t t' : ConnTable} {sent : List Send} {built : List (List UInt8)}
      (h : Session t₀ t sent built) (ht : SameShape t t') : Session t₀ t' sent built
  | read {t : ConnTable} {sc : Scratch} {env : Env} {data : List UInt8} {st' : State}
      {sent sent' : List Send} {built pkts : List (List UInt8)} (h : Session t₀ t sent built)
      (ha : Accepted t sc data pkts) (hrun : tunReader ⟨t, sc⟩ env data = some (st', sent')) :
      Session t₀ st'.conns (sent ++ sent') (built ++ pkts)

theorem session_wire {peers : PeerTable} {me : Fin peers.peers.length} {t₀ t : ConnTable}
    (h₀ : Routes peers me t₀) {sent : List Send} {built : List (List UInt8)} (h : Session t₀ t sent built) :
    Routes peers me t ∧ sent.flatMap wire = built ∧ ∀ p ∈ built, 20 ≤ p.length := by
  induction h with
  | start => exact ⟨h₀, rfl, nofun⟩
  | others _ ht ih =>
    obtain ⟨hr, hwire, hlen⟩ := ih
    exact ⟨hr.of_sameShape ht, hwire, hlen⟩
  | @read t sc env data st' sent sent' built pkts _ ha hrun ih =>
    obtain ⟨hr, hwire, hlen⟩ := ih
    obtain ⟨st'', sent'', hrun', hshape, hpkts⟩ := tunReader_wire hr ha env
    obtain ⟨rfl, rfl⟩ := Prod.mk.inj (Option.some.inj (hrun.symm.trans hrun'))
    obtain ⟨hdr, -, hbuilt⟩ := ha.built
    have hdata := ha.length
    have hread : readSize = 65673 := rfl
    refine ⟨hr.of_sameShape hshape, ?_, fun p hp ↦ ?_⟩
    · rw [List.flatMap_append, hwire, hpkts]
    · rcases List.mem_append.mp hp with hp | hp
      · exact hlen p hp
      · refine built_length hbuilt ?_ (pktLen_le data) p hp
        simp only [pktLen, virtioNetHdrLen] at hdata ⊢
        omega

end Gofra.Transmission
