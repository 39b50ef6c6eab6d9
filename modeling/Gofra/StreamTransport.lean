import Gofra.Destination
import Gofra.Mesh
import Gofra.TcpStream

namespace Gofra.StreamTransport

open Addr Peers Gso GsoSplit Segmentation Conns TunReader Dispatch Transmission UdpReader ReceiveLoop Tunnel
open Destination TcpStream

/-- The packet in a read. -/
def packetOf (data : List UInt8) : List UInt8 := (data.drop virtioNetHdrLen).take (pktLen data)

/-- A read of a TCP packet as a kernel hands it over, with its checksum still
open or not, or of a super-packet with data. -/
structure TcpRead (data : List UInt8) : Prop where
  plain : ∀ hdr, decodeVirtioNetHdr data = some hdr → hdr.gsoType = virtioNetHdrGsoNone →
    20 ≤ ipv4HdrLen (packetOf data) ∧ 20 ≤ tcpHdrLen (packetOf data) (ipv4HdrLen (packetOf data)) ∧
      (hdr.flags &&& virtioNetHdrFNeedsCsum ≠ 0 →
        hdr.csumStart.toNat = ipv4HdrLen (packetOf data) ∧ hdr.csumOffset = 16)
  super : ∀ hdr, decodeVirtioNetHdr data = some hdr → hdr.gsoType = virtioNetHdrGsoTcpv4 →
    SuperPacket (data.drop virtioNetHdrLen) (pktLen data) hdr ∧ hdr.hdrLen.toNat < pktLen data

/-- A packet whose TCP checksum alone has changed carries the same. -/
theorem resegmented_checksum {p q : List UInt8} (hip : 20 ≤ ipv4HdrLen p) (htcp : 20 ≤ tcpHdrLen p (ipv4HdrLen p))
    (hsame : ∀ j, j < ipv4HdrLen p + 16 ∨ ipv4HdrLen p + 18 ≤ j → q[j]? = p[j]?) : Resegmented p [q] := by
  have hfirst : ipv4HdrLen q = ipv4HdrLen p := by
    rw [ipv4HdrLen, getD_of_getElem? (hsame 0 (by omega)), ← ipv4HdrLen]
  have hoff : dataOff q = dataOff p := by
    rw [dataOff, dataOff, hfirst, tcpHdrLen, getD_of_getElem? (hsame _ (by omega)), ← tcpHdrLen]
  have hflags : flagsOf q = flagsOf p := by
    rw [flagsOf, flagsOf, hfirst, getD_of_getElem? (hsame _ (by rw [tcpFlagsOffset]; omega))]
  have hdata : dataOf q = dataOf p := by
    rw [dataOf, dataOf, hoff]
    congr 1
    apply List.ext_getElem? fun j ↦ ?_
    rw [List.getElem?_drop, List.getElem?_drop]
    exact hsame _ (by rw [dataOff]; omega)
  have hseq : be32At q (ipv4HdrLen p + 4) = be32At p (ipv4HdrLen p + 4) :=
    be32At_congr fun k hk ↦ hsame _ (by omega)
  have hstream : stream q = stream p := by
    rw [stream, stream, firstSeq, firstSeq, finOf, finOf, hfirst, hflags, hdata, hseq]
  refine ⟨?_, List.pairwise_singleton .., fun seg hseg ↦ ?_⟩
  · ext x
    simp [hstream]
  · obtain rfl := List.mem_singleton.mp hseg
    exact flowOf_congr hfirst (fun j _ hj ↦ hsame j (by omega)) fun j hj ↦ hsame _ (by omega)

theorem plain_resegmented {sc sc' : Scratch} {data : List UInt8} {hdr : VirtioNetHdr}
    (htcp : TcpRead data) (hdec : decodeVirtioNetHdr data = some hdr) (hnone : hdr.gsoType = virtioNetHdrGsoNone)
    (h : (sc.read data).completeChecksum (pktLen data) hdr = some sc') :
    Resegmented (packetOf data) [sc'.inner.take (pktLen data)] := by
  obtain ⟨hip, htcpLen, hcsum⟩ := htcp.plain hdr hdec hnone
  refine resegmented_checksum hip htcpLen fun j hj ↦ ?_
  rw [packetOf, List.getElem?_take, List.getElem?_take]
  split
  · rename_i hlt
    rw [← inner_read sc hlt]
    rw [Scratch.completeChecksum] at h
    split at h
    · rename_i hneeds
      obtain ⟨hstart, hoffset⟩ := hcsum hneeds
      rw [Scratch.noneChecksum] at h
      obtain ⟨r, hr, -, rfl⟩ := Option.pmap_eq_some_iff.mp h
      rw [Scratch.setInner_inner]
      refine gsoNoneChecksum_of_ne hr ?_
      rw [hstart, hoffset]
      exact hj
    · obtain rfl := Option.some.inj h
      rfl
  · rfl

/-- A super-packet with data is split into at least one segment, or rejected. -/
theorem split_pos {sc sc' : Scratch} {inLen : ℕ} {hdr : VirtioNetHdr} (h : SuperPacket sc.inner inLen hdr)
    (hne : hdr.hdrLen.toNat < inLen) {ret : ℤ} (hs : sc.split inLen hdr = some (ret, sc')) (hret : 0 ≤ ret) :
    0 < ret := by
  obtain ⟨r, hr, rfl, -⟩ := gsoSplit_of_split hs
  have htype : ¬ hdr.gsoType ≠ virtioNetHdrGsoTcpv4 := not_not.mpr h.gsoType
  rcases Nat.eq_zero_or_pos hdr.gsoSize.toNat with hg | hg
  · unfold gsoSplit at hr
    rw [if_neg htype] at hr
    simp only [Option.bind_eq_bind, Option.bind_eq_some_iff] at hr
    obtain ⟨_, -, _, -, _, -, _, -, _, -, hloop⟩ := hr
    rw [gsoLoop_zero hg hne hloop] at hret
    omega
  · obtain ⟨-, rfl⟩ := (gsoSplit_iff h.splittable hg _ _ _ _).mp hr
    have hpos : 0 < segCount (inLen - hdr.hdrLen.toNat) hdr.gsoSize.toNat := (lt_segCount hg).mpr (by omega)
    have hcount := splitResult_ret sc.inner hg h.inLen_le sc.segBufs sc.segSizes maxSegs
    split at hcount
    · rw [hcount]
      exact Int.natCast_pos.mpr hpos
    · rw [hcount] at hret
      omega

theorem super_resegmented {sc sc' : Scratch} {data : List UInt8} {hdr : VirtioNetHdr} {segs : ℤ}
    (htcp : TcpRead data) (hdec : decodeVirtioNetHdr data = some hdr)
    (h : (sc.read data).split (pktLen data) hdr = some (segs, sc')) (hsuper : hdr.gsoType = virtioNetHdrGsoTcpv4)
    (hsegs : 0 ≤ segs) : Resegmented (packetOf data) ((List.range segs.toNat).map (segmentAt sc')) := by
  obtain ⟨hpkt, hne⟩ := htcp.super hdr hdec hsuper
  have hread := superPacket_read sc hpkt
  have hpos := split_pos hread hne h hsegs
  obtain ⟨hg, hcount, -⟩ := split_result hread h hpos
  have hinner : (sc.read data).inner.take (pktLen data) = packetOf data := by
    apply List.ext_getElem? fun j ↦ ?_
    rw [packetOf, List.getElem?_take, List.getElem?_take]
    split
    · rename_i hj
      exact inner_read sc hj
    · rfl
  have hall : (List.range segs.toNat).map (segmentAt sc') =
      (List.range (segCount (pktLen data - hdr.hdrLen.toNat) hdr.gsoSize.toNat)).map
        (splitSegment (sc.read data).inner (pktLen data) hdr) := by
    rw [← hcount]
    exact List.map_congr_left fun j hj ↦ segmentAt_eq hread h hpos (List.mem_range.mp hj)
  rw [hall, ← hinner]
  exact segments_resegmented hread hg hne

/-- What goes onto the wire for a TCP packet carries the packet's part of its
stream, every byte once, whatever the packet was cut into. -/
theorem accepted_resegmented {t : ConnTable} {sc : Scratch} {data : List UInt8} {pkts : List (List UInt8)}
    (ha : Accepted t sc data pkts) (htcp : TcpRead data) : Resegmented (packetOf data) pkts := by
  obtain ⟨hdr, hdec, hbuilt⟩ := ha.built
  cases hbuilt with
  | plain hnone hsc => exact plain_resegmented htcp hdec hnone hsc
  | super hsuper hsplit hsegs => exact super_resegmented htcp hdec hsplit hsuper.gsoType hsegs

/-- What some packets carry of one stream. -/
def streamOf (f : Flow) (pkts : List (List UInt8)) : Set (UInt32 × Item) :=
  {x | ∃ p ∈ pkts, flowOf p = f ∧ x ∈ stream p}

theorem streamOf_append (f : Flow) (ps qs : List (List UInt8)) :
    streamOf f (ps ++ qs) = streamOf f ps ∪ streamOf f qs := by
  ext x
  simp only [streamOf, Set.mem_ofPred_eq, Set.mem_union, List.mem_append, or_and_right, exists_or]

theorem streamOf_subset (f : Flow) {ps qs : List (List UInt8)} (h : ps ⊆ qs) : streamOf f ps ⊆ streamOf f qs :=
  fun _ ⟨p, hp, hx⟩ ↦ ⟨p, h hp, hx⟩

theorem Resegmented.streamOf {pkt : List UInt8} {segs : List (List UInt8)} (h : Resegmented pkt segs) (f : Flow) :
    StreamTransport.streamOf f segs = StreamTransport.streamOf f [pkt] := by
  ext x
  simp only [StreamTransport.streamOf, Set.mem_ofPred_eq, List.mem_singleton, exists_eq_left, ← h.stream]
  constructor
  · rintro ⟨p, hp, hf, hx⟩
    exact ⟨(h.flow p hp).1.symm.trans hf, p, hp, hx⟩
  · rintro ⟨hf, p, hp, hx⟩
    exact ⟨p, hp, (h.flow p hp).1.trans hf, hx⟩

/-- What reader threads send for TCP packets, one after another and each into
its own scratch, and the packets that they have read. -/
inductive TcpSession (t₀ : ConnTable) : ConnTable → List Send → List (List UInt8) → Prop
  | start : TcpSession t₀ t₀ [] []
  | others {t t' : ConnTable} {sent : List Send} {pkts : List (List UInt8)} (h : TcpSession t₀ t sent pkts)
      (ht : SameShape t t') : TcpSession t₀ t' sent pkts
  | read {t : ConnTable} {sc : Scratch} {env : Env} {data : List UInt8} {st' : State} {sent sent' : List Send}
      {pkts built : List (List UInt8)} (h : TcpSession t₀ t sent pkts) (ha : Accepted t sc data built)
      (htcp : TcpRead data) (hrun : tunReader ⟨t, sc⟩ env data = some (st', sent')) :
      TcpSession t₀ st'.conns (sent ++ sent') (pkts ++ [packetOf data])

theorem tcpSession_stream {peers : PeerTable} {me : Fin peers.peers.length} {t₀ t : ConnTable}
    (h₀ : Routes peers me t₀) {sent : List Send} {pkts : List (List UInt8)} (h : TcpSession t₀ t sent pkts) :
    Routes peers me t ∧ (∀ p ∈ sent.flatMap wire, 20 ≤ p.length) ∧
      ∀ f, streamOf f (sent.flatMap wire) = streamOf f pkts := by
  induction h with
  | start => exact ⟨h₀, nofun, fun _ ↦ rfl⟩
  | others _ ht ih =>
    obtain ⟨hr, hlen, hstream⟩ := ih
    exact ⟨hr.of_sameShape ht, hlen, hstream⟩
  | @read t sc env data st' sent sent' pkts built _ ha htcp hrun ih =>
    obtain ⟨hr, hlen, hstream⟩ := ih
    obtain ⟨st'', sent'', hrun', hshape, hwire⟩ := tunReader_wire hr ha env
    obtain ⟨rfl, rfl⟩ := Prod.mk.inj (Option.some.inj (hrun.symm.trans hrun'))
    obtain ⟨hdr, -, hbuilt⟩ := ha.built
    have hdata := ha.length
    have hread : readSize = 65673 := rfl
    rw [List.flatMap_append, hwire]
    refine ⟨hr.of_sameShape hshape, fun p hp ↦ ?_, fun f ↦ ?_⟩
    · rcases List.mem_append.mp hp with hp | hp
      · exact hlen p hp
      · refine built_length hbuilt ?_ (pktLen_le data) p hp
        simp only [pktLen, virtioNetHdrLen] at hdata ⊢
        omega
    · rw [streamOf_append, streamOf_append, hstream f, Resegmented.streamOf (accepted_resegmented ha htcp) f]

/-- TCP passes through the tunnel: whatever the packets were cut into, lost,
copied, reordered and grouped, what comes out carries nothing that was not sent
in the same stream, and all of it once every datagram has come through. -/
theorem streams_transparent {host : Host} {peers : PeerTable} {me : Fin peers.peers.length} {rcvBuf sndBuf : ℤ}
    {timeoutMs : UInt64} {t₀ t : ConnTable} (ht : ConnTable.create host peers me rcvBuf sndBuf timeoutMs = .ok t₀)
    {sent : List Send} {pkts : List (List UInt8)} (hsession : TcpSession t₀ t sent pkts)
    {delivered : List (List UInt8)} (hnet : ∀ p ∈ delivered, p ≠ [] → p ∈ sent.flatMap wire) {ds : List Datagram}
    (hgro : Reported delivered ds) {srcIdx : UInt32} {sc sc' : UdpReaderScratch} (hrun : Run srcIdx sc)
    {writes : List TunWrite} (hreads : Reads srcIdx sc ds writes sc') : ∃ received : List (List UInt8),
      writes.map List.flatten = received.map withHeader ∧ ∀ f, streamOf f received ⊆ streamOf f pkts ∧
        (sent.flatMap wire ⊆ delivered → streamOf f received = streamOf f pkts) := by
  obtain ⟨-, hlen, hstream⟩ := tcpSession_stream (create_routes ht) hsession
  obtain ⟨hwrites, -⟩ := reads_writes (run_ready hrun) hreads
  have hreceived : delivered.filter (· ≠ []) ⊆ sent.flatMap wire := by
    intro p hp
    obtain ⟨hmem, hne⟩ := List.mem_filter.mp hp
    exact hnet p hmem (of_decide_eq_true hne)
  refine ⟨delivered.filter (· ≠ []), ?_, fun f ↦ ⟨?_, fun hall ↦ ?_⟩⟩
  · rw [hwrites]
    exact reported_writes hgro fun p hp hne ↦ hlen p (hnet p hp hne)
  · exact hstream f ▸ streamOf_subset f hreceived
  · refine (streamOf_subset f hreceived).antisymm (streamOf_subset f fun p hp ↦ ?_) |>.trans (hstream f)
    have hpos := hlen p hp
    exact List.mem_filter.mpr ⟨hall hp, decide_eq_true (List.length_pos_iff.mp (by omega))⟩

theorem superRead_tcp : TcpRead Routing.superRead := by
  constructor
  all_goals
    intro hdr h hty
    obtain rfl := Option.some.inj (Routing.superRead_hdr.symm.trans h)
  · exact absurd hty (by decide)
  · exact ⟨samplePacket_superPacket, by decide⟩

/-- A super-packet arrives as three segments in the reverse order. -/
theorem streams_transparent_reversed : ∃ t₀ t sent sc sc' ds writes received,
    ConnTable.create SlotKeys.sampleHost SlotKeys.twoHosts ⟨0, by decide⟩ 0 0 1000 = .ok t₀ ∧
    TcpSession t₀ t sent [samplePacket] ∧ Run 0 sc ∧ Reads 0 sc ds writes sc' ∧ ds.length = 3 ∧
    writes.map List.flatten = received.map withHeader ∧
    ∀ f, streamOf f received = streamOf f [samplePacket] := by
  obtain ⟨t₀, ht, hk⟩ : ∃ t₀, ConnTable.create SlotKeys.sampleHost SlotKeys.twoHosts ⟨0, by decide⟩ 0 0 1000 =
      .ok t₀ ∧ t₀.lookup 0x0a000002 = some 0 := ⟨_, rfl, rfl⟩
  obtain ⟨s₁, s₂, s₃, ha, h₁, h₂, h₃⟩ := superRead_accepted (hk ▸ Option.some_ne_none 0) Mtu.packetScratch
  obtain ⟨st, sent, hrun, -, hwire⟩ := tunReader_wire (create_routes ht) ha ⟨0, fun _ _ ↦ 0⟩
  have hsession : TcpSession t₀ st.conns ([] ++ sent) ([] ++ [samplePacket]) :=
    .read .start ha superRead_tcp hrun
  have hsize : ∀ p ∈ [s₁, s₂, s₃], p.length ≤ msgSize - virtioNetHdrLen := by
    simp [h₁, h₂, h₃, msgSize, virtioNetHdrLen]
  obtain ⟨ds, harrived, hds⟩ := @Mesh.arrived_any (.inet 7000 0)
    ([s₁, s₂, s₃].reverse.map (⟨.inet 7000 1, .inet 7000 0, ·⟩))
    (fun d hd ↦ by obtain ⟨p, -, rfl⟩ := List.mem_map.mp hd; rfl)
    (fun d hd ↦ by
      obtain ⟨p, hp, rfl⟩ := List.mem_map.mp hd
      exact hsize p (List.mem_reverse.mp hp))
  rw [List.length_map, List.length_reverse] at hds
  have hgro := Mesh.arrived_reported harrived
  rw [List.map_map, show Mesh.Dgram.payload ∘ (⟨.inet 7000 1, .inet 7000 0, ·⟩) = id from rfl, List.map_id] at hgro
  obtain ⟨sc, hstart⟩ := start_any fun _ ↦ ones
  have hrun' : Run 0 sc := .start hstart
  obtain ⟨sc₁, hrecv⟩ := recvmmsg_any (run_ready hrun') (hds.trans_le (show 3 ≤ batch by decide))
  obtain ⟨t', sc', hread, -⟩ := udpReader_eq (run_ready hrun') hrecv noConns 0 0
  have hreads : Reads 0 sc (ds ++ []) _ sc' := .batch hrecv hread (.done sc')
  rw [List.append_nil] at hreads
  have hsent : ([] ++ sent).flatMap wire = [s₁, s₂, s₃] := hwire
  obtain ⟨received, hwrites, hstream⟩ := streams_transparent ht hsession
    (fun p hp _ ↦ hsent ▸ List.mem_reverse.mp hp) hgro hrun' hreads
  exact ⟨t₀, st.conns, _, sc, sc', ds, _, received, ht, hsession, hrun', hreads, hds, hwrites,
    fun f ↦ (hstream f).2 fun p hp ↦ List.mem_reverse.mpr (hsent ▸ hp)⟩

end Gofra.StreamTransport
