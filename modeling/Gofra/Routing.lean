import Gofra.Dispatch
import Gofra.SlotKeys

namespace Gofra.Routing

open Lib.Buffer Addr Peers Gso GsoSplit Segmentation Conns Settings NumericStl TunReader Sending Bounds Dispatch

def ConsistentRead (data : List UInt8) : Prop :=
  30 ≤ data.length → ∀ hdr, decodeVirtioNetHdr data = some hdr → Consistent data hdr

/-- A read whose segments fit their buffers, if it gets as far as `gsoSplit`. -/
def FittingRead (t : ConnTable) (data : List UInt8) : Prop :=
  30 ≤ data.length → IsIPv4 data → t.lookup (vipOf data) ≠ none →
    ∀ hdr, decodeVirtioNetHdr data = some hdr → SegmentsFit data hdr

/-- `s` goes from a slot of the connection of `vip` to an endpoint of that peer. -/
structure Routed (peers : PeerTable) (me : Fin peers.peers.length) (t : ConnTable) (vip : UInt32)
    (s : Send) : Prop where
  conn : ∃ k c slot, t.lookup vip = some k ∧ t.conns[k]? = some c ∧ c.vip = vip ∧ s.slot ∈ c.slots ∧
    t.allSlots[s.slot]? = some slot ∧ s.srcFd = slot.srcFd ∧ s.dstAddr = slot.dstAddr
  peer : ∃ p ∈ peers.peers.eraseIdx me, p.vip = vip ∧ s.dstAddr ∈ p.dsts

/-- A read that no datagram is sent for. -/
inductive Dropped (st : State) (data : List UInt8) : Prop
  | short (h : data.length < 30)
  | notIPv4 (h : ¬ IsIPv4 data)
  | noConn (h : st.conns.lookup (vipOf data) = none)
  | unsupported (hdr : VirtioNetHdr) (h : decodeVirtioNetHdr data = some hdr)
      (hnone : hdr.gsoType ≠ virtioNetHdrGsoNone) (htcp : hdr.gsoType ≠ virtioNetHdrGsoTcpv4)
  | rejected (hdr : VirtioNetHdr) (sc : Scratch) (h : decodeVirtioNetHdr data = some hdr)
      (htcp : hdr.gsoType = virtioNetHdrGsoTcpv4)
      (hsplit : (st.sc.read data).split (pktLen data) hdr = some (-1, sc))

/-- What the processing of one read does: each datagram takes one step of the
counter of the packet's connection. -/
structure Handled (peers : PeerTable) (me : Fin peers.peers.length) (st : State) (data : List UInt8)
    (st' : State) (sent : List Send) : Prop where
  routed : ∀ s ∈ sent, Routed peers me st.conns (vipOf data) s
  dropped : Dropped st data → sent = []
  own : (peers.peers.map Peer.vip).count (peers.at me).vip = 1 → vipOf data = (peers.at me).vip →
    sent = []
  plain : ∀ hdr, ¬ Dropped st data → decodeVirtioNetHdr data = some hdr →
    hdr.gsoType = virtioNetHdrGsoNone → sent.length = 1
  counter : ∀ k c, st.conns.lookup (vipOf data) = some k → st.conns.conns[k]? = some c →
    st'.conns.conns[k]? = some { c with rr := c.rr + UInt64.ofNat sent.length }
  others : ∀ k, st.conns.lookup (vipOf data) ≠ some k → st'.conns.conns[k]? = st.conns.conns[k]?
  sameShape : SameShape st.conns st'.conns

section

variable {peers : PeerTable} {me : Fin peers.peers.length} {st : State} {data : List UInt8}

theorem handled_nil {st' : State} (hconns : st'.conns = st.conns)
    (hplain : ∀ hdr, ¬ Dropped st data → decodeVirtioNetHdr data = some hdr →
      hdr.gsoType ≠ virtioNetHdrGsoNone) : Handled peers me st data st' [] where
  routed := nofun
  dropped _ := rfl
  own _ _ := rfl
  plain hdr hd hdec hnone := absurd hnone (hplain hdr hd hdec)
  counter k c _ hc := by
    rw [hconns, hc]
    simp
  others k _ := by rw [hconns]
  sameShape := hconns ▸ SameShape.refl st.conns

theorem routed_of_sentBy (h : Routes peers me st.conns) {vip : UInt32} {k : ℕ}
    (hk : st.conns.lookup vip = some k) {s : Send} (hs : SentBy st.conns k s) :
    Routed peers me st.conns vip s := by
  obtain ⟨c, p, hc, hvip, hp, hpv, hslots⟩ := h.conn vip k hk
  obtain ⟨c', slot, hc', hin, hslot, hfd, hdst⟩ := hs
  obtain rfl := Option.some.inj (hc.conn.symm.trans hc')
  obtain ⟨slot', hslot', hmem⟩ := hslots s.slot hin
  obtain rfl := Option.some.inj (hslot.symm.trans hslot')
  exact ⟨⟨k, c, slot, hk, hc', hvip, hin, hslot, hfd, hdst⟩, p, hp, hpv, hdst ▸ hmem⟩

theorem handled_of_forwarded (h : Routes peers me st.conns) (hlen : 30 ≤ data.length) (h4 : IsIPv4 data)
    {k : ℕ} (hk : st.conns.lookup (vipOf data) = some k) {hdr : VirtioNetHdr}
    (hdec : decodeVirtioNetHdr data = some hdr) {st' : State} {sent : List Send}
    (hf : Forwarded ⟨st.conns, st.sc.read data⟩ k data hdr st' sent) :
    Handled peers me st data st' sent where
  routed s hs := routed_of_sentBy h hk (hf.sentBy s hs)
  dropped hd := by
    cases hd with
    | short hlt => omega
    | notIPv4 hn => exact absurd h4 hn
    | noConn hn =>
      rw [hn] at hk
      cases hk
    | unsupported hdr' hdec' hnone htcp =>
      obtain rfl := Option.some.inj (hdec.symm.trans hdec')
      exact hf.other hnone htcp
    | rejected hdr' sc hdec' htcp hsplit =>
      obtain rfl := Option.some.inj (hdec.symm.trans hdec')
      exact hf.rejected sc htcp hsplit
  own hone hvip := by
    rw [hvip, h.own hone] at hk
    cases hk
  plain hdr' _ hdec' hnone := by
    obtain rfl := Option.some.inj (hdec.symm.trans hdec')
    exact hf.plain hnone
  counter k' c hk' hc := by
    obtain rfl := Option.some.inj (hk.symm.trans hk')
    rw [hf.conns]
    exact bump_conns_self hc _
  others k' hk' := by
    rw [hf.conns]
    exact bump_conns_ne (fun he : k = k' ↦ hk' (he ▸ hk)) _ _
  sameShape := hf.conns ▸ sameShape_bump st.conns k sent.length

theorem tunReader_handled (h : Routes peers me st.conns) (hcons : ConsistentRead data)
    (hfit : FittingRead st.conns data) (env : Env) :
    ∃ st' sent, tunReader st env data = some (st', sent) ∧ Handled peers me st data st' sent := by
  have hread : readSize = 65673 := rfl
  have hvnet : virtioNetHdrLen = 10 := rfl
  rw [tunReader]
  dsimp only
  split
  · exact ⟨_, [], rfl, handled_nil rfl fun hdr hd _ _ ↦ hd (.short (by omega))⟩
  · have hlen : 30 ≤ data.length := by omega
    obtain ⟨hdr, hdec⟩ := exists_decode (show 10 ≤ data.length by omega)
    rw [decode_read st.sc (show 10 ≤ data.length by omega), hdec]
    simp only [Option.bind_eq_bind]
    rw [Option.bind_some, ← pktLen, dstFromIPv4_read st.sc hlen]
    by_cases h4 : IsIPv4 data
    · rw [if_pos (show (data.drop virtioNetHdrLen).getD 0 0 >>> 4 = 4 from h4), Option.bind_some]
      cases hk : st.conns.lookup (vipOf data) with
      | none => exact ⟨_, [], rfl, handled_nil rfl fun hdr' hd _ _ ↦ hd (.noConn hk)⟩
      | some k =>
        obtain ⟨c, p, hc, -⟩ := h.conn _ k hk
        have hlook : st.conns.lookup (vipOf data) ≠ none := hk ▸ Option.some_ne_none k
        obtain ⟨st', sent, hfwd, hf⟩ := @forward_eq ⟨st.conns, st.sc.read data⟩ k c hc data hdr
          (hcons hlen hdr hdec) (hfit hlen h4 hlook hdr hdec) env
        exact ⟨st', sent, hfwd, handled_of_forwarded h hlen h4 hk hdec hf⟩
    · rw [if_neg (show ¬ (data.drop virtioNetHdrLen).getD 0 0 >>> 4 = 4 from h4), Option.bind_none]
      exact ⟨_, [], rfl, handled_nil rfl fun hdr' hd _ _ ↦ hd (.notIPv4 h4)⟩

end

/-- The states of a reader thread whose reads are consistent and fit, while
other threads work on the table. -/
inductive Reachable (t₀ : ConnTable) : State → Prop
  | start (sc : Scratch) : Reachable t₀ ⟨t₀, sc⟩
  | others {st : State} {t : ConnTable} (hst : Reachable t₀ st) (ht : SameShape st.conns t) :
      Reachable t₀ ⟨t, st.sc⟩
  | read {st st' : State} {env : Env} {data : List UInt8} {sent : List Send} (hst : Reachable t₀ st)
      (hcons : ConsistentRead data) (hfit : FittingRead st.conns data)
      (hrun : tunReader st env data = some (st', sent)) : Reachable t₀ st'

theorem reachable_routes {peers : PeerTable} {me : Fin peers.peers.length} {t₀ : ConnTable}
    (h₀ : Routes peers me t₀) {st : State} (h : Reachable t₀ st) : Routes peers me st.conns := by
  induction h with
  | start sc => exact h₀
  | others _ ht ih => exact ih.of_sameShape ht
  | read _ hcons hfit hrun ih =>
    obtain ⟨st', sent, hst', hh⟩ := tunReader_handled ih hcons hfit _
    obtain ⟨rfl, -⟩ := Prod.mk.inj (Option.some.inj (hrun.symm.trans hst'))
    exact ih.of_sameShape hh.sameShape

theorem create_reads_handled {host : Host} {peers : PeerTable} {me : Fin peers.peers.length}
    {rcvBuf sndBuf : ℤ} {timeoutMs : UInt64} {t₀ : ConnTable}
    (ht : ConnTable.create host peers me rcvBuf sndBuf timeoutMs = .ok t₀) {st : State}
    (hst : Reachable t₀ st) {data : List UInt8} (hcons : ConsistentRead data)
    (hfit : FittingRead st.conns data) (env : Env) :
    ∃ st' sent, tunReader st env data = some (st', sent) ∧ Handled peers me st data st' sent :=
  tunReader_handled (reachable_routes (create_routes ht) hst) hcons hfit env

/-- A well-formed super-packet whose segments do not fit: `gsoSplit` writes
outside the first segment buffer. -/
theorem tunReader_overflows {st : State} {data : List UInt8} {hdr : VirtioNetHdr} {k : ℕ}
    (hlen : 30 ≤ data.length) (h4 : IsIPv4 data) (hk : st.conns.lookup (vipOf data) = some k)
    (hdec : decodeVirtioNetHdr data = some hdr) (htcp : hdr.gsoType = virtioNetHdrGsoTcpv4)
    (hip : 20 ≤ hdr.csumStart.toNat) (htcpLen : hdr.csumStart.toNat + 20 ≤ hdr.hdrLen.toNat)
    (hin : hdr.hdrLen.toNat < pktLen data) (hoff : hdr.csumOffset = 16) (hg : 1 ≤ hdr.gsoSize.toNat)
    (hbig : segSize < hdr.hdrLen.toNat + min hdr.gsoSize.toNat (pktLen data - hdr.hdrLen.toNat))
    (env : Env) : tunReader st env data = none := by
  have hle := pktLen_le data
  have hs : Splittable (st.sc.read data).inner (pktLen data) hdr :=
    ⟨htcp, hip, htcpLen, hin.le, by rw [length_inner]; omega, hoff⟩
  have hsplit : (st.sc.read data).split (pktLen data) hdr = none := by
    rw [Scratch.split, Option.pmap_eq_none_iff, Option.eq_none_iff_forall_ne_some]
    intro r hr
    obtain ⟨⟨-, hbufs⟩, -⟩ := (gsoSplit_iff hs hg _ _ _ _).mp hr
    have hpos : 0 < segCount (pktLen data - hdr.hdrLen.toNat) hdr.gsoSize.toNat :=
      (lt_segCount hg).mpr (by omega)
    have hmax : maxSegs = 64 := rfl
    obtain ⟨b, hb, hfit⟩ := hbufs 0 le_rfl (by rw [Nat.zero_add, written]; omega)
    obtain ⟨b', hb', hsize⟩ := (st.sc.read data).segBuf (show 0 < maxSegs by decide)
    obtain rfl := Option.some.inj (hb.symm.trans hb')
    rw [length_splitSegment hs, hsize, Nat.zero_mul, Nat.sub_zero] at hfit
    omega
  have hne : virtioNetHdrGsoTcpv4 ≠ virtioNetHdrGsoNone := by decide
  rw [tunReader_forward hlen h4 hk hdec]
  rw [forward, if_neg (htcp ▸ hne), if_pos htcp]
  simp only [Option.bind_eq_bind]
  rw [hsplit, Option.bind_none]

def twoHostsText : Str := str "[me]\nvip = 10.0.0.1/24\n" ++
  str "[peers]\n10.0.0.1 = 192.0.2.1:7000\n10.0.0.2 = 192.0.2.2:7000\n"

/-- A TCPv4 read of a packet for 10.0.0.2 with `hdrLen` 5000 and `gsoSize` 1. -/
def longHeader : List UInt8 :=
  [0, 1, 0x88, 0x13, 1, 0, 20, 0, 16, 0] ++
    (0x45 :: List.replicate 15 0 ++ [10, 0, 0, 2]) ++ List.replicate 5044 0

theorem long_header_overflows : ∃ cfg t, loadConfig numericStl twoHostsText = .ok cfg ∧
    ConnTable.create SlotKeys.sampleHost cfg.peers cfg.self 0 0 cfg.probeTimeoutMs = .ok t ∧
    ConsistentRead longHeader ∧ ∀ sc env, tunReader ⟨t, sc⟩ env longHeader = none := by
  have hrun : (loadConfig numericStl twoHostsText).toOption.any (fun cfg ↦
      (ConnTable.create SlotKeys.sampleHost cfg.peers cfg.self 0 0 cfg.probeTimeoutMs).toOption.any
        fun t ↦ (t.lookup 0x0a000002).isSome) = true := by
    decide +kernel
  obtain ⟨cfg, hcfg, hrun⟩ := ok_of_any hrun
  obtain ⟨t, ht, hrun⟩ := ok_of_any hrun
  obtain ⟨k, hk⟩ := Option.isSome_iff_exists.mp hrun
  have hdec : decodeVirtioNetHdr longHeader = some ⟨0, 1, 5000, 1, 20, 16⟩ := rfl
  have hlen : longHeader.length = 5074 := by
    simp only [longHeader, List.length_append, List.length_cons, List.length_replicate, List.length_nil]
  have hpkt : pktLen longHeader = 5064 := by
    rw [pktLen, hlen]
    rfl
  have h4 : IsIPv4 longHeader := rfl
  have hvip : vipOf longHeader = 0x0a000002 := rfl
  refine ⟨cfg, t, hcfg, ht, fun _ hdr hhdr ↦ ?_, fun sc env ↦ ?_⟩
  · obtain rfl := Option.some.inj (hdec.symm.trans hhdr)
    exact ⟨fun h ↦ absurd h (by decide), fun _ ↦ ⟨by decide, by decide, by rw [hpkt]; decide⟩⟩
  · exact tunReader_overflows (by omega) h4 (hvip ▸ hk) hdec rfl (by decide) (by decide) (by rw [hpkt]; decide) rfl
      (by decide) (by rw [hpkt]; decide) env

def plainRead : List UInt8 := List.replicate 10 0 ++ (0x45 :: List.replicate 15 0 ++ [10, 0, 0, 2])

/-- The read of a super-packet with five bytes of data, to be cut into three. -/
def superRead : List UInt8 := [1, 1, 40, 0, 2, 0, 20, 0, 16, 0] ++ samplePacket

theorem superRead_hdr : decodeVirtioNetHdr superRead = some sampleHdr := rfl

theorem superRead_superPacket (sc : Scratch) : SuperPacket (sc.read superRead).inner 45 sampleHdr :=
  superPacket_read sc (show SuperPacket (superRead.drop virtioNetHdrLen) (pktLen superRead) sampleHdr from
    samplePacket_superPacket)

theorem superRead_consistent : Consistent superRead sampleHdr :=
  ⟨fun hn ↦ absurd hn (by decide), fun _ ↦ by decide⟩

theorem superRead_fits : SegmentsFit superRead sampleHdr := fun _ _ ↦ ⟨by decide, by decide, fun _ ↦ by decide⟩

theorem superRead_split (sc : Scratch) :
    ∃ sc', (sc.read superRead).split (pktLen superRead) sampleHdr = some (3, sc') := by
  obtain ⟨ret, sc', hsplit, -⟩ := @split_total (sc.read superRead) _ _ superRead_consistent rfl superRead_fits
  obtain rfl := split_ret (superRead_superPacket sc) (by decide) hsplit
  exact ⟨sc', hsplit⟩

/-- A super-packet for one of two peers goes out in three parts. -/
theorem create_reads_handled_super : ∃ t, ConnTable.create SlotKeys.sampleHost SlotKeys.threeHosts
    ⟨0, by decide⟩ 0 0 1000 = .ok t ∧ ∃ st' sent, tunReader ⟨t, Mtu.packetScratch⟩ ⟨0, fun _ _ ↦ 0⟩ superRead =
      some (st', sent) ∧ sent.length = 3 ∧
        Handled SlotKeys.threeHosts ⟨0, by decide⟩ ⟨t, Mtu.packetScratch⟩ superRead st' sent := by
  obtain ⟨t, ht, hk⟩ : ∃ t, ConnTable.create SlotKeys.sampleHost SlotKeys.threeHosts ⟨0, by decide⟩ 0 0 1000 =
      .ok t ∧ t.lookup (vipOf superRead) = some 0 := ⟨_, rfl, rfl⟩
  obtain ⟨st', sent, hrun, hh⟩ := create_reads_handled ht (.start Mtu.packetScratch)
    (fun _ hdr h ↦ Option.some.inj (superRead_hdr.symm.trans h) ▸ superRead_consistent)
    (fun _ _ _ hdr h ↦ Option.some.inj (superRead_hdr.symm.trans h) ▸ superRead_fits) ⟨0, fun _ _ ↦ 0⟩
  refine ⟨t, ht, st', sent, hrun, ?_, hh⟩
  obtain ⟨c, -, hc, -⟩ := (create_routes ht).conn _ 0 hk
  obtain ⟨st'', sent', hfwd, hf⟩ := @forward_eq ⟨t, Mtu.packetScratch.read superRead⟩ 0 c hc superRead _
    superRead_consistent superRead_fits ⟨0, fun _ _ ↦ 0⟩
  have h4 : IsIPv4 superRead := rfl
  rw [tunReader_forward (by decide) h4 hk superRead_hdr, hfwd] at hrun
  obtain ⟨-, rfl⟩ := Prod.mk.inj (Option.some.inj hrun)
  obtain ⟨sc', hsplit⟩ := superRead_split Mtu.packetScratch
  exact hf.parts 3 sc' rfl hsplit

end Gofra.Routing
