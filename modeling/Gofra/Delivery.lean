import Gofra.LastSeen
import Gofra.Mesh
import Gofra.Mirror

namespace Gofra.Delivery

open Lib.Chunks Lib.Network Lib.LastWins Addr Peers Gso Conns SlotKeys SlotTable TunReader Sending Dispatch
open Transmission UdpReader
open ReceiveLoop Tunnel Destination Mesh

/-- No two hosts share a VIP or an endpoint. -/
structure Distinct (peers : PeerTable) : Prop where
  vip : ∀ b c, (peers.at b).vip = (peers.at c).vip → b = c
  dsts : ∀ b c d, d ∈ (peers.at b).dsts → d ∈ (peers.at c).dsts → b = c

/-- Where a slot of the host `a` leads from and to. -/
structure Home (peers : PeerTable) (a : Fin peers.peers.length) (s : ConnSlot) : Prop where
  src : ∃ i : ℕ, (peers.at a).dsts[i]? = some s.srcAddr ∧ s.srcIdx = UInt32.ofNat i
  dst : ∃ c, c ≠ a ∧ s.dstAddr ∈ (peers.at c).dsts

variable {peers : PeerTable}

/-- Endpoints of one address are one endpoint, of one host. -/
theorem endpoint_unique (hwords : ((peers.peers.flatMap Peer.dsts).map SockAddr.sinAddr).Nodup)
    {b c : Fin peers.peers.length} {d e : SockAddr} (hd : d ∈ (peers.at b).dsts) (he : e ∈ (peers.at c).dsts)
    (h : d.sinAddr = e.sinAddr) : d = e ∧ b = c := by
  have hmem {b : Fin peers.peers.length} {d : SockAddr} (hd : d ∈ (peers.at b).dsts) :
      d ∈ peers.peers.flatMap Peer.dsts := List.mem_flatMap.mpr ⟨_, List.getElem_mem b.2, hd⟩
  obtain rfl := List.inj_on_of_nodup_map hwords (hmem hd) (hmem he) h
  refine ⟨rfl, by_contra fun hne ↦ ?_⟩
  have hrows := (List.nodup_flatMap.mp hwords.of_map).2
  rcases Nat.lt_or_gt_of_ne (fun h ↦ hne (Fin.ext h) : b.1 ≠ c.1) with hlt | hgt
  · exact List.pairwise_iff_getElem.mp hrows b.1 c.1 b.2 c.2 hlt hd he
  · exact List.pairwise_iff_getElem.mp hrows c.1 b.1 c.2 b.2 hgt he hd

theorem distinct_of_nodup (hvips : (peers.peers.map Peer.vip).Nodup)
    (hwords : ((peers.peers.flatMap Peer.dsts).map SockAddr.sinAddr).Nodup) : Distinct peers where
  vip b c h := by
    have hlt (b : Fin peers.peers.length) : b.1 < (peers.peers.map Peer.vip).length := by
      rw [List.length_map]
      exact b.2
    have hget : (peers.peers.map Peer.vip).get ⟨b.1, hlt b⟩ = (peers.peers.map Peer.vip).get ⟨c.1, hlt c⟩ := by
      simp only [List.get_eq_getElem, List.getElem_map]
      exact h
    exact Fin.ext (Fin.mk.inj (hvips.get_inj_iff.mp hget))
  dsts b c d hb hc := (endpoint_unique hwords hb hc rfl).2

theorem exists_row {a : Fin peers.peers.length} {p : Peer} (hp : p ∈ peers.peers.eraseIdx a) :
    ∃ c, c ≠ a ∧ peers.at c = p := by
  obtain ⟨i, hi, hne, rfl⟩ := List.mem_eraseIdx_iff_getElem.mp hp
  exact ⟨⟨i, hi⟩, fun h ↦ hne (congrArg Fin.val h), rfl⟩

theorem create_home {host : Host} {a : Fin peers.peers.length} {rcvBuf sndBuf : ℤ} {timeoutMs : UInt64}
    {t : ConnTable} (h : ConnTable.create host peers a rcvBuf sndBuf timeoutMs = .ok t) {x : ℕ} {s : ConnSlot}
    (hs : t.allSlots[x]? = some s) : Home peers a s := by
  obtain ⟨fds, hfds, hb⟩ := ConnTable.create_built h
  obtain ⟨q, i, -, -, hq, hof⟩ := slotOf_of_allSlots hfds hb hs
  obtain ⟨p, hp, hd⟩ := List.mem_flatMap.mp (List.mem_of_getElem? hq)
  obtain ⟨c, hc, rfl⟩ := exists_row hp
  exact ⟨⟨i, hof.srcAddr, hof.srcIdx⟩, c, hc, hd⟩

/-- A slot that is found for a datagram leads to the datagram's source. -/
theorem lookupSlot_slot {host : Host} {b : Fin peers.peers.length} {rcvBuf sndBuf : ℤ} {timeoutMs : UInt64}
    {t : ConnTable} (h : ConnTable.create host peers b rcvBuf sndBuf timeoutMs = .ok t) {i : UInt32}
    {addr : SockAddr} {x : ℕ} (hx : t.lookupSlot i addr = some x) :
    ∃ s, t.allSlots[x]? = some s ∧ s.srcIdx = i ∧ s.dstAddr.sinAddr = addr.sinAddr := by
  obtain ⟨fds, -, hb⟩ := ConnTable.create_built h
  rw [ConnTable.lookupSlot, hb.byEntry] at hx
  obtain hmem | hnone := mem_of_lookup_insertAll hx
  · obtain ⟨s, hs, hkey⟩ := mem_slotEntries.mp hmem
    exact ⟨s, hs, entryKey_inj.mp hkey⟩
  · rw [AList.lookup_empty] at hnone
    cases hnone

theorem slot_of_sameShape {t t' : ConnTable} (h : SameShape t t') {x : ℕ} {s : ConnSlot}
    (hs : t.allSlots[x]? = some s) : ∃ lastSeen, t'.allSlots[x]? = some { s with lastSeen } := by
  have hall := congrArg (·[x]?) h.allSlots
  simp only [List.getElem?_map, hs, Option.map_some] at hall
  obtain ⟨s', hs', he⟩ := Option.map_eq_some_iff.mp hall
  refine ⟨s'.lastSeen, hs'.trans (congrArg some ?_)⟩
  cases s
  cases s'
  cases he
  rfl

/-- What is sent for a read goes through slots of the connection of its packet,
and only the counter of that connection changes. -/
theorem tunReader_sent {me : Fin peers.peers.length} {t : ConnTable} (h : Routes peers me t) {sc : Scratch}
    {data : List UInt8} {pkts : List (List UInt8)} (ha : Accepted t sc data pkts) {env : Env}
    {st' : TunReader.State} {sent : List Send} (hrun : tunReader ⟨t, sc⟩ env data = some (st', sent)) :
    ∃ k, t.lookup (vipOf data) = some k ∧ st'.conns = bump t k sent.length ∧ ∀ s ∈ sent, SentBy t k s := by
  obtain ⟨hdr, hdec, hbuilt⟩ := ha.built
  obtain ⟨k, hk⟩ := Option.ne_none_iff_exists'.mp ha.conn
  obtain ⟨c, -, hc, -⟩ := h.conn _ k hk
  refine ⟨k, hk, ?_⟩
  rw [tunReader_forward ha.length ha.ipv4 hk hdec env, forward] at hrun
  simp only [Option.bind_eq_bind] at hrun
  cases hbuilt with
  | @plain sc' hnone hsc =>
    obtain ⟨s, hs, hby, -⟩ := sendOne_eq hc env (sc'.inner.take (pktLen data))
    rw [if_pos hnone, hsc, Option.bind_some, hs] at hrun
    obtain ⟨rfl, rfl⟩ := Prod.mk.inj (Option.some.inj hrun)
    exact ⟨rfl, fun s' hs' ↦ List.mem_singleton.mp hs' ▸ hby⟩
  | @super segs sc' hsuper hsplit hsegs =>
    have hne : hdr.gsoType ≠ virtioNetHdrGsoNone := by
      rw [hsuper.gsoType]
      decide
    have hholds : Holds sc'.segBufs sc'.segSizes segs.toNat (segmentAt sc') := by
      rcases Int.lt_or_eq_of_le hsegs with hpos | rfl
      · exact (split_segments hsuper hsplit hpos).holds
      · exact fun j hj ↦ absurd hj (Nat.not_lt_zero j)
    have hlen : 0 < sc'.segSizes.length := by
      rw [sc'.length_segSizes]
      decide
    obtain ⟨sent', hsent', huso⟩ := sendUso_eq hholds env hc (List.getElem?_eq_getElem hlen)
    rw [if_neg hne, if_pos hsuper.gsoType, hsplit, Option.bind_some] at hrun
    dsimp only at hrun
    rw [if_neg (by omega), hsent'] at hrun
    obtain ⟨rfl, rfl⟩ := Prod.mk.inj (Option.some.inj hrun)
    exact ⟨rfl, huso.sentBy⟩

/-- The packet that a datagram carries to the host `b`, if it is on its way
there and no probe. -/
def packetFor (peers : PeerTable) (b : Fin peers.peers.length) (d : Dgram) : Option (List UInt8) :=
  if d.dst ∈ (peers.at b).dsts ∧ d.payload ≠ [] then some d.payload else none

theorem packetFor_eq_some {b : Fin peers.peers.length} {d : Dgram} {p : List UInt8} :
    packetFor peers b d = some p ↔ d.dst ∈ (peers.at b).dsts ∧ d.payload ≠ [] ∧ d.payload = p := by
  rw [packetFor]
  split
  · rename_i h
    exact ⟨fun he ↦ ⟨h.1, h.2, Option.some.inj he⟩, fun he ↦ congrArg some he.2.2⟩
  · rename_i h
    exact ⟨nofun, fun he ↦ absurd ⟨he.1, he.2.1⟩ h⟩

/-- Where a call of the host `a` sends to. -/
theorem emitted_eq {t t' : ConnTable} (hshape : SameShape t t') {k : ℕ} {s : Send} (hs : SentBy t k s) :
    ∃ slot, t.allSlots[s.slot]? = some slot ∧ s.dstAddr = slot.dstAddr ∧
      emitted t' s = (wire s).map fun p ↦ ⟨slot.srcAddr, slot.dstAddr, p⟩ := by
  obtain ⟨c, slot, -, -, hslot, -, hdst⟩ := hs
  obtain ⟨lastSeen, hslot'⟩ := slot_of_sameShape hshape hslot
  refine ⟨slot, hslot, hdst, ?_⟩
  simp only [emitted, hslot', hdst]

/-- The slots that a packet is sent through lead to the peer with its VIP. -/
theorem sentBy_peer {a : Fin peers.peers.length} {t : ConnTable} (hr : Routes peers a t) {vip : UInt32} {k : ℕ}
    (hk : t.lookup vip = some k) {s : Send} (hs : SentBy t k s) :
    ∃ c, c ≠ a ∧ (peers.at c).vip = vip ∧ s.dstAddr ∈ (peers.at c).dsts := by
  obtain ⟨-, p, hp, hpv, hd⟩ := @Routing.routed_of_sentBy peers a ⟨t, Mtu.packetScratch⟩ hr vip k hk s hs
  obtain ⟨c, hc, rfl⟩ := exists_row hp
  exact ⟨c, hc, hpv, hd⟩

theorem accepted_packets {t : ConnTable} {sc : Scratch} {data : List UInt8} {pkts : List (List UInt8)}
    (ha : Accepted t sc data pkts) (hwf : WellFormed data) :
    ∀ p ∈ pkts, dstOf p = vipOf data ∧ 20 ≤ p.length := by
  obtain ⟨hdr, hdec, hbuilt⟩ := ha.built
  have hdata := ha.length
  have hread : readSize = 65673 := rfl
  have hlen : 20 ≤ pktLen data := by
    simp only [pktLen, virtioNetHdrLen] at hdata ⊢
    omega
  exact fun p hp ↦ ⟨built_dst hwf hdec hlen hbuilt p hp, built_length hbuilt hlen (pktLen_le data) p hp⟩

section Read

variable {a : Fin peers.peers.length} {t : ConnTable} {sc : Scratch} {data : List UInt8}
variable {pkts : List (List UInt8)} {env : Env} {st' : TunReader.State} {sent : List Send}
variable (hr : Routes peers a t) (ha : Accepted t sc data pkts)
variable (hrun : tunReader ⟨t, sc⟩ env data = some (st', sent))
include hr ha hrun

/-- The packets built from a read are what is on the wire. -/
theorem accepted_wire : SameShape t st'.conns ∧ sent.flatMap wire = pkts := by
  obtain ⟨st'', sent'', hrun', hshape, hwire⟩ := tunReader_wire hr ha env
  obtain ⟨rfl, rfl⟩ := Prod.mk.inj (Option.some.inj (hrun.symm.trans hrun'))
  exact ⟨hshape, hwire⟩

/-- Each datagram of a read goes from an endpoint of `a` to one of the peer with
the packet's VIP. -/
theorem accepted_dgrams (hhome : ∀ (x : ℕ) s, t.allSlots[x]? = some s → Home peers a s) :
    ∀ d ∈ sent.flatMap (emitted st'.conns), d.src ∈ (peers.at a).dsts ∧ d.payload ∈ pkts ∧
      ∃ c, c ≠ a ∧ (peers.at c).vip = vipOf data ∧ d.dst ∈ (peers.at c).dsts := by
  intro d hd
  obtain ⟨hshape, hwire⟩ := accepted_wire hr ha hrun
  obtain ⟨k, hk, -, hby⟩ := tunReader_sent hr ha hrun
  obtain ⟨s, hs, hds⟩ := List.mem_flatMap.mp hd
  obtain ⟨slot, hslot, hdst, hem⟩ := emitted_eq hshape (hby s hs)
  rw [hem] at hds
  obtain ⟨p, hp, rfl⟩ := List.mem_map.mp hds
  obtain ⟨i, hi, -⟩ := (hhome _ _ hslot).src
  refine ⟨List.mem_of_getElem? hi, hwire ▸ List.mem_flatMap.mpr ⟨s, hs, hp⟩, ?_⟩
  exact hdst ▸ sentBy_peer hr hk (hby s hs)

theorem accepted_payloads : (sent.flatMap (emitted st'.conns)).map Dgram.payload = pkts := by
  obtain ⟨hshape, hwire⟩ := accepted_wire hr ha hrun
  obtain ⟨k, hk, -, hby⟩ := tunReader_sent hr ha hrun
  rw [List.map_flatMap, ← hwire]
  refine List.flatMap_congr fun s hs ↦ ?_
  obtain ⟨slot, -, -, hem⟩ := emitted_eq hshape (hby s hs)
  rw [hem, List.map_map]
  exact List.map_id _

/-- The host with the packet's VIP is sent all packets of a read, in their
order, and no other host is sent any. -/
theorem accepted_packetFor (hd : Distinct peers) (hwf : WellFormed data) (b : Fin peers.peers.length) :
    (sent.flatMap (emitted st'.conns)).filterMap (packetFor peers b) =
      if vipOf data = (peers.at b).vip then pkts else [] := by
  obtain ⟨hshape, hwire⟩ := accepted_wire hr ha hrun
  have hlen := accepted_packets ha hwf
  obtain ⟨k, hk, -, hby⟩ := tunReader_sent hr ha hrun
  have heach : ∀ s ∈ sent, (emitted st'.conns s).filterMap (packetFor peers b) =
      if vipOf data = (peers.at b).vip then wire s else [] := by
    intro s hs
    obtain ⟨slot, -, hdst, hem⟩ := emitted_eq hshape (hby s hs)
    obtain ⟨c, -, hvip, hmem⟩ := sentBy_peer hr hk (hby s hs)
    rw [hdst] at hmem
    rw [hem, List.filterMap_map]
    split
    · rename_i hb
      obtain rfl := hd.vip c b (hvip.trans hb)
      refine (List.filterMap_congr fun p hp ↦ ?_).trans (List.filterMap_some ..)
      have hp := (hlen p (hwire ▸ List.mem_flatMap.mpr ⟨s, hs, hp⟩)).2
      exact packetFor_eq_some.mpr ⟨hmem, List.length_pos_iff.mp (by dsimp only; omega), rfl⟩
    · rename_i hb
      refine List.filterMap_eq_nil_iff.mpr fun p _ ↦ if_neg fun h ↦ hb ?_
      rw [← hvip, hd.dsts c b _ hmem h.1]
  rw [List.filterMap_flatMap]
  have hall := List.flatMap_congr heach
  rw [hall]
  split
  · exact hwire
  · exact List.flatMap_eq_nil_iff.mpr fun _ _ ↦ rfl

end Read

/-- The packets that have been built for the VIP of `b`, by any host. -/
def builtFor (st : Mesh.State peers) (b : Fin peers.peers.length) : List (List UInt8) :=
  (st.built.map Prod.snd).filter fun p ↦ dstOf p = (peers.at b).vip

/-- What every step keeps: what is on the network is what has been built, and
what has been written is what the network has delivered. -/
structure Tracked (tables : Fin peers.peers.length → ConnTable) (st : Mesh.State peers) : Prop where
  shape : ∀ a, SameShape (tables a) (st.hosts a).table
  ready : ∀ a j, Ready ((st.hosts a).udp j)
  conserved : Conserved st.net
  whole : ∀ d ∈ st.net.sent, d.payload ≠ [] → 20 ≤ d.payload.length
  built : ∀ x ∈ st.built, ∃ b, b ≠ x.1 ∧ dstOf x.2 = (peers.at b).vip
  account : ∀ b, st.net.sent.filterMap (packetFor peers b) = builtFor st b
  written : ∀ b, (st.written b : Multiset (List UInt8)) =
    (st.net.delivered.filterMap (packetFor peers b)).map withHeader

variable {tables : Fin peers.peers.length → ConnTable}

theorem tracked_start {st : Mesh.State peers} (h : Start tables st) : Tracked tables st where
  shape a := h.table a ▸ SameShape.refl _
  ready a j := by
    obtain ⟨mem, hmem⟩ := h.udp a j
    exact start_ready hmem
  conserved := h.net ▸ conserved_empty
  whole d hd := by
    rw [h.net] at hd
    exact absurd hd (Multiset.notMem_zero d)
  built x hx := by
    rw [h.built] at hx
    exact absurd hx (List.not_mem_nil)
  account b := by
    rw [h.net, builtFor, h.built]
    rfl
  written b := by
    rw [h.net, h.written b]
    rfl

theorem tables_home (ht : Tables tables) {a : Fin peers.peers.length} {x : ℕ} {s : ConnSlot}
    (hs : (tables a).allSlots[x]? = some s) : Home peers a s := by
  obtain ⟨host, rcvBuf, sndBuf, timeoutMs, hcreate⟩ := ht a
  exact create_home hcreate hs

theorem tables_routes (ht : Tables tables) {st : Mesh.State peers} (hi : Tracked tables st)
    (a : Fin peers.peers.length) : Routes peers a (st.hosts a).table ∧
      ∀ (x : ℕ) s, (st.hosts a).table.allSlots[x]? = some s → Home peers a s := by
  obtain ⟨host, rcvBuf, sndBuf, timeoutMs, hcreate⟩ := ht a
  refine ⟨(create_routes hcreate).of_sameShape (hi.shape a), fun x s hs ↦ ?_⟩
  obtain ⟨lastSeen, hs₀⟩ := slot_of_sameShape (hi.shape a).symm hs
  obtain ⟨hsrc, hdst⟩ := tables_home ht hs₀
  exact ⟨hsrc, hdst⟩

/-- Datagrams are sent, and the packets in them have just been built. -/
theorem tracked_send {st st' : Mesh.State peers} (hi : Tracked tables st) {ms : List Dgram}
    (hshape : ∀ a, SameShape (tables a) (st'.hosts a).table) (hready : ∀ a j, Ready ((st'.hosts a).udp j))
    (hnet : st'.net = st.net.send ms) (hwhole : ∀ d ∈ ms, d.payload ≠ [] → 20 ≤ d.payload.length)
    (hbuilt : ∀ x ∈ st'.built, ∃ b, b ≠ x.1 ∧ dstOf x.2 = (peers.at b).vip)
    (haccount : ∀ b, builtFor st' b = builtFor st b ++ ms.filterMap (packetFor peers b))
    (hwritten : st'.written = st.written) : Tracked tables st' where
  shape := hshape
  ready := hready
  conserved := hnet ▸ hi.conserved.send ms
  whole d hd := by
    rw [hnet] at hd
    rcases Multiset.mem_add.mp hd with hd | hd
    · exact hi.whole d hd
    · exact hwhole d (Multiset.mem_coe.mp hd)
  built := hbuilt
  account b := by
    rw [hnet, haccount b, ← Multiset.coe_add, ← hi.account b]
    exact Multiset.filterMap_add _ _ _
  written b := by
    rw [hnet, hwritten]
    exact hi.written b

theorem tracked_read (ht : Tables tables) (hd : Distinct peers) {st : Mesh.State peers} (hi : Tracked tables st)
    (a : Fin peers.peers.length) (i : ℕ) {env : Env} {data : List UInt8} {st' : TunReader.State}
    {sent : List Send} {pkts : List (List UInt8)} (hwf : WellFormed data)
    (hpkts : Packets (st.hosts a).table ((st.hosts a).tun i) data pkts)
    (hrun : tunReader ⟨(st.hosts a).table, (st.hosts a).tun i⟩ env data = some (st', sent)) :
    Tracked tables { st with
      hosts := Function.update st.hosts a
        ⟨st'.conns, Function.update (st.hosts a).tun i st'.sc, (st.hosts a).udp⟩
      net := st.net.send (sent.flatMap (emitted st'.conns))
      built := st.built ++ pkts.map (a, ·) } := by
  obtain ⟨hr, hhome⟩ := tables_routes ht hi a
  have hready := forall_setHost (P := fun _ h ↦ ∀ j, Ready (h.udp j)) a
    (h := ⟨st'.conns, Function.update (st.hosts a).tun i st'.sc, (st.hosts a).udp⟩) (hi.ready a) hi.ready
  have hshape (hsame : SameShape (st.hosts a).table st'.conns) :=
    forall_setHost (P := fun c h ↦ SameShape (tables c) h.table) a
      (h := ⟨st'.conns, Function.update (st.hosts a).tun i st'.sc, (st.hosts a).udp⟩)
      ((hi.shape a).trans hsame) hi.shape
  cases hpkts with
  | accepted ha =>
    obtain ⟨hsame, hwire⟩ := accepted_wire hr ha hrun
    have hpk := accepted_packets ha hwf
    have hdg := accepted_dgrams hr ha hrun hhome
    refine tracked_send hi (hshape hsame) hready rfl ?_ ?_ ?_ rfl
    · intro d hmem _
      obtain ⟨-, hp, -⟩ := hdg d hmem
      exact (hpk _ hp).2
    · intro x hx
      rcases List.mem_append.mp hx with hx | hx
      · exact hi.built x hx
      · obtain ⟨p, hp, rfl⟩ := List.mem_map.mp hx
        obtain ⟨k, hk⟩ := Option.ne_none_iff_exists'.mp ha.conn
        obtain ⟨c, q, -, -, hq, hqv, -⟩ := hr.conn _ k hk
        obtain ⟨b, hb, rfl⟩ := exists_row hq
        exact ⟨b, hb, (hpk p hp).1.trans hqv.symm⟩
    · intro b
      rw [accepted_packetFor hr ha hrun hd hwf b, builtFor, List.map_append, List.filter_append, ← builtFor,
        List.map_map]
      have hid : (Prod.snd ∘ fun p ↦ (a, p)) = (id : List UInt8 → List UInt8) := rfl
      rw [hid, List.map_id]
      congr 1
      split
      · rename_i hb
        exact List.filter_eq_self.mpr fun p hp ↦ decide_eq_true ((hpk p hp).1.trans hb)
      · rename_i hb
        exact List.filter_eq_nil_iff.mpr fun p hp ↦ by
          rw [(hpk p hp).1, decide_eq_true_eq]
          exact hb
  | ignored hno =>
    obtain ⟨hconns, rfl⟩ := (accepted_or_nil hwf hrun).resolve_left fun ⟨pkts, ha⟩ ↦ hno pkts ha
    refine tracked_send hi (hshape (hconns ▸ SameShape.refl _)) hready rfl nofun ?_ ?_ rfl
    · intro x hx
      rw [List.map_nil, List.append_nil] at hx
      exact hi.built x hx
    · intro b
      rw [builtFor, List.map_nil, List.append_nil, List.flatMap_nil, List.filterMap_nil, List.append_nil, builtFor]

theorem tracked_fault {st : Mesh.State peers} (hi : Tracked tables st) {net : Net Dgram} (h : Fault st.net net) :
    Tracked tables { st with net } := by
  have hsent : net.sent = st.net.sent := by cases h <;> rfl
  have hdelivered : net.delivered = st.net.delivered := by cases h <;> rfl
  refine ⟨hi.shape, hi.ready, hi.conserved.fault h, ?_, hi.built, fun b ↦ ?_, fun b ↦ ?_⟩
  · exact fun d hmem ↦ hi.whole d (hsent ▸ hmem)
  · exact (congrArg _ hsent).trans (hi.account b)
  · exact (hi.written b).trans (congrArg _ (congrArg _ hdelivered.symm))

/-- What arrives at a socket of `b` is for `b` and for no other host. -/
theorem arrived_packetFor (hd : Distinct peers) {b : Fin peers.peers.length} {dst : SockAddr}
    (hdst : dst ∈ (peers.at b).dsts) {dgs : List Dgram} (hto : ∀ d ∈ dgs, d.dst = dst)
    (c : Fin peers.peers.length) : dgs.filterMap (packetFor peers c) =
      if c = b then (dgs.map Dgram.payload).filter (· ≠ []) else [] := by
  split
  · rename_i hc
    subst hc
    rw [List.filter_map, ← List.filterMap_eq_filter, List.map_filterMap]
    refine List.filterMap_congr fun d hmem ↦ ?_
    rw [packetFor, hto d hmem]
    by_cases hp : d.payload = []
    · simp [hp]
    · rw [if_pos ⟨hdst, hp⟩]
      simp [hp, Option.guard]
  · rename_i hc
    refine List.filterMap_eq_nil_iff.mpr fun d hmem ↦ if_neg fun h ↦ hc ?_
    exact hd.dsts c b dst (hto d hmem ▸ h.1) hdst

theorem tracked_receive (hd : Distinct peers) {st : Mesh.State peers} (hi : Tracked tables st)
    (b : Fin peers.peers.length) {j : ℕ} {dst : SockAddr} {dgs : List Dgram} {ds : List Datagram}
    {net : Net Dgram} {sc sc' : UdpReaderScratch} {t : ConnTable} {now : UInt64} {outs : List (List TunWrite)}
    (hj : (peers.at b).dsts[j]? = some dst) (hnet : Lib.Network.Delivery st.net dgs net)
    (harrived : Arrived dst dgs ds) (hrecv : Recvmmsg ((st.hosts b).udp j) ds sc)
    (hread : udpReader (st.hosts b).table (UInt32.ofNat j) now sc ds.length = some (t, sc', outs)) :
    Tracked tables { st with
      hosts := Function.update st.hosts b ⟨t, (st.hosts b).tun, Function.update (st.hosts b).udp j sc'⟩
      net
      written := Function.update st.written b (st.written b ++ outs.flatten.map List.flatten) } := by
  obtain ⟨t₁, sc₁, hread₁, hready⟩ := udpReader_eq (hi.ready b j) hrecv (st.hosts b).table (UInt32.ofNat j) now
  obtain ⟨rfl, he⟩ := Prod.mk.inj (Option.some.inj (hread.symm.trans hread₁))
  obtain ⟨rfl, rfl⟩ := Prod.mk.inj he
  have hwhole : ∀ p ∈ dgs.map Dgram.payload, p ≠ [] → 20 ≤ p.length := by
    intro p hp
    obtain ⟨d, hmem, rfl⟩ := List.mem_map.mp hp
    exact hnet.forall_mem hi.conserved hi.whole d hmem
  have hwrites : (ds.map tunWrites).flatten.map List.flatten =
      ((dgs.map Dgram.payload).filter (· ≠ [])).map withHeader := by
    rw [← List.flatMap_def]
    exact reported_writes (arrived_reported harrived) hwhole
  have hpackets := arrived_packetFor hd (List.mem_of_getElem? hj) (arrived_dst harrived)
  have hdelivered (c : Fin peers.peers.length) : net.delivered.filterMap (packetFor peers c) =
      st.net.delivered.filterMap (packetFor peers c) + dgs.filterMap (packetFor peers c) := by
    rw [hnet.delivered]
    exact Multiset.filterMap_add _ _ _
  constructor
  case shape =>
    exact forall_setHost (P := fun c h ↦ SameShape (tables c) h.table) b
      ((hi.shape b).trans (udpReader_sameShape hread)) hi.shape
  case ready =>
    refine forall_setHost (P := fun _ h ↦ ∀ j, Ready (h.udp j)) b ?_ hi.ready
    exact (Function.forall_update_iff (st.hosts b).udp fun _ sc ↦ Ready sc).mpr
      ⟨hready, fun i _ ↦ hi.ready b i⟩
  case conserved => exact hi.conserved.deliver hnet
  case whole => exact fun d hmem ↦ hi.whole d (hnet.sent ▸ hmem)
  case built => exact hi.built
  case account => exact fun c ↦ (congrArg _ hnet.sent).trans (hi.account c)
  case written =>
    intro c
    dsimp only
    rw [hdelivered c, hpackets c, Multiset.map_add, ← hi.written c]
    by_cases hc : c = b
    · subst hc
      rw [Function.update_self, if_pos rfl, hwrites]
      rfl
    · rw [Function.update_of_ne hc, if_neg hc]
      exact (add_zero _).symm

theorem tracked_step (ht : Tables tables) (hd : Distinct peers) {gives : List UInt8 → Prop}
    (hgives : ∀ data, gives data → WellFormed data) {st st' : Mesh.State peers} (hi : Tracked tables st)
    (hstep : Mesh.Step gives st st') : Tracked tables st' := by
  cases hstep with
  | read a i hdata hpkts hrun => exact tracked_read ht hd hi a i (hgives _ hdata) hpkts hrun
  | @probe a x s hs =>
    refine tracked_send hi hi.shape hi.ready rfl ?_ hi.built (fun b ↦ ?_) rfl
    · exact fun d hmem hne ↦ absurd (congrArg Dgram.payload (List.mem_singleton.mp hmem)) hne
    · have hnone : packetFor peers b ⟨s.srcAddr, s.dstAddr, []⟩ = none := if_neg fun h ↦ h.2 rfl
      rw [List.filterMap_cons_none hnone, List.filterMap_nil, List.append_nil]
      rfl
  | fault h => exact tracked_fault hi h
  | receive b hj hnet harrived hrecv hread => exact tracked_receive hd hi b hj hnet harrived hrecv hread

theorem tracked_of_reachable (ht : Tables tables) (hd : Distinct peers) {gives : List UInt8 → Prop}
    (hgives : ∀ data, gives data → WellFormed data) {st : Mesh.State peers} (h : Mesh.Reachable gives tables st) :
    Tracked tables st :=
  h.invariant (fun _ h₀ ↦ tracked_start h₀) fun _ _ hi hstep ↦ tracked_step ht hd hgives hi hstep

/-- The packets for `b` among some datagrams. -/
def packetsFor (peers : PeerTable) (b : Fin peers.peers.length) (ds : Multiset Dgram) : Multiset (List UInt8) :=
  ds.filterMap (packetFor peers b)

/-- What has come out of the TUN of `b`: of the packets that were built for it
and of the copies that the network made of them, those that are neither lost
nor still under way. -/
structure Delivered (st : Mesh.State peers) (b : Fin peers.peers.length) : Prop where
  account : ∃ received : Multiset (List UInt8), (st.written b : Multiset (List UInt8)) = received.map withHeader ∧
    received + packetsFor peers b st.net.inFlight + packetsFor peers b st.net.lost =
      builtFor st b + packetsFor peers b st.net.copied
  origin : ∀ w ∈ st.written b, ∃ a p, a ≠ b ∧ (a, p) ∈ st.built ∧ w = withHeader p ∧
    dstOf p = (peers.at b).vip

theorem reachable_delivered (ht : Tables tables) (hd : Distinct peers) {gives : List UInt8 → Prop}
    (hgives : ∀ data, gives data → WellFormed data) {st : Mesh.State peers} (h : Mesh.Reachable gives tables st)
    (b : Fin peers.peers.length) : Delivered st b := by
  have hi := tracked_of_reachable ht hd hgives h
  have hbalance := hi.conserved.filterMap (packetFor peers b)
  rw [hi.account b] at hbalance
  refine ⟨⟨st.net.delivered.filterMap (packetFor peers b), hi.written b, hbalance⟩, fun w hw ↦ ?_⟩
  have hmem : w ∈ (st.net.delivered.filterMap (packetFor peers b)).map withHeader :=
    hi.written b ▸ Multiset.mem_coe.mpr hw
  obtain ⟨p, hp, rfl⟩ := Multiset.mem_map.mp hmem
  obtain ⟨d, hdmem, hdp⟩ := (Multiset.mem_filterMap _ _).mp hp
  have hsent := hi.conserved.mem_sent (Multiset.mem_add.mpr (.inl (Multiset.mem_add.mpr (.inl hdmem))))
  have hbuilt : p ∈ (builtFor st b : Multiset (List UInt8)) :=
    hi.account b ▸ (Multiset.mem_filterMap _ _).mpr ⟨d, hsent, hdp⟩
  obtain ⟨hin, hvip⟩ := List.mem_filter.mp (Multiset.mem_coe.mp hbuilt)
  obtain ⟨⟨a, p⟩, hap, rfl⟩ := List.mem_map.mp hin
  obtain ⟨c, hc, hcv⟩ := hi.built _ hap
  have hvip := of_decide_eq_true hvip
  obtain rfl := hd.vip c b (hcv.symm.trans hvip)
  exact ⟨a, p, hc.symm, hap, rfl, hvip⟩

theorem create_sampleHost (peers : PeerTable) (a : Fin peers.peers.length) :
    ∃ t, ConnTable.create SlotKeys.sampleHost peers a 0 0 1000 = .ok t := by
  have hopen (i : ℕ) (dsts : List SockAddr) : ∃ fds, openAll SlotKeys.sampleHost 0 0 i dsts = .ok fds := by
    induction dsts generalizing i with
    | nil => exact ⟨[], rfl⟩
    | cons dst dsts ih =>
      obtain ⟨fds, hfds⟩ := ih (i + 1)
      exact ⟨(i + 3) :: fds, by rw [openAll, hfds]; rfl⟩
  obtain ⟨fds, hfds⟩ := hopen 0 (peers.at a).dsts
  exact ⟨_, by rw [ConnTable.create, hfds]; rfl⟩

theorem plainRead_wellFormed : WellFormed Routing.plainRead := by
  have hdec : decodeVirtioNetHdr Routing.plainRead = some ⟨0, 0, 0, 0, 0, 0⟩ := rfl
  constructor
  all_goals
    intro hdr h
    obtain rfl := Option.some.inj (hdec.symm.trans h)
  · exact fun _ h ↦ absurd rfl h
  · exact fun h ↦ absurd h (by decide)

/-- A packet goes from the first of three hosts to the second. -/
theorem sample_run : ∃ (tables : Fin SlotKeys.threeHosts.peers.length → ConnTable) (st : Mesh.State SlotKeys.threeHosts)
    (x : ℕ) (s₀ s : ConnSlot), Tables tables ∧ Mesh.Reachable WellFormed tables st ∧ st.net.inFlight = 0 ∧
      st.net.lost = 0 ∧ st.net.copied = 0 ∧ st.built = [(⟨0, by decide⟩, plainPkt)] ∧
      (tables ⟨1, by decide⟩).allSlots[x]? = some s₀ ∧
      (st.hosts ⟨1, by decide⟩).table.allSlots[x]? = some s ∧ s.lastSeen ≠ s₀.lastSeen := by
  choose tables htables using create_sampleHost SlotKeys.threeHosts
  have ht : Tables tables := fun a ↦ ⟨_, _, _, _, htables a⟩
  obtain ⟨sc, hsc⟩ := start_any fun _ ↦ ones
  let st₀ : Mesh.State SlotKeys.threeHosts :=
    ⟨fun a ↦ ⟨tables a, fun _ ↦ Mtu.packetScratch, fun _ ↦ sc⟩, Net.empty, [], fun _ ↦ []⟩
  have hstart : Start tables st₀ := ⟨fun _ ↦ rfl, fun _ _ ↦ ⟨_, hsc⟩, rfl, rfl, fun _ ↦ rfl⟩
  have hroutes := create_routes (htables ⟨0, by decide⟩)
  have hlook : (tables ⟨0, by decide⟩).lookup 0x0a000002 ≠ none := by
    obtain ⟨fds, -, hb⟩ := ConnTable.create_built (htables ⟨0, by decide⟩)
    have hrow : (SlotKeys.threeHosts.peers.eraseIdx 0)[0]? = some (SlotKeys.threeHosts.at ⟨1, by decide⟩) := rfl
    have hk : (tables ⟨0, by decide⟩).lookup 0x0a000002 = some 0 := lookup_eq hb (by decide) hrow
    exact hk ▸ Option.some_ne_none 0
  have ha := plainRead_accepted hlook Mtu.packetScratch
  obtain ⟨st', sent, hrun, hshape, hwire⟩ := tunReader_wire hroutes ha ⟨0, fun _ _ ↦ 0⟩
  have h₁ : Mesh.Step WellFormed st₀ _ := .read ⟨0, by decide⟩ 0 plainRead_wellFormed (.accepted ha) hrun
  -- one datagram, for the only endpoint of the second host
  have hd : Distinct SlotKeys.threeHosts := distinct_of_nodup (by decide) (by decide)
  have hdg := accepted_dgrams hroutes ha hrun fun _ _ ↦ create_home (htables ⟨0, by decide⟩)
  obtain ⟨dg, hdgs⟩ : ∃ dg, sent.flatMap (emitted st'.conns) = [dg] := by
    refine List.length_eq_one_iff.mp ?_
    rw [← List.length_map (f := Dgram.payload), accepted_payloads hroutes ha hrun]
    rfl
  rw [hdgs] at hdg h₁
  obtain ⟨hsrc, hpay, c, -, hvip, hdst⟩ := hdg dg List.mem_cons_self
  obtain rfl := hd.vip c ⟨1, by decide⟩ hvip
  have hdst : dg.dst = .inet 7000 0x020200c0 := List.mem_singleton.mp hdst
  have hpay : dg.payload = plainPkt := List.mem_singleton.mp hpay
  obtain ⟨ds, harrived, hlen⟩ := @arrived_any (.inet 7000 0x020200c0) [dg]
    (fun d hd ↦ List.mem_singleton.mp hd ▸ hdst)
    (fun d hd ↦ by rw [List.mem_singleton.mp hd, hpay]; decide)
  obtain ⟨d, rfl⟩ := List.length_eq_one_iff.mp hlen
  obtain ⟨sc₁, hrecv⟩ := recvmmsg_any (start_ready hsc) (show [d].length ≤ batch from (show 1 ≤ batch by decide))
  obtain ⟨t, sc', hread, -⟩ := udpReader_eq (start_ready hsc) hrecv (tables ⟨1, by decide⟩) 0 5
  have hdeliver : Lib.Network.Delivery (Net.empty.send [dg]) [dg] { Net.empty.send [dg] with
      inFlight := 0
      delivered := {dg} } := ⟨rfl, rfl, rfl, rfl, rfl⟩
  have h₂ : Mesh.Step WellFormed { st₀ with
      hosts := Function.update st₀.hosts ⟨0, by decide⟩
        ⟨st'.conns, Function.update (fun _ ↦ Mtu.packetScratch) 0 st'.sc, fun _ ↦ sc⟩
      net := Net.empty.send [dg]
      built := [(⟨0, by decide⟩, plainPkt)] } _ :=
    .receive ⟨1, by decide⟩ (j := 0) rfl hdeliver harrived hrecv hread
  have hwords : ((SlotKeys.threeHosts.peers.flatMap Peer.dsts).map SockAddr.sinAddr).Nodup := by decide
  have hown (a : Fin SlotKeys.threeHosts.peers.length) :
      Mirror.OwnAddrs SlotKeys.threeHosts (SlotKeys.threeHosts.at a) :=
    Mirror.ownAddrs_of_nodup hwords (List.getElem_mem a.2)
  obtain ⟨fds, hfds, hb⟩ := ConnTable.create_built (htables ⟨1, by decide⟩)
  obtain ⟨k, hat⟩ := @Mirror.exists_at SlotKeys.threeHosts ⟨0, by decide⟩ ⟨1, by decide⟩ (by decide)
  obtain ⟨i, hi⟩ := List.mem_iff_getElem?.mp hsrc
  obtain ⟨x, hfound⟩ : ∃ x, (tables ⟨1, by decide⟩).lookupSlot 0 dg.src = some x :=
    ⟨_, Mirror.lookupSlot_eq hat hfds hb (hown ⟨0, by decide⟩) (hown ⟨1, by decide⟩) hi (show 0 < 1 by decide)⟩
  obtain ⟨s₀, hs₀, -⟩ := lookupSlot_slot (htables ⟨1, by decide⟩) hfound
  obtain ⟨_, hmem, haddr⟩ := arrived_src harrived List.mem_cons_self
  obtain rfl := List.mem_singleton.mp hmem
  have hslots := udpReaderLoop_slots _ _ (midway_zero (start_ready hsc) hrecv) (Nat.zero_add _) hread x
  rw [if_pos ⟨d, List.mem_cons_self, haddr ▸ hfound⟩, hs₀] at hslots
  refine ⟨tables, _, x, s₀, _, ht, ⟨st₀, hstart, (Relation.ReflTransGen.single h₁).tail h₂⟩, rfl, rfl, rfl, rfl, hs₀,
    hslots, ?_⟩
  rw [LastSeen.create_lastSeen (htables ⟨1, by decide⟩) hs₀]
  exact (show (5 : UInt64) ≠ 0 by decide)

theorem reachable_delivered_sample : ∃ tables st, Tables tables ∧ Mesh.Reachable WellFormed tables st ∧
    @Delivered SlotKeys.threeHosts st ⟨1, by decide⟩ ∧
      (st.written ⟨1, by decide⟩ : Multiset (List UInt8)) = {withHeader plainPkt} := by
  obtain ⟨tables, st, x, s₀, s, ht, hst, hflight, hlost, hcopied, hbuilt, -⟩ := sample_run
  have hd := reachable_delivered ht (distinct_of_nodup (by decide) (by decide)) (fun _ h ↦ h) hst ⟨1, by decide⟩
  refine ⟨tables, st, ht, hst, hd, ?_⟩
  obtain ⟨received, hwritten, haccount⟩ := hd.account
  have hfor : builtFor st ⟨1, by decide⟩ = [plainPkt] := by
    rw [builtFor, hbuilt]
    rfl
  rw [hflight, hlost, hcopied, hfor] at haccount
  have hreceived : received = {plainPkt} := by simpa [packetsFor] using haccount
  rw [hwritten, hreceived, Multiset.map_singleton]

end Gofra.Delivery
