import Gofra.Bounds
import Gofra.Mtu
import Gofra.Sending
import Gofra.SlotTable

namespace Gofra.Dispatch

open Lib.Buffer Lib.LastWins Addr Peers Gso GsoSplit Segmentation Conns SlotTable TunReader Sending Bounds

def pktLen (data : List UInt8) : ℕ := min data.length readSize - virtioNetHdrLen

/-- Bytes 16 to 19 of the packet in a read. -/
def vipOf (data : List UInt8) : UInt32 := be32At (data.drop virtioNetHdrLen) 16

theorem readBuf_read (sc : Scratch) {data : List UInt8} {j : ℕ} (hj : j < min data.length readSize) :
    (sc.read data).readBuf[j]? = data[j]? := by
  change (data.take readSize ++ sc.readBuf.drop data.length)[j]? = _
  rw [List.getElem?_append_left (by rw [List.length_take]; omega), List.getElem?_take_of_lt (by omega)]

theorem inner_read (sc : Scratch) {data : List UInt8} {j : ℕ} (hj : j < pktLen data) :
    (sc.read data).inner[j]? = (data.drop virtioNetHdrLen)[j]? := by
  have hlt : virtioNetHdrLen + j < min data.length readSize := by
    rw [pktLen] at hj
    omega
  rw [Scratch.inner, List.getElem?_drop, List.getElem?_drop, readBuf_read sc hlt]

theorem length_inner (sc : Scratch) : sc.inner.length = 65663 := by
  rw [Scratch.inner, List.length_drop, sc.length_readBuf]
  rfl

theorem decode_append {p : List UInt8} (h : 10 ≤ p.length) (q : List UInt8) :
    decodeVirtioNetHdr (p ++ q) = decodeVirtioNetHdr p := by
  obtain ⟨_, _, _, _, _, _, _, _, _, _, _, rfl⟩ : ∃ a b c d e f g h i j r,
      p = a :: b :: c :: d :: e :: f :: g :: h :: i :: j :: r := by
    match p, h with
    | a :: b :: c :: d :: e :: f :: g :: h :: i :: j :: r, _ => exact ⟨_, _, _, _, _, _, _, _, _, _, _, rfl⟩
  rfl

theorem decode_read (sc : Scratch) {data : List UInt8} (h : 10 ≤ data.length) :
    decodeVirtioNetHdr (sc.read data).readBuf = decodeVirtioNetHdr data := by
  have hmin : 10 ≤ (data.take readSize).length := by
    have hread : readSize = 65673 := rfl
    rw [List.length_take]
    omega
  change decodeVirtioNetHdr (data.take readSize ++ sc.readBuf.drop data.length) = _
  conv_rhs => rw [← List.take_append_drop readSize data, decode_append hmin]
  rw [decode_append hmin]

theorem exists_decode {data : List UInt8} (h : 10 ≤ data.length) :
    ∃ hdr, decodeVirtioNetHdr data = some hdr := by
  match data, h with
  | a :: b :: c :: d :: e :: f :: g :: h :: i :: j :: r, _ => exact ⟨_, rfl⟩

def IsIPv4 (data : List UInt8) : Prop := (data.drop virtioNetHdrLen).getD 0 0 >>> 4 = 4

theorem dstFromIPv4_read (sc : Scratch) {data : List UInt8} (h : 30 ≤ data.length) :
    dstFromIPv4 (sc.read data).inner (pktLen data) =
      if (data.drop virtioNetHdrLen).getD 0 0 >>> 4 = 4 then some (vipOf data) else none := by
  have hread : readSize = 65673 := rfl
  have hlen : 20 ≤ pktLen data := by
    rw [pktLen, virtioNetHdrLen]
    omega
  have hfirst : (sc.read data).inner.getD 0 0 = (data.drop virtioNetHdrLen).getD 0 0 := by
    rw [List.getD_eq_getElem?_getD, List.getD_eq_getElem?_getD, inner_read sc (by omega)]
  have hvip : be32At (sc.read data).inner 16 = vipOf data :=
    be32At_congr fun k hk ↦ inner_read sc (by omega)
  rw [dstFromIPv4, if_neg (by omega), hfirst, hvip]
  by_cases h4 : (data.drop virtioNetHdrLen).getD 0 0 >>> 4 = 4
  · rw [if_neg (by simpa using h4), if_pos h4]
  · rw [if_pos h4, if_neg h4]

theorem tunReader_forward {st : State} {data : List UInt8} (hlen : 30 ≤ data.length) (h4 : IsIPv4 data) {k : ℕ}
    (hk : st.conns.lookup (vipOf data) = some k) {hdr : VirtioNetHdr}
    (hdec : decodeVirtioNetHdr data = some hdr) (env : Env) :
    tunReader st env data = forward ⟨st.conns, st.sc.read data⟩ k env (pktLen data) hdr := by
  have hread : readSize = 65673 := rfl
  have hvnet : virtioNetHdrLen = 10 := rfl
  rw [tunReader]
  dsimp only
  rw [if_neg (by omega), decode_read st.sc (show 10 ≤ data.length by omega), hdec]
  simp only [Option.bind_eq_bind]
  rw [Option.bind_some, ← pktLen, dstFromIPv4_read st.sc hlen,
    if_pos (show (data.drop virtioNetHdrLen).getD 0 0 >>> 4 = 4 from h4), Option.bind_some, hk]

/-- What other threads leave as it is: everything but counters and `lastSeen`. -/
structure SameShape (t t' : ConnTable) : Prop where
  byVip : t'.byVip = t.byVip
  byEntry : t'.byEntry = t.byEntry
  srcFds : t'.srcFds = t.srcFds
  timeoutMs : t'.timeoutMs = t.timeoutMs
  conns : t'.conns.map (fun c ↦ { c with rr := 0 }) = t.conns.map fun c ↦ { c with rr := 0 }
  allSlots : t'.allSlots.map (fun s ↦ { s with lastSeen := 0 }) =
    t.allSlots.map fun s ↦ { s with lastSeen := 0 }

theorem SameShape.refl (t : ConnTable) : SameShape t t := ⟨rfl, rfl, rfl, rfl, rfl, rfl⟩

theorem SameShape.trans {t t' t'' : ConnTable} (h : SameShape t t') (h' : SameShape t' t'') :
    SameShape t t'' :=
  ⟨h'.byVip.trans h.byVip, h'.byEntry.trans h.byEntry, h'.srcFds.trans h.srcFds,
    h'.timeoutMs.trans h.timeoutMs, h'.conns.trans h.conns, h'.allSlots.trans h.allSlots⟩

theorem SameShape.symm {t t' : ConnTable} (h : SameShape t t') : SameShape t' t :=
  ⟨h.byVip.symm, h.byEntry.symm, h.srcFds.symm, h.timeoutMs.symm, h.conns.symm, h.allSlots.symm⟩

theorem sameShape_bump (t : ConnTable) (k n : ℕ) : SameShape t (bump t k n) := by
  refine ⟨rfl, rfl, rfl, rfl, ?_, rfl⟩
  apply List.ext_getElem? fun j ↦ ?_
  rw [List.getElem?_map, List.getElem?_map]
  by_cases hj : k = j
  · subst hj
    rw [bump, List.getElem?_modify_eq]
    cases t.conns[k]? <;> rfl
  · rw [bump_conns_ne hj]

/-- Every VIP with a connection leads to slots for the endpoints of the peer
with that VIP, and our own has none. -/
structure Routes (peers : PeerTable) (me : Fin peers.peers.length) (t : ConnTable) : Prop where
  conn : ∀ vip k, t.lookup vip = some k → ∃ c p, Sendable t k c ∧ c.vip = vip ∧
    p ∈ peers.peers.eraseIdx me ∧ p.vip = vip ∧
      ∀ x ∈ c.slots, ∃ s, t.allSlots[x]? = some s ∧ s.dstAddr ∈ p.dsts
  own : (peers.peers.map Peer.vip).count (peers.at me).vip = 1 → t.lookup (peers.at me).vip = none

theorem Routes.of_sameShape {peers : PeerTable} {me : Fin peers.peers.length} {t t' : ConnTable}
    (h : Routes peers me t) (hs : SameShape t t') : Routes peers me t' where
  conn := by
    intro vip k hk
    rw [ConnTable.lookup, hs.byVip] at hk
    obtain ⟨c, p, hc, hvip, hp, hpv, hslots⟩ := h.conn vip k hk
    have hconn := congrArg (·[k]?) hs.conns
    simp only [List.getElem?_map, hc.conn, Option.map_some] at hconn
    obtain ⟨c', hc', heq⟩ := Option.map_eq_some_iff.mp hconn
    obtain ⟨hvipEq, -, hslotsEq, -⟩ := Conn.mk.inj heq
    have hslot {x : ℕ} (hx : x ∈ c'.slots) : ∃ s, t'.allSlots[x]? = some s ∧ s.dstAddr ∈ p.dsts := by
      obtain ⟨s, hxs, hd⟩ := hslots x (hslotsEq ▸ hx)
      have hall := congrArg (·[x]?) hs.allSlots
      simp only [List.getElem?_map, hxs, Option.map_some] at hall
      obtain ⟨s', hs', he⟩ := Option.map_eq_some_iff.mp hall
      obtain ⟨-, -, -, hdst, -⟩ := ConnSlot.mk.inj he
      exact ⟨s', hs', hdst ▸ hd⟩
    refine ⟨c', p, ⟨hc', hslotsEq ▸ hc.slots, fun x hx ↦ ?_⟩, ?_, hp, hpv, fun x hx ↦ hslot hx⟩
    · obtain ⟨s, hs, -⟩ := hslot hx
      exact ⟨s, hs⟩
    · exact hvipEq.trans hvip
  own := by
    rw [ConnTable.lookup, hs.byVip]
    exact h.own

theorem create_routes {host : Host} {peers : PeerTable} {me : Fin peers.peers.length}
    {rcvBuf sndBuf : ℤ} {timeoutMs : UInt64} {t : ConnTable}
    (h : ConnTable.create host peers me rcvBuf sndBuf timeoutMs = .ok t) : Routes peers me t := by
  obtain ⟨fds, hfds, hb⟩ := ConnTable.create_built h
  have hrow {vip : UInt32} {k : ℕ} (hk : t.lookup vip = some k) :
      ∃ p, (peers.peers.eraseIdx me)[k]? = some p ∧ p.vip = vip := by
    rw [ConnTable.lookup, hb.byVip] at hk
    obtain hmem | hnone := mem_of_lookup_insertAll hk
    · obtain ⟨⟨p, k'⟩, hp, he⟩ := List.mem_map.mp hmem
      obtain ⟨hv, rfl⟩ := Prod.mk.inj he
      refine ⟨p, List.mem_zipIdx_iff_getElem?.mp hp, ?_⟩
      exact UInt32.toNat_inj.mp (by simpa using congrArg UInt64.toNat hv)
    · rw [AList.lookup_empty] at hnone
      cases hnone
  constructor
  · intro vip k hk
    obtain ⟨p, hp, hv⟩ := hrow hk
    have hc := conns_eq hfds hb hp
    refine ⟨_, p, ⟨hc, ?_, fun x hx ↦ ?_⟩, hv, List.mem_of_getElem? hp, hv, fun x hx ↦ conn_slot hfds hb hp hx⟩
    · rw [Ne, List.range'_eq_nil_iff, Nat.mul_eq_zero, List.length_eq_zero_iff, List.length_eq_zero_iff]
      exact not_or.mpr ⟨p.nonempty, (peers.at me).nonempty⟩
    · obtain ⟨s, hs, -⟩ := conn_slot hfds hb hp hx
      exact ⟨s, hs⟩
  · intro hone
    refine Option.eq_none_iff_forall_ne_some.mpr fun k hk ↦ ?_
    obtain ⟨p, hp, hv⟩ := hrow hk
    have hmem : (peers.at me).vip ∈ (peers.peers.eraseIdx me).map Peer.vip :=
      hv ▸ List.mem_map_of_mem (List.mem_of_getElem? hp)
    have hcount := List.count_pos_iff.mpr hmem
    have hperm := ((List.getElem_cons_eraseIdx_perm me.2).map Peer.vip).count_eq (peers.at me).vip
    have hself : (((peers.at me) :: peers.peers.eraseIdx me).map Peer.vip).count (peers.at me).vip =
        ((peers.peers.eraseIdx me).map Peer.vip).count (peers.at me).vip + 1 := List.count_cons_self
    exact absurd (hself.symm.trans (hperm.trans hone)) (by omega)

/-- The parts of the vnet header that are used lie inside the packet. -/
structure Consistent (data : List UInt8) (hdr : VirtioNetHdr) : Prop where
  plain : hdr.gsoType = virtioNetHdrGsoNone → hdr.flags &&& virtioNetHdrFNeedsCsum ≠ 0 →
    hdr.csumStart.toNat + hdr.csumOffset.toNat + 2 ≤ pktLen data
  super : hdr.gsoType = virtioNetHdrGsoTcpv4 → 20 ≤ hdr.csumStart.toNat ∧
    hdr.csumStart.toNat + hdr.csumOffset.toNat + 2 ≤ hdr.hdrLen.toNat ∧ hdr.hdrLen.toNat ≤ pktLen data

def SegmentsFit (data : List UInt8) (hdr : VirtioNetHdr) : Prop :=
  hdr.gsoType = virtioNetHdrGsoTcpv4 → hdr.hdrLen.toNat < pktLen data →
    Fits hdr segSize (min hdr.gsoSize.toNat (pktLen data - hdr.hdrLen.toNat))
      (pktLen data ≤ hdr.hdrLen.toNat + hdr.gsoSize.toNat)

theorem pktLen_le (data : List UInt8) : pktLen data ≤ 65663 := by
  have hread : readSize = 65673 := rfl
  rw [pktLen, virtioNetHdrLen]
  omega

theorem completeChecksum_works {sc : Scratch} {data : List UInt8} {hdr : VirtioNetHdr}
    (hat : hdr.flags &&& virtioNetHdrFNeedsCsum ≠ 0 →
      hdr.csumStart.toNat + hdr.csumOffset.toNat + 2 ≤ pktLen data) :
    ∃ sc', sc.completeChecksum (pktLen data) hdr = some sc' := by
  have hle := pktLen_le data
  rw [Scratch.completeChecksum]
  split
  · rename_i hneeds
    obtain ⟨r, hr⟩ := gsoNoneChecksum_total (hat hneeds)
      (show pktLen data ≤ sc.inner.length by rw [length_inner]; omega) (by omega)
    obtain ⟨sc', hsc', -⟩ := Scratch.noneChecksum_of_gsoNoneChecksum hr
    exact ⟨sc', hsc'⟩
  · exact ⟨sc, rfl⟩

/-- What a successful `gsoSplit` leaves for `sendUso`. -/
def SplitInto (sc : Scratch) (data : List UInt8) (hdr : VirtioNetHdr) : Prop :=
  ∃ ret sc', sc.split (pktLen data) hdr = some (ret, sc') ∧ (ret = -1 ∨ ∃ segs : ℕ, ret = segs ∧
    Holds sc'.segBufs sc'.segSizes segs fun j ↦ (sc'.segBufs.getD j []).take (sc'.segSizes.getD j 0))

theorem split_works {sc : Scratch} {data : List UInt8} {hdr : VirtioNetHdr} (h20 : 20 ≤ pktLen data)
    (hat : hdr.csumStart.toNat + hdr.csumOffset.toNat + 2 ≤ 65663)
    (hput : hdr.hdrLen.toNat < pktLen data → Placed hdr segSize)
    (hfit : hdr.hdrLen.toNat < pktLen data →
      Fits hdr segSize (min hdr.gsoSize.toNat (pktLen data - hdr.hdrLen.toNat))
        (pktLen data ≤ hdr.hdrLen.toNat + hdr.gsoSize.toNat)) : SplitInto sc data hdr := by
  have hle := pktLen_le data
  have hcs := hdr.csumStart.toNat_lt
  obtain ⟨r, hr, hret⟩ := gsoSplit_total h20
    (show pktLen data ≤ sc.inner.length by rw [length_inner]; omega) (by rw [length_inner]; omega)
    (by rw [length_inner]; omega) (show maxSegs < 2 ^ 31 by decide) hput hfit (fun j hj ↦ sc.segBuf hj)
    sc.length_segSizes.ge
  obtain ⟨sc', hsc', -, hsizes⟩ := Scratch.split_of_gsoSplit hr
  refine ⟨r.ret, sc', hsc', hret.imp_right ?_⟩
  rintro ⟨segs, hsegs, heq, hall⟩
  refine ⟨segs, heq, fun j hj ↦ ?_⟩
  obtain ⟨m, hm, hmle⟩ := hall j hj
  obtain ⟨b, hb, hblen⟩ := sc'.segBuf (show j < maxSegs by omega)
  refine ⟨b, m, hb, hsizes ▸ hm, by omega, ?_⟩
  beta_reduce
  rw [List.getD_eq_getElem?_getD, List.getD_eq_getElem?_getD, hb, hsizes, hm]
  rfl

theorem split_total {sc : Scratch} {data : List UInt8} {hdr : VirtioNetHdr} (h : Consistent data hdr)
    (ht : hdr.gsoType = virtioNetHdrGsoTcpv4) (hfit : SegmentsFit data hdr) : SplitInto sc data hdr := by
  have hle := pktLen_le data
  obtain ⟨hip, hoff, hin⟩ := h.super ht
  have hput (hlt : hdr.hdrLen.toNat < pktLen data) : Placed hdr segSize := by
    have hseg := (hfit ht hlt).segment_le
    exact ⟨by decide, by omega, by omega⟩
  exact split_works (by omega) (by omega) hput (hfit ht)

theorem superPacket_read (sc : Scratch) {data : List UInt8} {hdr : VirtioNetHdr}
    (h : SuperPacket (data.drop virtioNetHdrLen) (pktLen data) hdr) :
    SuperPacket (sc.read data).inner (pktLen data) hdr := by
  refine superPacket_congr (fun j hj ↦ inner_read sc hj) ?_ h
  rw [length_inner]
  exact pktLen_le data

theorem split_ret {sc sc' : Scratch} {inLen : ℕ} {hdr : VirtioNetHdr} (h : SuperPacket sc.inner inLen hdr)
    (hg : 1 ≤ hdr.gsoSize.toNat) {ret : ℤ} (hs : sc.split inLen hdr = some (ret, sc')) :
    ret = if segCount (inLen - hdr.hdrLen.toNat) hdr.gsoSize.toNat ≤ maxSegs
      then (segCount (inLen - hdr.hdrLen.toNat) hdr.gsoSize.toNat : ℤ) else -1 := by
  obtain ⟨r, hr, -, he⟩ := Option.pmap_eq_some_iff.mp hs
  obtain ⟨-, rfl⟩ := (gsoSplit_iff h.splittable hg _ _ _ _).mp hr
  rw [← splitResult_ret sc.inner hg h.inLen_le sc.segBufs sc.segSizes maxSegs]
  exact congrArg Prod.fst he

/-- What forwarding a packet on connection `k` does. -/
structure Forwarded (st : State) (k : ℕ) (data : List UInt8) (hdr : VirtioNetHdr) (st' : State)
    (sent : List Send) : Prop where
  conns : st'.conns = bump st.conns k sent.length
  sentBy : ∀ s ∈ sent, SentBy st.conns k s
  plain : hdr.gsoType = virtioNetHdrGsoNone → sent.length = 1
  other : hdr.gsoType ≠ virtioNetHdrGsoNone → hdr.gsoType ≠ virtioNetHdrGsoTcpv4 → sent = []
  rejected : ∀ sc', hdr.gsoType = virtioNetHdrGsoTcpv4 →
    st.sc.split (pktLen data) hdr = some (-1, sc') → sent = []
  parts : ∀ (segs : ℕ) sc', hdr.gsoType = virtioNetHdrGsoTcpv4 →
    st.sc.split (pktLen data) hdr = some ((segs : ℤ), sc') →
      sent.length = segCount segs ((segs + usoParts - 1) / usoParts)

theorem forward_works {st : State} {k : ℕ} {c : Conn} (hc : Sendable st.conns k c) {data : List UInt8}
    {hdr : VirtioNetHdr} (hplain : hdr.gsoType = virtioNetHdrGsoNone →
      ∃ sc, st.sc.completeChecksum (pktLen data) hdr = some sc)
    (hsuper : hdr.gsoType = virtioNetHdrGsoTcpv4 → SplitInto st.sc data hdr) (env : Env) :
    ∃ st' sent, forward st k env (pktLen data) hdr = some (st', sent) ∧
      Forwarded st k data hdr st' sent := by
  have hne : virtioNetHdrGsoNone ≠ virtioNetHdrGsoTcpv4 := by decide
  rw [forward]
  split
  · rename_i hnone
    obtain ⟨sc, hsc⟩ := hplain hnone
    obtain ⟨s, hs, hby, -⟩ := sendOne_eq hc env (sc.inner.take (pktLen data))
    refine ⟨⟨_, sc⟩, [s], ?_, rfl, ?_, fun _ ↦ rfl, fun hn ↦ absurd hnone hn, ?_, ?_⟩
    · simp only [Option.bind_eq_bind]
      rw [hsc, Option.bind_some, hs]
      rfl
    · intro s' hs'
      rw [List.mem_singleton.mp hs']
      exact hby
    · intro sc' ht
      exact absurd (hnone.symm.trans ht) hne
    · intro segs sc' ht
      exact absurd (hnone.symm.trans ht) hne
  · rename_i hnone
    split
    · rename_i htcp
      obtain ⟨ret, sc, hsplit, hret⟩ := hsuper htcp
      simp only [Option.bind_eq_bind]
      rw [hsplit, Option.bind_some]
      dsimp only
      rcases hret with rfl | ⟨segs, rfl, hsc⟩
      · refine ⟨⟨st.conns, sc⟩, [], rfl, by rw [List.length_nil, bump_zero], nofun,
          fun hn ↦ absurd hn hnone, fun _ _ ↦ rfl, fun _ _ _ ↦ rfl, ?_⟩
        intro segs sc' _ hsegs
        exact absurd (congrArg Prod.fst (Option.some.inj (hsplit.symm.trans hsegs))) (by dsimp only; omega)
      · have hlen : 0 < sc.segSizes.length := by
          rw [sc.length_segSizes]
          decide
        obtain ⟨sent, hsent, hruns⟩ := sendUso_eq hsc env hc (List.getElem?_eq_getElem hlen)
        rw [if_neg (by omega), Int.toNat_natCast, hsent]
        refine ⟨_, sent, rfl, rfl, hruns.sentBy, fun hn ↦ absurd hn hnone, fun _ hn ↦ absurd htcp hn, ?_, ?_⟩
        · intro sc' _ hneg
          exact absurd (congrArg Prod.fst (Option.some.inj (hsplit.symm.trans hneg))) (by dsimp only; omega)
        · intro segs' sc' _ hsegs
          have hret := congrArg Prod.fst (Option.some.inj (hsplit.symm.trans hsegs))
          obtain rfl : segs = segs' := Int.ofNat_inj.mp hret
          exact hruns.length
    · rename_i htcp
      exact ⟨st, [], rfl, by rw [List.length_nil, bump_zero], nofun, fun hn ↦ absurd hn hnone,
        fun _ _ ↦ rfl, fun _ ht ↦ absurd ht htcp, fun _ _ ht ↦ absurd ht htcp⟩

theorem forward_eq {st : State} {k : ℕ} {c : Conn} (hc : Sendable st.conns k c) {data : List UInt8}
    {hdr : VirtioNetHdr} (h : Consistent data hdr) (hfit : SegmentsFit data hdr) (env : Env) :
    ∃ st' sent, forward st k env (pktLen data) hdr = some (st', sent) ∧
      Forwarded st k data hdr st' sent :=
  forward_works hc (fun hnone ↦ completeChecksum_works (h.plain hnone)) (fun htcp ↦ split_total h htcp hfit) env

end Gofra.Dispatch
