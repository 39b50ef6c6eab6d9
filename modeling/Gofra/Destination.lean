import Gofra.Routing
import Gofra.Transmission

namespace Gofra.Destination

open Lib.Buffer Addr Peers Gso GsoSplit Segmentation Conns TunReader Sending Dispatch Transmission

/-- The destination address of an IPv4 packet. -/
def dstOf (pkt : List UInt8) : UInt32 := be32At pkt 16

/-- What a kernel guarantees for the packet in a read: a checksum that is left
to us lies behind the IPv4 header, and a super-packet has the lengths that its
headers say. -/
structure WellFormed (data : List UInt8) : Prop where
  plain : ∀ hdr, decodeVirtioNetHdr data = some hdr → hdr.gsoType = virtioNetHdrGsoNone →
    hdr.flags &&& virtioNetHdrFNeedsCsum ≠ 0 → 20 ≤ hdr.csumStart.toNat
  super : ∀ hdr, decodeVirtioNetHdr data = some hdr → hdr.gsoType = virtioNetHdrGsoTcpv4 →
    SuperPacket (data.drop virtioNetHdrLen) (pktLen data) hdr

/-- `gsoNoneChecksum` changes the two bytes of the checksum field only. -/
theorem gsoNoneChecksum_of_ne {pkt r : List UInt8} {len : ℕ} {csumStart csumOffset : UInt16}
    (h : gsoNoneChecksum pkt len csumStart csumOffset = some r) {j : ℕ}
    (hj : j < csumStart.toNat + csumOffset.toNat ∨ csumStart.toNat + csumOffset.toNat + 2 ≤ j) :
    r[j]? = pkt[j]? := by
  unfold gsoNoneChecksum at h
  simp only [Option.bind_eq_bind, Option.bind_eq_some_iff] at h
  obtain ⟨_, -, p₁, h₁, p₂, h₂, _, -, h₃⟩ := h
  obtain ⟨-, rfl⟩ := store_eq_some.mp h₁
  obtain ⟨-, rfl⟩ := store_eq_some.mp h₂
  obtain ⟨-, rfl⟩ := store_eq_some.mp h₃
  rw [getElem?_patch_of_ne, getElem?_patch_of_ne, getElem?_patch_of_ne]
  all_goals
    simp only [be16Bytes, List.length_cons, List.length_nil]
    omega

theorem completeChecksum_of_lt {sc sc' : Scratch} {len : ℕ} {hdr : VirtioNetHdr}
    (hstart : hdr.flags &&& virtioNetHdrFNeedsCsum ≠ 0 → 20 ≤ hdr.csumStart.toNat)
    (h : sc.completeChecksum len hdr = some sc') {j : ℕ} (hj : j < 20) : sc'.inner[j]? = sc.inner[j]? := by
  rw [Scratch.completeChecksum] at h
  split at h
  · rename_i hneeds
    have hle := hstart hneeds
    rw [Scratch.noneChecksum] at h
    obtain ⟨r, hr, -, rfl⟩ := Option.pmap_eq_some_iff.mp h
    rw [Scratch.setInner_inner]
    exact gsoNoneChecksum_of_ne hr (by omega)
  · obtain rfl := Option.some.inj h
    rfl

/-- Whatever is built from a well-formed read goes where its packet goes. -/
theorem built_dst {sc : Scratch} {data : List UInt8} {hdr : VirtioNetHdr} {pkts : List (List UInt8)}
    (hwf : WellFormed data) (hdec : decodeVirtioNetHdr data = some hdr) (hlen : 20 ≤ pktLen data)
    (h : Transmission.Built (sc.read data) (pktLen data) hdr pkts) : ∀ p ∈ pkts, dstOf p = vipOf data := by
  intro p hp
  rw [dstOf, vipOf]
  refine be32At_congr fun k hk ↦ ?_
  cases h with
  | @plain sc' hnone hsc =>
    obtain rfl := List.mem_singleton.mp hp
    rw [List.getElem?_take_of_lt (by omega), completeChecksum_of_lt (hwf.plain hdr hdec hnone) hsc (by omega),
      inner_read sc (by omega)]
  | @super segs sc' hsuper hsplit hsegs =>
    obtain ⟨j, hj, rfl⟩ := List.mem_map.mp hp
    have hj := List.mem_range.mp hj
    have hip := hsuper.iphLen
    have hhdr := hsuper.hdrLen
    rw [segmentAt_eq hsuper hsplit (by omega) hj, splitSegment_header hsuper.splittable (by omega),
      inner_read sc (by omega)]
    · simp only [List.mem_cons, List.not_mem_nil, or_false, not_or]
      omega
    · simp only [List.map_cons, List.map_nil, List.mem_cons, List.not_mem_nil, or_false, not_or]
      omega

/-- A read of a packet that is not for a peer leaves the table alone. -/
theorem tunReader_ignored {t : ConnTable} {sc : Scratch} {env : Env} {data : List UInt8} {st' : State}
    {sent : List Send} (hrun : tunReader ⟨t, sc⟩ env data = some (st', sent))
    (h : data.length < virtioNetHdrLen + 20 ∨ ¬ IsIPv4 data ∨ t.lookup (vipOf data) = none) :
    st'.conns = t ∧ sent = [] := by
  have hread : readSize = 65673 := rfl
  have hvnet : virtioNetHdrLen = 10 := rfl
  rw [tunReader] at hrun
  dsimp only at hrun
  split at hrun
  · obtain ⟨rfl, rfl⟩ := Prod.mk.inj (Option.some.inj hrun)
    exact ⟨rfl, rfl⟩
  · have hlen : 30 ≤ data.length := by omega
    obtain ⟨hdr, hdec⟩ := exists_decode (show 10 ≤ data.length by omega)
    rw [decode_read sc (show 10 ≤ data.length by omega), hdec] at hrun
    simp only [Option.bind_eq_bind] at hrun
    rw [Option.bind_some, ← pktLen, dstFromIPv4_read sc hlen] at hrun
    have hnone : (if (data.drop virtioNetHdrLen).getD 0 0 >>> 4 = 4 then some (vipOf data) else none).bind
        t.lookup = none := by
      split
      · rename_i h4
        exact (h.resolve_left (by omega)).resolve_left (not_not.mpr h4)
      · rfl
    rw [hnone] at hrun
    obtain ⟨rfl, rfl⟩ := Prod.mk.inj (Option.some.inj hrun)
    exact ⟨rfl, rfl⟩

/-- A well-formed read is sent on, or nothing is sent for it. -/
theorem accepted_or_nil {t : ConnTable} {sc : Scratch} {env : Env} {data : List UInt8} {st' : State}
    {sent : List Send} (hwf : WellFormed data) (hrun : tunReader ⟨t, sc⟩ env data = some (st', sent)) :
    (∃ pkts, Accepted t sc data pkts) ∨ st'.conns = t ∧ sent = [] := by
  by_cases hlen : virtioNetHdrLen + 20 ≤ data.length
  · by_cases h4 : IsIPv4 data
    · cases hk : t.lookup (vipOf data) with
      | none => exact .inr (tunReader_ignored hrun (.inr (.inr hk)))
      | some k =>
        have hconn : t.lookup (vipOf data) ≠ none := hk ▸ Option.some_ne_none k
        obtain ⟨hdr, hdec⟩ := exists_decode (show 10 ≤ data.length by simp only [virtioNetHdrLen] at hlen; omega)
        rw [tunReader_forward hlen h4 hk hdec, forward] at hrun
        simp only [Option.bind_eq_bind] at hrun
        split at hrun
        · rename_i hnone
          obtain ⟨sc', hsc', -⟩ := Option.bind_eq_some_iff.mp hrun
          exact .inl ⟨_, hlen, h4, hconn, hdr, hdec, .plain hnone hsc'⟩
        · split at hrun
          · rename_i htcp
            obtain ⟨⟨segs, sc'⟩, hsplit, hrest⟩ := Option.bind_eq_some_iff.mp hrun
            dsimp only at hrest
            split at hrest
            · obtain ⟨rfl, rfl⟩ := Prod.mk.inj (Option.some.inj hrest)
              exact .inr ⟨rfl, rfl⟩
            · rename_i hsegs
              exact .inl ⟨_, hlen, h4, hconn, hdr, hdec,
                .super (superPacket_read sc (hwf.super hdr hdec htcp)) hsplit (Int.not_lt.mp hsegs)⟩
          · obtain ⟨rfl, rfl⟩ := Prod.mk.inj (Option.some.inj hrun)
            exact .inr ⟨rfl, rfl⟩
    · exact .inr (tunReader_ignored hrun (.inr (.inl h4)))
  · exact .inr (tunReader_ignored hrun (.inl (Nat.lt_of_not_le hlen)))

end Gofra.Destination
