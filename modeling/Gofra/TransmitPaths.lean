import Gofra.PartialChecksum

namespace Gofra.TransmitPaths

open Lib.Buffer Lib.OnesComplement Csum Gso GsoSegment GsoSplit Segmentation SegmentChecksum
  PartialChecksum

theorem patch_be32At {p : List UInt8} {off : ℕ} (h : off + 4 ≤ p.length) :
    patch p off (be32Bytes (be32At p off)) = p := by
  refine patch_eq_self h fun k hk ↦ ?_
  rw [length_be32Bytes] at hk
  have hget {j : ℕ} (hj : j < 4) : some (p.getD (off + j) 0) = p[off + j]? := by
    simp [show off + j < p.length by omega]
  rw [be32At, be32Bytes_be32]
  obtain rfl | rfl | rfl | rfl : k = 0 ∨ k = 1 ∨ k = 2 ∨ k = 3 := by omega
  · exact @hget 0 (by omega)
  · exact hget (by omega)
  · exact hget (by omega)
  · exact hget (by omega)

/-- An IPv4/TCP packet of one segment, as the kernel hands it over: the lengths
and the header checksum are right, and the checksum field of the TCP header
holds the sum of the pseudo-header. -/
structure ParkedPacket (inp : List UInt8) (inLen : ℕ) (hdr : VirtioNetHdr) : Prop
    extends SuperPacket inp inLen hdr where
  protocol : inp.getD 9 0 = ipprotoTcpV
  payload : hdr.hdrLen.toNat < inLen
  single : inLen ≤ hdr.hdrLen.toNat + hdr.gsoSize.toNat
  totalLen : (be16At inp 2).toNat = inLen
  ipv4Csum : (be16At inp 10).toNat =
    65535 - onesSum (patch (inp.take hdr.csumStart.toNat) 10 (be16Bytes 0))
  parked : (be16At inp (hdr.csumStart.toNat + 16)).toNat =
    onesSum (pseudoHeader inp (inLen - hdr.csumStart.toNat))

variable {inp : List UInt8} {inLen : ℕ} {hdr : VirtioNetHdr}

theorem zeroCsums_eq (h : Splittable inp inLen hdr) : zeroCsums inp hdr =
    patch (patch inp 10 (be16Bytes 0)) (hdr.csumStart.toNat + 16) (be16Bytes 0) := by
  have hip := h.iphLen
  have ht := h.tcpLen
  have hl := h.hdrLen
  have hb := h.buffer
  have h₁ : patch (patch inp 10 [0]) 11 [0] = patch inp 10 (be16Bytes 0) :=
    patch_append (by simp; omega)
  rw [zeroCsums, h₁]
  exact patch_append (by simp; omega)

theorem take_zeroCsums (h : Splittable inp inLen hdr) : (zeroCsums inp hdr).take hdr.csumStart.toNat =
    patch (inp.take hdr.csumStart.toNat) 10 (be16Bytes 0) := by
  have hip := h.iphLen
  have ht := h.tcpLen
  have hl := h.hdrLen
  have hb := h.buffer
  rw [← take_patch (by simp; omega) (by omega), zeroCsums_eq h]
  apply List.ext_getElem? fun j ↦ ?_
  rcases Nat.lt_or_ge j hdr.csumStart.toNat with hj | hj
  · rw [List.getElem?_take_of_lt hj, List.getElem?_take_of_lt hj, getElem?_patch_of_ne (by omega)]
  · rw [List.getElem?_eq_none (by simp; omega), List.getElem?_eq_none (by simp; omega)]

theorem l4Of_zeroCsums (h : Splittable inp inLen hdr) : l4Of (zeroCsums inp hdr) inLen hdr.csumStart =
    patch (l4Of inp inLen hdr.csumStart) 16 (be16Bytes 0) := by
  have hip := h.iphLen
  have ht := h.tcpLen
  have hl := h.hdrLen
  have hb := h.buffer
  have h16 : (16 : UInt16).toNat = 16 := rfl
  have hoff := @l4Of_patch (patch inp 10 (be16Bytes 0)) inLen hdr.csumStart 16 (by omega) (by simpa using hb) 0
  rw [h16] at hoff
  rw [zeroCsums_eq h, hoff]
  congr 1
  rw [l4Of, l4Of, take_patch (by simp; omega) hb]
  apply List.ext_getElem? fun j ↦ ?_
  rw [List.getElem?_drop, List.getElem?_drop, getElem?_patch_of_ne (by simp; omega)]

theorem ipv4Hdr_eq (h : ParkedPacket inp inLen hdr) :
    ipv4Hdr (zeroCsums inp hdr) hdr.csumStart.toNat 0 inLen = inp.take hdr.csumStart.toNat := by
  have hs := h.splittable
  have hip := h.iphLen
  have ht := hs.tcpLen
  have hl := h.hdrLen_le
  have hb := h.buffer
  have hlen : (inp.take hdr.csumStart.toNat).length = hdr.csumStart.toNat := by simp; omega
  have hfield {off : ℕ} (hoff : off + 2 ≤ hdr.csumStart.toNat) :
      be16At (inp.take hdr.csumStart.toNat) off = be16At inp off :=
    be16At_congr (List.getElem?_take_of_lt (by omega)) (List.getElem?_take_of_lt (by omega))
  have htotal : UInt16.ofNat inLen = be16At inp 2 := by
    rw [← h.totalLen, UInt16.ofNat_toNat]
  have hkeep : patch (patch (inp.take hdr.csumStart.toNat) 10 (be16Bytes 0)) 2 (be16Bytes (be16At inp 2)) =
      patch (inp.take hdr.csumStart.toNat) 10 (be16Bytes 0) := by
    have hsame : be16At (patch (inp.take hdr.csumStart.toNat) 10 (be16Bytes 0)) 2 = be16At inp 2 := by
      rw [← hfield (by omega)]
      exact be16At_congr (getElem?_patch_of_ne (by omega)) (getElem?_patch_of_ne (by omega))
    rw [← hsame]
    exact patch_be16At (by simp; omega)
  have hcsum : ~~~checksum (patch (inp.take hdr.csumStart.toNat) 10 (be16Bytes 0)) 0 = be16At inp 10 := by
    apply UInt16.toNat_inj.mp
    have hcs := hdr.csumStart.toNat_lt
    rw [toNat_complement, checksum_eq_rep _ _ (by rw [length_patch, hlen]; omega), UInt64.toNat_zero,
      Nat.zero_add, ← onesSum_eq_rep, h.ipv4Csum]
  rw [ipv4Hdr, identHdr, if_neg (lt_irrefl 0), take_zeroCsums hs, htotal, hkeep, hcsum,
    patch_field (by omega), ← hfield (by omega)]
  exact patch_be16At (by omega)

theorem l4_eq (h : ParkedPacket inp inLen hdr) :
    tcpHdr (zeroCsums inp hdr) hdr.csumStart.toNat hdr.hdrLen.toNat
        (be32At (zeroCsums inp hdr) (hdr.csumStart.toNat + 4) + hdr.gsoSize.toUInt32 * UInt32.ofNat 0)
        (segEnd inLen hdr 0 = inLen) ++ chunk (zeroCsums inp hdr) inLen hdr 0 =
      patch (l4Of inp inLen hdr.csumStart) 16 (be16Bytes 0) := by
  have hs := h.splittable
  have ht := hs.tcpLen
  have hl := h.hdrLen_le
  have hb := h.buffer
  have hend : segEnd inLen hdr 0 = inLen := by
    have hsingle := h.single
    rw [segEnd]
    omega
  have hz : (zeroCsums inp hdr).length = inp.length := length_zeroCsums inp hdr
  have hseq : be32At (((zeroCsums inp hdr).drop hdr.csumStart.toNat).take
      (hdr.hdrLen.toNat - hdr.csumStart.toNat)) 4 = be32At (zeroCsums inp hdr) (hdr.csumStart.toNat + 4) := by
    refine be32At_congr fun k hk ↦ ?_
    rw [List.getElem?_take_of_lt (by omega), List.getElem?_drop, Nat.add_assoc]
  have h0 : hdr.gsoSize.toUInt32 * UInt32.ofNat 0 = 0 := UInt32.mul_zero
  rw [hend, tcpHdr, decide_eq_true rfl, if_pos rfl, h0, UInt32.add_zero, ← hseq,
    patch_be32At (by simp; omega), chunk, hend, ← l4Of_zeroCsums hs, l4Of, Nat.zero_mul, Nat.add_zero,
    ← List.drop_take, ← List.drop_take]
  have hhead : ((zeroCsums inp hdr).take hdr.hdrLen.toNat).drop hdr.csumStart.toNat =
      (((zeroCsums inp hdr).take inLen).drop hdr.csumStart.toNat).take
        (hdr.hdrLen.toNat - hdr.csumStart.toNat) := by
    rw [← List.drop_take, List.take_take, Nat.min_eq_left hl]
  have htail : ((zeroCsums inp hdr).take inLen).drop hdr.hdrLen.toNat =
      (((zeroCsums inp hdr).take inLen).drop hdr.csumStart.toNat).drop
        (hdr.hdrLen.toNat - hdr.csumStart.toNat) := by
    rw [List.drop_drop, show hdr.csumStart.toNat + (hdr.hdrLen.toNat - hdr.csumStart.toNat) =
      hdr.hdrLen.toNat by omega]
  rw [hhead, htail, List.take_append_drop]

/-- The unfolded pseudo-header sum and the parked one agree. -/
theorem pseudoSum_cong (h : ParkedPacket inp inLen hdr) :
    Cong 65535 (pseudoSum (zeroCsums inp hdr) (inLen - hdr.csumStart.toNat)).toNat
      (be16At inp (hdr.csumStart.toNat + 16)).toNat := by
  have hs := h.splittable
  have hip := h.iphLen
  have ht := hs.tcpLen
  have hl := h.hdrLen_le
  have hb := h.buffer
  have haddr {k : ℕ} (hk : 12 ≤ k) (hk' : k ≤ 16) :
      ((zeroCsums inp hdr).drop k).take 4 = (inp.drop k).take 4 := by
    apply List.ext_getElem? fun j ↦ ?_
    rcases Nat.lt_or_ge j 4 with hj | hj
    · rw [List.getElem?_take_of_lt hj, List.getElem?_take_of_lt hj, List.getElem?_drop, List.getElem?_drop,
        zeroCsums_of_ne]
      simp only [List.mem_cons, List.not_mem_nil, or_false, not_or]
      omega
    · rw [List.getElem?_eq_none (by simp; omega), List.getElem?_eq_none (by simp; omega)]
  have hsrc : ((inp.drop 12).take 4).length = 4 := by simp; omega
  have hdst : ((inp.drop 16).take 4).length = 4 := by simp; omega
  have hc := pseudoHeaderChecksumNoFold_cong ipprotoTcpV ((inp.drop 12).take 4) ((inp.drop 16).take 4)
    (UInt16.ofNat (inLen - hdr.csumStart.toNat)) (by omega) (by omega)
  have hwords : wordSum (pseudoHeader inp (inLen - hdr.csumStart.toNat)) =
      wordSum ((inp.drop 12).take 4) + wordSum ((inp.drop 16).take 4) +
        wordSum ([0, ipprotoTcpV] ++ be16Bytes (UInt16.ofNat (inLen - hdr.csumStart.toNat))) := by
    rw [pseudoHeader, List.append_assoc, List.append_assoc, wordSum_append (by omega),
      wordSum_append (by omega), ← Nat.add_assoc]
    rfl
  rw [pseudoSum, haddr (by omega) (by omega), haddr (by omega) (by omega), h.parked, onesSum_eq_rep, hwords]
  exact hc.trans (rep_cong _ _).symm

theorem splitSegment_eq (h : ParkedPacket inp inLen hdr) {v : UInt16}
    (hv : v.toNat = 65535 - rep 65535 (wordSum (l4Of inp inLen hdr.csumStart))) :
    splitSegment inp inLen hdr 0 =
      (patch inp (hdr.csumStart.toNat + 16) (be16Bytes v)).take inLen := by
  have hs := h.splittable
  have ht := hs.tcpLen
  have hl := h.hdrLen_le
  have hle := h.inLen_le
  have hb := h.buffer
  have hsingle := h.single
  have h16 : (16 : UInt16).toNat = 16 := rfl
  have hlen : (l4Of inp inLen hdr.csumStart).length = inLen - hdr.csumStart.toNat := length_l4Of hb
  have htotal : hdr.hdrLen.toNat + (segEnd inLen hdr 0 - (hdr.hdrLen.toNat + 0 * hdr.gsoSize.toNat)) =
      inLen := by
    rw [segEnd]
    omega
  have hparked := @be16At_l4Of inp inLen hdr.csumStart 16 (by omega)
  have hfound := @wordSum_field (l4Of inp inLen hdr.csumStart) 16 rfl (by omega)
    (be16At inp (hdr.csumStart.toNat + 16))
  rw [h16] at hparked
  rw [← hparked, patch_be16At (by omega)] at hfound
  have hcsum : ~~~checksum (patch (l4Of inp inLen hdr.csumStart) 16 (be16Bytes 0))
      (pseudoSum (zeroCsums inp hdr) (inLen - hdr.csumStart.toNat)) = v := by
    apply UInt16.toNat_inj.mp
    rw [toNat_complement, checksum_eq_rep _ _ (by rw [length_patch]; omega), hv, hfound, Nat.add_comm,
      ((Cong.refl 65535 _).add (pseudoSum_cong h)).rep_eq, hparked]
  rw [splitSegment, segmentOf, htotal, ipv4Hdr_eq h, l4_eq h, l4Segment, length_patch, hlen, hcsum,
    patch_field (by omega), take_patch (by simp; omega) hb]
  have htake : (inp.take inLen).take hdr.csumStart.toNat = inp.take hdr.csumStart.toNat := by
    rw [List.take_take, Nat.min_eq_left (by omega)]
  have hcs : (inp.take hdr.csumStart.toNat).length = hdr.csumStart.toNat := by simp; omega
  have hsplit := @patch_append_right _ (inp.take hdr.csumStart.toNat) (l4Of inp inLen hdr.csumStart)
    (be16Bytes v) 16 (by rw [length_be16Bytes]; omega)
  rw [hcs, ← htake, l4Of, List.take_append_drop] at hsplit
  rw [hsplit, htake]
  rfl

theorem transmit_paths_agree (h : ParkedPacket inp inLen hdr) {outBufs : List (List UInt8)}
    {outSizes : List ℕ} {maxSegs : ℕ} (hmax : 1 ≤ maxSegs) (hsizes : outSizes ≠ [])
    {b : List UInt8} (hout : outBufs[0]? = some b) (hcap : inLen ≤ b.length) :
    ∃ r pkt out, gsoSplit inp inLen hdr outBufs outSizes maxSegs = some r ∧ r.ret = 1 ∧
      gsoNoneChecksum inp inLen hdr.csumStart hdr.csumOffset = some pkt ∧
      r.outSizes[0]? = some inLen ∧ r.outBufs[0]? = some out ∧ out.take inLen = pkt.take inLen := by
  have hs := h.splittable
  have ht := hs.tcpLen
  have hl := h.hdrLen_le
  have hle := h.inLen_le
  have hpay := h.payload
  have hsingle := h.single
  have hg : 1 ≤ hdr.gsoSize.toNat := by omega
  have h16 : (16 : UInt16).toNat = 16 := rfl
  obtain ⟨v, hv, hnone⟩ := @gsoNoneChecksum_eq inp inLen hdr.csumStart 16 (by rw [h16]) (by omega) h.buffer
    (by omega)
  have hcount : segCount (inLen - hdr.hdrLen.toNat) hdr.gsoSize.toNat = 1 := by
    rw [segCount_pos hg (by omega), Nat.sub_eq_zero_of_le (by omega), segCount_zero _ hg]
  have hwritten : written inLen hdr maxSegs = 1 := by
    rw [written, hcount]
    omega
  have hlen : (splitSegment inp inLen hdr 0).length = inLen := by
    rw [length_splitSegment hs]
    omega
  have hroom : Room (splitSegment inp inLen hdr) 0 (written inLen hdr maxSegs) outBufs outSizes := by
    rw [hwritten]
    refine ⟨.inl (List.length_pos_iff.mpr hsizes), fun j _ hj ↦ ?_⟩
    obtain rfl : j = 0 := by omega
    exact ⟨b, hout, by rwa [hlen]⟩
  obtain ⟨hsize, out, hbuf, htake⟩ := splitResult_getElem hroom (show 0 < written inLen hdr maxSegs by omega)
  rw [hlen] at hsize htake
  rw [h16] at hnone
  refine ⟨_, patch inp (hdr.csumStart.toNat + 16) (be16Bytes v), out,
    (gsoSplit_iff hs hg outBufs outSizes maxSegs _).mpr ⟨hroom, rfl⟩,
    ?_, ?_, hsize, hbuf, ?_⟩
  · rw [splitResult_ret inp hg hle, hcount, if_pos hmax, Nat.cast_one]
  · rw [h.csumOffset]
    exact hnone
  · rw [htake, splitSegment_eq h hv]

/-- A 45-byte packet from 10.0.0.1 to 10.0.0.2 with five bytes of payload, as the kernel parks it. -/
def parkedPacket : List UInt8 :=
  [0x45, 0, 0, 45, 0, 7, 0x40, 0, 64, 6, 0x26, 0xc2, 10, 0, 0, 1, 10, 0, 0, 2,
    0x1f, 0x90, 0x1f, 0x91, 0, 0, 0, 100, 0, 0, 0, 0, 0x50, 0x19, 1, 0, 0x14, 0x22, 0, 0,
    1, 2, 3, 4, 5]

def parkedHdr : VirtioNetHdr :=
  { flags := 1, gsoType := 1, hdrLen := 40, gsoSize := 1460, csumStart := 20, csumOffset := 16 }

theorem transmit_paths_agree_sample : ∃ r pkt out,
    gsoSplit parkedPacket 45 parkedHdr [List.replicate 64 0xff] [0] 64 = some r ∧ r.ret = 1 ∧
      gsoNoneChecksum parkedPacket 45 20 16 = some pkt ∧ r.outBufs[0]? = some out ∧
        out.take 45 = pkt.take 45 := by
  have h : ParkedPacket parkedPacket 45 parkedHdr := by
    refine ⟨⟨rfl, ?_, ?_, ?_, ?_, ?_, ?_, ?_, rfl⟩, rfl, ?_, ?_, ?_, ?_, ?_⟩ <;> decide
  obtain ⟨r, pkt, out, hr, hret, hpkt, -, hout, heq⟩ := @transmit_paths_agree _ _ _ h
    [List.replicate 64 0xff] [0] 64 (by decide) (by decide) _ rfl (by decide)
  exact ⟨r, pkt, out, hr, hret, hpkt, hout, heq⟩

end Gofra.TransmitPaths
