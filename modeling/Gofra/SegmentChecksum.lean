import Gofra.Segmentation

namespace Gofra.SegmentChecksum

open Lib.Buffer Lib.OnesComplement Csum Gso GsoSegment GsoSplit Segmentation

/-- The TCP pseudo-header of an IPv4 packet, with the addresses of its own header. -/
def pseudoHeader (p : List UInt8) (l4Len : ℕ) : List UInt8 :=
  (p.drop 12).take 4 ++ (p.drop 16).take 4 ++ [0, 6] ++ be16Bytes (UInt16.ofNat l4Len)

theorem wordSum_be16Bytes (v : UInt16) : wordSum (be16Bytes v) = v.toNat := by
  have h := congrArg UInt16.toNat (be16_bytes v)
  rw [toNat_be16] at h
  simpa only [wordSum, be16Bytes, be16Words, List.sum_cons, List.sum_nil, Nat.add_zero] using h

/-- Filling a zero field at an even offset adds the field's value to the sum. -/
theorem wordSum_patch {l : List UInt8} {off : ℕ} (v : UInt16) (heven : off % 2 = 0)
    (h₀ : l[off]? = some 0) (h₁ : l[off + 1]? = some 0) :
    wordSum (patch l off (be16Bytes v)) = wordSum l + v.toNat := by
  have hlt : off + 1 < l.length := (List.getElem?_eq_some_iff.mp h₁).1
  obtain ⟨a, b, hl, ha⟩ : ∃ a b, l = a ++ ([0, 0] ++ b) ∧ a.length = off := by
    refine ⟨l.take off, l.drop (off + 2), ?_, by simp; omega⟩
    have hd : l.drop off = [0, 0] ++ l.drop (off + 2) := by
      rw [List.drop_eq_getElem_cons (by omega), List.drop_eq_getElem_cons hlt,
        (List.getElem?_eq_some_iff.mp h₀).2, (List.getElem?_eq_some_iff.mp h₁).2]
      rfl
    rw [← hd, List.take_append_drop]
  have hp : patch l off (be16Bytes v) = a ++ (be16Bytes v ++ b) := by
    have h := patch_append_right (a := a) (r := [0, 0] ++ b) (show 0 + (be16Bytes v).length ≤ _ by simp)
    rw [Nat.add_zero, ha, ← hl, patch_zero (by simp)] at h
    exact h
  have ha₂ : a.length % 2 = 0 := by omega
  rw [hp, hl, wordSum_append ha₂, wordSum_append ha₂,
    wordSum_append (show (be16Bytes v).length % 2 = 0 by simp),
    wordSum_append (show ([0, 0] : List UInt8).length % 2 = 0 by simp), wordSum_be16Bytes]
  have hz : wordSum [0, 0] = 0 := rfl
  rw [hz]
  omega

theorem toNat_complement (v : UInt16) : (~~~v).toNat = 65535 - v.toNat := by
  have h := v.toNat_lt
  rw [UInt16.toNat_not]
  simp only [UInt16.size]

/-- A checksum filled into its zeroed field makes the sum of everything it
covers, the initial value included, all ones. -/
theorem rep_wordSum_patch_checksum {l : List UInt8} {off n : ℕ} {initial : UInt64}
    (heven : off % 2 = 0) (h₀ : l[off]? = some 0) (h₁ : l[off + 1]? = some 0)
    (hlen : l.length < 2 ^ 64) (hn : Cong 65535 initial.toNat n) :
    rep 65535 (n + wordSum (patch l off (be16Bytes (~~~checksum l initial)))) = 65535 := by
  have hc : Cong 65535 (initial.toNat + wordSum l) (n + wordSum l) := hn.add (Cong.refl _ _)
  rw [wordSum_patch _ heven h₀ h₁, toNat_complement, checksum_eq_rep l initial hlen, hc.rep_eq,
    ← Nat.add_assoc]
  exact rep_add_compl (by omega) _

variable {inp : List UInt8} {inLen : ℕ} {hdr : VirtioNetHdr}

theorem zeroCsums_zero (h : Splittable inp inLen hdr) {j : ℕ}
    (hj : j ∈ [10, 11, hdr.csumStart.toNat + 16, hdr.csumStart.toNat + 17]) :
    (zeroCsums inp hdr)[j]? = some 0 := by
  have hip := h.iphLen
  have ht := h.tcpLen
  have hl := h.hdrLen
  have hb := h.buffer
  have hself {p : List UInt8} {k : ℕ} (hk : k < p.length) : (patch p k [0])[k]? = some 0 := by
    rw [getElem?_patch (by simp; omega), if_pos (by simp), Nat.sub_self]
    rfl
  have hother {p : List UInt8} {k k' : ℕ} (hk : k' ≠ k) : (patch p k [0])[k']? = p[k']? :=
    getElem?_patch_of_ne (by simp; omega)
  simp only [List.mem_cons, List.not_mem_nil, or_false] at hj
  unfold zeroCsums
  rcases hj with rfl | rfl | rfl | rfl
  · rw [hother (by omega), hother (by omega), hother (by omega), hself (by omega)]
  · rw [hother (by omega), hother (by omega), hself (by simp; omega)]
  · rw [hother (by omega), hself (by simp; omega)]
  · exact hself (by simp; omega)

section Segment

variable (h : Splittable inp inLen hdr) (i : ℕ)
include h

theorem splitSegment_take : (splitSegment inp inLen hdr i).take hdr.csumStart.toNat =
    ipv4Hdr (zeroCsums inp hdr) hdr.csumStart.toNat i (splitSegment inp inLen hdr i).length := by
  have hl := h.hdrLen
  have ht := h.tcpLen
  have hb := h.buffer
  rw [splitSegment, length_segment _ h.zeroed, segmentOf, List.take_left']
  exact length_ipv4Hdr (by simp only [length_zeroCsums]; omega)

theorem splitSegment_ipv4 :
    onesSum ((splitSegment inp inLen hdr i).take hdr.csumStart.toNat) = 65535 := by
  have hip := h.iphLen
  have hl := h.hdrLen
  have ht := h.tcpLen
  have hb := h.buffer
  have hzero (v : UInt16) {j : ℕ} (hj : j = 10 ∨ j = 11) : (patch (identHdr (zeroCsums inp hdr)
      hdr.csumStart.toNat i) 2 (be16Bytes v))[j]? = some 0 := by
    rw [getElem?_patch_of_ne (by simp; omega), identHdr_of_ne (by omega) (by omega),
      zeroCsums_zero h (by simp; omega)]
  have hlen := hdr.csumStart.toNat_lt
  rw [splitSegment_take h, onesSum_eq_rep, ipv4Hdr]
  have hr := rep_wordSum_patch_checksum rfl
    (hzero (UInt16.ofNat (splitSegment inp inLen hdr i).length) (.inl rfl)) (hzero _ (.inr rfl))
    (by rw [length_patch, length_identHdr (by simp only [length_zeroCsums]; omega)]; omega)
    (Cong.refl 65535 (UInt64.toNat 0))
  rw [UInt64.toNat_zero, Nat.zero_add] at hr
  exact hr

theorem splitSegment_addrs {k : ℕ} (hk : 12 ≤ k) (hk' : k ≤ 16) :
    ((splitSegment inp inLen hdr i).drop k).take 4 = ((zeroCsums inp hdr).drop k).take 4 := by
  have hip := h.iphLen
  apply List.ext_getElem? fun j ↦ ?_
  rcases Nat.lt_or_ge j 4 with hj | hj
  · rw [List.getElem?_take_of_lt hj, List.getElem?_take_of_lt hj, List.getElem?_drop,
      List.getElem?_drop, splitSegment_left h (by omega), ipv4Hdr_of_ne (by omega)]
    simp only [List.mem_cons, List.not_mem_nil, or_false, not_or]
    omega
  · rw [List.getElem?_eq_none (by simp; omega), List.getElem?_eq_none (by simp; omega)]

theorem splitSegment_drop : (splitSegment inp inLen hdr i).drop hdr.csumStart.toNat =
    l4Segment (zeroCsums inp hdr) (tcpHdr (zeroCsums inp hdr) hdr.csumStart.toNat hdr.hdrLen.toNat
      (be32At (zeroCsums inp hdr) (hdr.csumStart.toNat + 4) +
        hdr.gsoSize.toUInt32 * UInt32.ofNat i) (segEnd inLen hdr i = inLen) ++
      chunk (zeroCsums inp hdr) inLen hdr i) := by
  have hl := h.hdrLen
  have ht := h.tcpLen
  have hb := h.buffer
  rw [splitSegment, segmentOf, List.drop_left']
  exact length_ipv4Hdr (by simp only [length_zeroCsums]; omega)

theorem splitSegment_tcp (hle : inLen ≤ 65535) :
    onesSum (pseudoHeader (splitSegment inp inLen hdr i)
        ((splitSegment inp inLen hdr i).length - hdr.csumStart.toNat) ++
      (splitSegment inp inLen hdr i).drop hdr.csumStart.toNat) = 65535 := by
  have hip := h.iphLen
  have hl := h.hdrLen
  have ht := h.tcpLen
  have hb := h.buffer
  have hlen := length_splitSegment h i
  have hl4 : (splitSegment inp inLen hdr i).length - hdr.csumStart.toNat =
      ((splitSegment inp inLen hdr i).drop hdr.csumStart.toNat).length := List.length_drop.symm
  rw [splitSegment_drop h, length_l4Segment] at hl4
  rw [hl4, splitSegment_drop h]
  have htcp := length_segmentTcp h (i := i)
  have hcopy {j : ℕ} (hj : j = 16 ∨ j = 17) : (tcpHdr (zeroCsums inp hdr) hdr.csumStart.toNat
      hdr.hdrLen.toNat (be32At (zeroCsums inp hdr) (hdr.csumStart.toNat + 4) +
        hdr.gsoSize.toUInt32 * UInt32.ofNat i) (segEnd inLen hdr i = inLen) ++
      chunk (zeroCsums inp hdr) inLen hdr i)[j]? = some 0 := by
    rw [List.getElem?_append_left (by omega), tcpHdr_of_ne (by omega),
      zeroCsums_zero h (by simp; omega)]
    simp only [List.mem_cons, List.not_mem_nil, or_false, not_or]
    omega
  generalize tcpHdr (zeroCsums inp hdr) hdr.csumStart.toNat hdr.hdrLen.toNat
    (be32At (zeroCsums inp hdr) (hdr.csumStart.toNat + 4) + hdr.gsoSize.toUInt32 * UInt32.ofNat i)
    (segEnd inLen hdr i = inLen) ++ chunk (zeroCsums inp hdr) inLen hdr i = l4 at hl4 hcopy ⊢
  have hsrc : (((zeroCsums inp hdr).drop 12).take 4).length = 4 := by simp; omega
  have hdst : (((zeroCsums inp hdr).drop 16).take 4).length = 4 := by simp; omega
  have hp : pseudoHeader (splitSegment inp inLen hdr i) l4.length =
      ((zeroCsums inp hdr).drop 12).take 4 ++ (((zeroCsums inp hdr).drop 16).take 4 ++
        ([0, 6] ++ be16Bytes (UInt16.ofNat l4.length))) := by
    rw [pseudoHeader, splitSegment_addrs h i le_rfl (by omega),
      splitSegment_addrs h i (by omega) le_rfl, List.append_assoc, List.append_assoc]
  have hc := pseudoHeaderChecksumNoFold_cong 6 (((zeroCsums inp hdr).drop 12).take 4)
    (((zeroCsums inp hdr).drop 16).take 4) (UInt16.ofNat l4.length) (by omega) (by omega)
  have hr := rep_wordSum_patch_checksum rfl (hcopy (.inl rfl)) (hcopy (.inr rfl)) (by omega) hc
  rw [onesSum_eq_rep, wordSum_append (by rw [hp]; simp; omega), hp, wordSum_append (by omega),
    wordSum_append (by omega), ← Nat.add_assoc (wordSum _)]
  exact hr

end Segment

/-- Every segment of a successful split passes the receiver's two checks. -/
theorem gsoSplit_checksums (h : SuperPacket inp inLen hdr) (hg : 1 ≤ hdr.gsoSize.toNat)
    (outBufs : List (List UInt8)) (outSizes : List ℕ) (maxSegs : ℕ) (r : Split)
    (hr : gsoSplit inp inLen hdr outBufs outSizes maxSegs = some r) (hret : 0 ≤ r.ret)
    (i : ℕ) (hi : (i : ℤ) < r.ret) :
    ∃ size b, r.outSizes[i]? = some size ∧ r.outBufs[i]? = some b ∧
      onesSum ((b.take size).take hdr.csumStart.toNat) = 65535 ∧
      onesSum (pseudoHeader (b.take size) (size - hdr.csumStart.toNat) ++
        (b.take size).drop hdr.csumStart.toNat) = 65535 := by
  have hs := h.splittable
  have hle := h.inLen_le
  obtain ⟨hroom, rfl⟩ := (gsoSplit_iff hs hg outBufs outSizes maxSegs r).mp hr
  rw [splitResult_ret inp hg hle] at hi hret
  have hw : i < written inLen hdr maxSegs := by
    unfold written
    split at hi <;> omega
  obtain ⟨hsize, b, hb, hbt⟩ := splitResult_getElem hroom hw
  refine ⟨_, b, hsize, hb, ?_, ?_⟩
  · rw [hbt]
    exact splitSegment_ipv4 hs i
  · rw [hbt]
    exact splitSegment_tcp hs i hle

def sampleSplit : Option Split :=
  gsoSplit samplePacket 45 sampleHdr (List.replicate 3 (List.replicate 64 0xff)) [0, 0, 0] 3

theorem sampleSplit_ret : sampleSplit.map Split.ret = some 3 := by decide +kernel

theorem gsoSplit_checksums_sample : ∃ r size b, sampleSplit = some r ∧ r.outSizes[2]? = some size ∧
    r.outBufs[2]? = some b ∧ onesSum ((b.take size).take 20) = 65535 ∧
    onesSum (pseudoHeader (b.take size) (size - 20) ++ (b.take size).drop 20) = 65535 := by
  obtain ⟨r, hr, hret⟩ := Option.map_eq_some_iff.mp sampleSplit_ret
  obtain ⟨size, b, hs, hb, hip, htcp⟩ := gsoSplit_checksums samplePacket_superPacket (by decide)
    _ _ _ r hr (by omega) 2 (by omega)
  exact ⟨r, size, b, hr, hs, hb, hip, htcp⟩

end Gofra.SegmentChecksum
