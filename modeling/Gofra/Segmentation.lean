import Gofra.GsoSplit

namespace Gofra.Segmentation

open Lib.Buffer Csum Gso GsoSegment GsoSplit

def ipv4HdrLen (p : List UInt8) : ℕ := 4 * (p.getD 0 0 &&& 0x0f).toNat

def tcpHdrLen (p : List UInt8) (off : ℕ) : ℕ := 4 * (p.getD (off + 12) 0 >>> 4).toNat

/-- An IPv4/TCP super-packet of `inLen` bytes as the kernel hands it over, at
the start of the buffer `inp`. -/
structure SuperPacket (inp : List UInt8) (inLen : ℕ) (hdr : VirtioNetHdr) : Prop where
  gsoType : hdr.gsoType = virtioNetHdrGsoTcpv4
  csumStart : hdr.csumStart.toNat = ipv4HdrLen inp
  iphLen : 20 ≤ hdr.csumStart.toNat
  tcpLen : 20 ≤ tcpHdrLen inp hdr.csumStart.toNat
  hdrLen : hdr.hdrLen.toNat = hdr.csumStart.toNat + tcpHdrLen inp hdr.csumStart.toNat
  hdrLen_le : hdr.hdrLen.toNat ≤ inLen
  inLen_le : inLen ≤ 65535
  buffer : inLen ≤ inp.length
  csumOffset : hdr.csumOffset = 16

/-- `seg` is segment `i` of the `k` segments of a super-packet. -/
structure IsSegment (inp : List UInt8) (inLen : ℕ) (hdr : VirtioNetHdr) (k i : ℕ)
    (seg : List UInt8) : Prop where
  length : seg.length = hdr.hdrLen.toNat +
    min hdr.gsoSize.toNat (inLen - hdr.hdrLen.toNat - i * hdr.gsoSize.toNat)
  totalLen : (be16At seg 2).toNat = seg.length
  ident : (be16At seg 4).toNat = ((be16At inp 4).toNat + i) % 2 ^ 16
  tcpSeq : (be32At seg (hdr.csumStart.toNat + 4)).toNat =
    ((be32At inp (hdr.csumStart.toNat + 4)).toNat + i * hdr.gsoSize.toNat) % 2 ^ 32
  flags : seg.getD (hdr.csumStart.toNat + 13) 0 =
    if i + 1 < k then inp.getD (hdr.csumStart.toNat + 13) 0 &&& ~~~(tcpFlagFin ||| tcpFlagPsh)
    else inp.getD (hdr.csumStart.toNat + 13) 0
  header : ∀ j < hdr.hdrLen.toNat, j ∉ [2, 3, 4, 5, 10, 11] →
    j ∉ [4, 5, 6, 7, 13, 16, 17].map (hdr.csumStart.toNat + ·) → seg[j]? = inp[j]?
  payload : seg.drop hdr.hdrLen.toNat = (inp.drop (hdr.hdrLen.toNat + i * hdr.gsoSize.toNat)).take
    (min hdr.gsoSize.toNat (inLen - hdr.hdrLen.toNat - i * hdr.gsoSize.toNat))

variable {inp : List UInt8} {inLen : ℕ} {hdr : VirtioNetHdr}

theorem SuperPacket.splittable (h : SuperPacket inp inLen hdr) : Splittable inp inLen hdr where
  gsoType := h.gsoType
  iphLen := h.iphLen
  tcpLen := by
    have ht := h.tcpLen
    have hl := h.hdrLen
    omega
  hdrLen := h.hdrLen_le
  buffer := h.buffer
  csumOffset := h.csumOffset

section Segment

variable (h : Splittable inp inLen hdr) {i : ℕ}
include h

theorem splitSegment_left {j : ℕ} (hj : j < hdr.csumStart.toNat) :
    (splitSegment inp inLen hdr i)[j]? = (ipv4Hdr (zeroCsums inp hdr) hdr.csumStart.toNat i
      (splitSegment inp inLen hdr i).length)[j]? := by
  have hl := h.hdrLen
  have ht := h.tcpLen
  have hb := h.buffer
  rw [splitSegment, length_segment _ h.zeroed, segmentOf, List.getElem?_append_left]
  rwa [length_ipv4Hdr (by simp only [length_zeroCsums]; omega)]

theorem splitSegment_right (j : ℕ) :
    (splitSegment inp inLen hdr i)[hdr.csumStart.toNat + j]? = (l4Segment (zeroCsums inp hdr)
      (tcpHdr (zeroCsums inp hdr) hdr.csumStart.toNat hdr.hdrLen.toNat
        (be32At (zeroCsums inp hdr) (hdr.csumStart.toNat + 4) +
          hdr.gsoSize.toUInt32 * UInt32.ofNat i) (segEnd inLen hdr i = inLen) ++
        chunk (zeroCsums inp hdr) inLen hdr i))[j]? := by
  have hl := h.hdrLen
  have ht := h.tcpLen
  have hb := h.buffer
  have hip : (ipv4Hdr (zeroCsums inp hdr) hdr.csumStart.toNat i (hdr.hdrLen.toNat +
      (segEnd inLen hdr i - (hdr.hdrLen.toNat + i * hdr.gsoSize.toNat)))).length =
      hdr.csumStart.toNat := length_ipv4Hdr (by simp only [length_zeroCsums]; omega)
  rw [splitSegment, segmentOf, List.getElem?_append_right (by omega), hip, Nat.add_sub_cancel_left]

theorem splitSegment_header {j : ℕ} (hj : j < hdr.hdrLen.toNat) (hip : j ∉ [2, 3, 4, 5, 10, 11])
    (htcp : j ∉ [4, 5, 6, 7, 13, 16, 17].map (hdr.csumStart.toNat + ·)) :
    (splitSegment inp inLen hdr i)[j]? = inp[j]? := by
  have hl := h.hdrLen
  have ht := h.tcpLen
  have hb := h.buffer
  simp only [List.map_cons, List.map_nil, List.mem_cons, List.not_mem_nil, or_false, not_or] at htcp
  have hz : (zeroCsums inp hdr)[j]? = inp[j]? := by
    apply zeroCsums_of_ne
    simp only [List.mem_cons, List.not_mem_nil, or_false, not_or] at hip ⊢
    omega
  rcases Nat.lt_or_ge j hdr.csumStart.toNat with hlt | hge
  · rw [splitSegment_left h hlt, ipv4Hdr_of_ne hlt hip, hz]
  · obtain ⟨k, rfl⟩ : ∃ k, j = hdr.csumStart.toNat + k := ⟨j - hdr.csumStart.toNat, by omega⟩
    have hlen : (tcpHdr (zeroCsums inp hdr) hdr.csumStart.toNat hdr.hdrLen.toNat
        (be32At (zeroCsums inp hdr) (hdr.csumStart.toNat + 4) +
          hdr.gsoSize.toUInt32 * UInt32.ofNat i) (segEnd inLen hdr i = inLen)).length =
        hdr.hdrLen.toNat - hdr.csumStart.toNat :=
      length_tcpHdr (by simp only [length_zeroCsums]; omega)
    rw [splitSegment_right h, l4Segment_of_ne, List.getElem?_append_left (by omega),
      tcpHdr_of_ne hj, hz]
    all_goals
      simp only [List.mem_cons, List.not_mem_nil, or_false, not_or]
      omega

theorem length_segmentTcp : (tcpHdr (zeroCsums inp hdr) hdr.csumStart.toNat hdr.hdrLen.toNat
    (be32At (zeroCsums inp hdr) (hdr.csumStart.toNat + 4) +
      hdr.gsoSize.toUInt32 * UInt32.ofNat i) (segEnd inLen hdr i = inLen)).length =
    hdr.hdrLen.toNat - hdr.csumStart.toNat := by
  have hl := h.hdrLen
  have hb := h.buffer
  exact length_tcpHdr (by simp only [length_zeroCsums]; omega)

theorem splitSegment_payload : (splitSegment inp inLen hdr i).drop hdr.hdrLen.toNat =
    (inp.drop (hdr.hdrLen.toNat + i * hdr.gsoSize.toNat)).take
      (min hdr.gsoSize.toNat (inLen - hdr.hdrLen.toNat - i * hdr.gsoSize.toNat)) := by
  have hip := h.iphLen
  have hl := h.hdrLen
  have ht := h.tcpLen
  have hb := h.buffer
  have htcp := length_segmentTcp h (i := i)
  have hchunk : chunk (zeroCsums inp hdr) inLen hdr i =
      (inp.drop (hdr.hdrLen.toNat + i * hdr.gsoSize.toNat)).take
        (min hdr.gsoSize.toNat (inLen - hdr.hdrLen.toNat - i * hdr.gsoSize.toNat)) := by
    rw [chunk, drop_zeroCsums (by omega) (by omega), segEnd]
    congr 1
    omega
  rw [splitSegment, segmentOf, l4Segment_eq (by omega), ← List.append_assoc, List.drop_left', hchunk]
  rw [List.length_append, length_patch, htcp, length_ipv4Hdr (by simp only [length_zeroCsums]; omega)]
  omega

theorem splitSegment_totalLen (hle : inLen ≤ 65535) :
    (be16At (splitSegment inp inLen hdr i) 2).toNat = (splitSegment inp inLen hdr i).length := by
  have hip := h.iphLen
  have hl := h.hdrLen
  have ht := h.tcpLen
  have hb := h.buffer
  have hlen := length_splitSegment h i
  rw [be16At_congr (splitSegment_left h (by omega)) (splitSegment_left h (by omega)),
    ipv4Hdr_totalLen hip (by simp only [length_zeroCsums]; omega)]
  exact UInt16.toNat_ofNat_of_lt' (by simp only [UInt16.size]; omega)

theorem splitSegment_ident : (be16At (splitSegment inp inLen hdr i) 4).toNat =
    ((be16At inp 4).toNat + i) % 2 ^ 16 := by
  have hip := h.iphLen
  have hl := h.hdrLen
  have ht := h.tcpLen
  have hb := h.buffer
  have hz : be16At (zeroCsums inp hdr) 4 = be16At inp 4 := by
    refine be16At_congr (zeroCsums_of_ne ?_) (zeroCsums_of_ne ?_)
    all_goals
      simp only [List.mem_cons, List.not_mem_nil, or_false, not_or]
      omega
  rw [be16At_congr (splitSegment_left h (by omega)) (splitSegment_left h (by omega)),
    ipv4Hdr_ident hip (by simp only [length_zeroCsums]; omega), hz, UInt16.toNat_add,
    UInt16.toNat_ofNat', Nat.add_mod_mod]

theorem splitSegment_tcpSeq : (be32At (splitSegment inp inLen hdr i) (hdr.csumStart.toNat + 4)).toNat =
    ((be32At inp (hdr.csumStart.toNat + 4)).toNat + i * hdr.gsoSize.toNat) % 2 ^ 32 := by
  have hip := h.iphLen
  have hl := h.hdrLen
  have ht := h.tcpLen
  have hb := h.buffer
  have hz : be32At (zeroCsums inp hdr) (hdr.csumStart.toNat + 4) =
      be32At inp (hdr.csumStart.toNat + 4) := by
    refine be32At_congr fun k hk ↦ zeroCsums_of_ne ?_
    simp only [List.mem_cons, List.not_mem_nil, or_false, not_or]
    omega
  have htcp := length_segmentTcp h (i := i)
  have hseq : be32At (splitSegment inp inLen hdr i) (hdr.csumStart.toNat + 4) =
      be32At (zeroCsums inp hdr) (hdr.csumStart.toNat + 4) +
        hdr.gsoSize.toUInt32 * UInt32.ofNat i := by
    refine Eq.trans (be32At_congr fun k hk ↦ ?_) (tcpHdr_seq _ (segEnd inLen hdr i = inLen) ht
      (show hdr.hdrLen.toNat ≤ (zeroCsums inp hdr).length by simp only [length_zeroCsums]; omega))
    rw [Nat.add_assoc, splitSegment_right h, l4Segment_of_ne, List.getElem?_append_left (by omega)]
    simp only [List.mem_cons, List.not_mem_nil, or_false, not_or]
    omega
  rw [hseq, hz, UInt32.toNat_add, UInt32.toNat_mul, UInt32.toNat_ofNat', UInt16.toNat_toUInt32,
    Nat.add_mod_mod, Nat.mul_comm]
  conv_lhs => rw [Nat.add_mod, Nat.mod_mul_mod, ← Nat.add_mod]

theorem splitSegment_flags (hg : 1 ≤ hdr.gsoSize.toNat) :
    (splitSegment inp inLen hdr i).getD (hdr.csumStart.toNat + 13) 0 =
      if i + 1 < segCount (inLen - hdr.hdrLen.toNat) hdr.gsoSize.toNat then
        inp.getD (hdr.csumStart.toNat + 13) 0 &&& ~~~(tcpFlagFin ||| tcpFlagPsh)
      else inp.getD (hdr.csumStart.toNat + 13) 0 := by
  have hip := h.iphLen
  have hl := h.hdrLen
  have ht := h.tcpLen
  have hb := h.buffer
  have htcp := length_segmentTcp h (i := i)
  have hz : (zeroCsums inp hdr).getD (hdr.csumStart.toNat + 13) 0 =
      inp.getD (hdr.csumStart.toNat + 13) 0 := by
    rw [List.getD_eq_getElem?_getD, List.getD_eq_getElem?_getD, zeroCsums_of_ne]
    simp only [List.mem_cons, List.not_mem_nil, or_false, not_or]
    omega
  -- the code's test `nextEnd != inLen` is that this is not the last segment
  have hlast : segEnd inLen hdr i = inLen ↔
      ¬ i + 1 < segCount (inLen - hdr.hdrLen.toNat) hdr.gsoSize.toNat := by
    rw [lt_segCount hg]
    rw [segEnd, Nat.add_one_mul]
    omega
  rw [List.getD_eq_getElem?_getD, splitSegment_right h, l4Segment_of_ne (by simp),
    List.getElem?_append_left (by omega), tcpHdr_flags ht (by simp only [length_zeroCsums]; omega), hz]
  by_cases hk : i + 1 < segCount (inLen - hdr.hdrLen.toNat) hdr.gsoSize.toNat
  · simp [hlast, hk]
  · simp [hlast, hk]

theorem splitSegment_isSegment (hg : 1 ≤ hdr.gsoSize.toNat) (hle : inLen ≤ 65535) :
    IsSegment inp inLen hdr (segCount (inLen - hdr.hdrLen.toNat) hdr.gsoSize.toNat) i
      (splitSegment inp inLen hdr i) where
  length := length_splitSegment h i
  totalLen := splitSegment_totalLen h hle
  ident := splitSegment_ident h
  tcpSeq := splitSegment_tcpSeq h
  flags := splitSegment_flags h hg
  header _ hj hip htcp := splitSegment_header h hj hip htcp
  payload := splitSegment_payload h

end Segment

def outSegment (r : Split) (i : ℕ) : List UInt8 := (r.outBufs.getD i []).take (r.outSizes.getD i 0)

/-- Every entry of a successful result is the segment it should be. -/
theorem splitResult_getElem {outBufs : List (List UInt8)} {outSizes : List ℕ} {maxSegs i : ℕ}
    (hroom : Room (splitSegment inp inLen hdr) 0 (written inLen hdr maxSegs) outBufs outSizes)
    (hi : i < written inLen hdr maxSegs) :
    (splitResult inp inLen hdr outBufs outSizes maxSegs).outSizes[i]? =
      some (splitSegment inp inLen hdr i).length ∧
    ∃ b, (splitResult inp inLen hdr outBufs outSizes maxSegs).outBufs[i]? = some b ∧
      b.take (splitSegment inp inLen hdr i).length = splitSegment inp inLen hdr i := by
  obtain ⟨b, hb, hfit⟩ := hroom.bufs i (Nat.zero_le i) (by omega)
  have hs := hroom.sizes
  exact ⟨fillSizes_getElem (by omega) hi, _, fillBufs_getElem hb hi, List.take_left' rfl⟩

theorem outSegment_splitResult {outBufs : List (List UInt8)} {outSizes : List ℕ} {maxSegs i : ℕ}
    (hroom : Room (splitSegment inp inLen hdr) 0 (written inLen hdr maxSegs) outBufs outSizes)
    (hi : i < written inLen hdr maxSegs) :
    outSegment (splitResult inp inLen hdr outBufs outSizes maxSegs) i = splitSegment inp inLen hdr i := by
  obtain ⟨hsize, b, hb, hbt⟩ := splitResult_getElem hroom hi
  rw [outSegment, List.getD_eq_getElem?_getD, List.getD_eq_getElem?_getD, hb, hsize,
    Option.getD_some, Option.getD_some, hbt]

theorem segCount_le (len : ℕ) {g : ℕ} (hg : 1 ≤ g) : segCount len g ≤ len := by
  rw [segCount, ← Nat.lt_succ_iff, Nat.div_lt_iff_lt_mul (by omega), Nat.succ_mul]
  have h := Nat.le_mul_of_pos_right len hg
  omega

theorem len_le_segCount (len : ℕ) {g : ℕ} (hg : 1 ≤ g) : len ≤ segCount len g * g := by
  have h := Nat.div_add_mod (len + g - 1) g
  have h' := Nat.mod_lt (len + g - 1) hg
  rw [segCount, Nat.mul_comm]
  omega

theorem splitResult_ret (inp : List UInt8) (hg : 1 ≤ hdr.gsoSize.toNat) (hle : inLen ≤ 65535)
    (outBufs : List (List UInt8)) (outSizes : List ℕ) (maxSegs : ℕ) :
    (splitResult inp inLen hdr outBufs outSizes maxSegs).ret =
      if segCount (inLen - hdr.hdrLen.toNat) hdr.gsoSize.toNat ≤ maxSegs
        then (segCount (inLen - hdr.hdrLen.toNat) hdr.gsoSize.toNat : ℤ) else -1 := by
  have hcount := segCount_le (inLen - hdr.hdrLen.toNat) hg
  simp only [splitResult, written]
  by_cases hk : segCount (inLen - hdr.hdrLen.toNat) hdr.gsoSize.toNat ≤ maxSegs
  · rw [if_pos hk, if_pos hk, Nat.min_eq_right hk]
    exact castInt_of_lt (by omega)
  · rw [if_neg hk, if_neg hk]

theorem gsoSplit_segments (h : SuperPacket inp inLen hdr) (hg : 1 ≤ hdr.gsoSize.toNat)
    (outBufs : List (List UInt8)) (outSizes : List ℕ) (maxSegs : ℕ)
    (hbufs : maxSegs ≤ outBufs.length) (hsizes : maxSegs ≤ outSizes.length)
    (hcap : ∀ b ∈ outBufs, hdr.hdrLen.toNat + hdr.gsoSize.toNat ≤ b.length) :
    ∃ r, gsoSplit inp inLen hdr outBufs outSizes maxSegs = some r ∧
      (r.ret = -1 ↔ maxSegs < segCount (inLen - hdr.hdrLen.toNat) hdr.gsoSize.toNat) ∧
      (segCount (inLen - hdr.hdrLen.toNat) hdr.gsoSize.toNat ≤ maxSegs →
        r.ret = segCount (inLen - hdr.hdrLen.toNat) hdr.gsoSize.toNat ∧
        (∀ i < segCount (inLen - hdr.hdrLen.toNat) hdr.gsoSize.toNat, ∃ size b,
          r.outSizes[i]? = some size ∧ r.outBufs[i]? = some b ∧ (b.take size).length = size ∧
          IsSegment inp inLen hdr (segCount (inLen - hdr.hdrLen.toNat) hdr.gsoSize.toNat) i
            (b.take size)) ∧
        (List.range (segCount (inLen - hdr.hdrLen.toNat) hdr.gsoSize.toNat)).flatMap
          (fun i ↦ (outSegment r i).drop hdr.hdrLen.toNat) =
            (inp.take inLen).drop hdr.hdrLen.toNat) := by
  have hs := h.splittable
  have hle := h.inLen_le
  have hcount := segCount_le (inLen - hdr.hdrLen.toNat) hg
  have hroom : Room (splitSegment inp inLen hdr) 0 (written inLen hdr maxSegs) outBufs outSizes := by
    unfold written
    refine ⟨by omega, fun j _ hj ↦ ?_⟩
    have hjlt : j < outBufs.length := by omega
    refine ⟨outBufs[j], List.getElem?_eq_getElem hjlt, ?_⟩
    have hc := hcap _ (List.getElem_mem hjlt)
    rw [length_splitSegment hs]
    omega
  have hret := splitResult_ret inp hg hle outBufs outSizes maxSegs
  refine ⟨_, (gsoSplit_iff hs hg outBufs outSizes maxSegs _).mpr ⟨hroom, rfl⟩, ?_, fun hk ↦ ?_⟩
  · rw [hret]
    split <;> omega
  · have hw : written inLen hdr maxSegs = segCount (inLen - hdr.hdrLen.toNat) hdr.gsoSize.toNat :=
      Nat.min_eq_right hk
    have hseg {i : ℕ} (hi : i < segCount (inLen - hdr.hdrLen.toNat) hdr.gsoSize.toNat) :=
      splitResult_getElem hroom (hw ▸ hi)
    refine ⟨?_, fun i hi ↦ ?_, ?_⟩
    · rw [hret, if_pos hk]
    · obtain ⟨hsize, b, hb, hbt⟩ := hseg hi
      refine ⟨_, b, hsize, hb, by rw [hbt], ?_⟩
      rw [hbt]
      exact splitSegment_isSegment hs hg hle
    · have hpay : ∀ i ∈ List.range (segCount (inLen - hdr.hdrLen.toNat) hdr.gsoSize.toNat),
          (outSegment (splitResult inp inLen hdr outBufs outSizes maxSegs) i).drop hdr.hdrLen.toNat =
            (((inp.take inLen).drop hdr.hdrLen.toNat).drop (i * hdr.gsoSize.toNat)).take
              hdr.gsoSize.toNat := by
        intro i hi
        rw [outSegment_splitResult hroom (hw ▸ List.mem_range.mp hi), splitSegment_payload hs,
          List.drop_drop, List.drop_take, List.take_take, Nat.sub_sub]
      rw [List.flatMap_congr hpay, flatMap_pieces, List.take_of_length_le]
      rw [List.length_drop, List.length_take]
      have := len_le_segCount (inLen - hdr.hdrLen.toNat) hg
      omega

theorem superPacket_congr {inp inp' : List UInt8} {inLen : ℕ} {hdr : VirtioNetHdr}
    (hsame : ∀ j < inLen, inp'[j]? = inp[j]?) (hbuf : inLen ≤ inp'.length) (h : SuperPacket inp inLen hdr) :
    SuperPacket inp' inLen hdr := by
  have hip := h.iphLen
  have htcp := h.tcpLen
  have hhdr := h.hdrLen
  have hle := h.hdrLen_le
  have hget {j : ℕ} (hj : j < inLen) : inp'.getD j 0 = inp.getD j 0 := by
    rw [List.getD_eq_getElem?_getD, List.getD_eq_getElem?_getD, hsame j hj]
  have hip4 : ipv4HdrLen inp' = ipv4HdrLen inp := by
    rw [ipv4HdrLen, ipv4HdrLen, hget (by omega)]
  have htcp4 : tcpHdrLen inp' hdr.csumStart.toNat = tcpHdrLen inp hdr.csumStart.toNat := by
    rw [tcpHdrLen, tcpHdrLen, hget (by omega)]
  exact ⟨h.gsoType, hip4 ▸ h.csumStart, hip, htcp4 ▸ htcp, htcp4 ▸ hhdr, hle, h.inLen_le, hbuf, h.csumOffset⟩

/-- A 45-byte packet with five bytes of payload, FIN, PSH and ACK set. -/
def samplePacket : List UInt8 :=
  [0x45, 0, 0, 45, 0, 7, 0x40, 0, 64, 6, 0xab, 0xcd, 10, 0, 0, 1, 10, 0, 0, 2,
    0x1f, 0x90, 0x1f, 0x91, 0, 0, 0, 100, 0, 0, 0, 0, 0x50, 0x19, 1, 0, 0x12, 0x34, 0, 0,
    1, 2, 3, 4, 5]

def sampleHdr : VirtioNetHdr :=
  { flags := 1, gsoType := 1, hdrLen := 40, gsoSize := 2, csumStart := 20, csumOffset := 16 }

theorem samplePacket_superPacket : SuperPacket samplePacket 45 sampleHdr where
  gsoType := rfl
  csumStart := by decide
  iphLen := by decide
  tcpLen := by decide
  hdrLen := by decide
  hdrLen_le := by decide
  inLen_le := by decide
  buffer := by decide
  csumOffset := rfl

theorem gsoSplit_segments_sample : ∃ r,
    gsoSplit samplePacket 45 sampleHdr (List.replicate 3 (List.replicate 64 0xff)) [0, 0, 0] 3 = some r ∧
      r.ret = 3 := by
  obtain ⟨r, hr, -, hk⟩ := gsoSplit_segments samplePacket_superPacket (by decide)
    (List.replicate 3 (List.replicate 64 0xff)) [0, 0, 0] 3 (by decide) (by decide) (by decide)
  exact ⟨r, hr, (hk (by decide)).1⟩

end Gofra.Segmentation
