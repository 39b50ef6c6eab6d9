import Gofra.Gso

namespace Gofra.GsoSegment

open Lib.Buffer Csum Gso

/-- The input's IPv4 header with the id of segment `i`. -/
def identHdr (inp : List UInt8) (iphLen i : ℕ) : List UInt8 :=
  if 0 < i then patch (inp.take iphLen) 4 (be16Bytes (be16At (inp.take iphLen) 4 + UInt16.ofNat i))
  else inp.take iphLen

/-- The IPv4 header of segment `i`, of `totalLen` bytes in all. -/
def ipv4Hdr (inp : List UInt8) (iphLen i totalLen : ℕ) : List UInt8 :=
  let h := patch (identHdr inp iphLen i) 2 (be16Bytes (UInt16.ofNat totalLen))
  patch h 10 (be16Bytes (~~~checksum h 0))

/-- The TCP header of a segment before its checksum is filled in. -/
def tcpHdr (inp : List UInt8) (iphLen hdrTotal : ℕ) (tcpSeq : UInt32) (last : Bool) : List UInt8 :=
  let t := (inp.drop iphLen).take (hdrTotal - iphLen)
  let t := patch t 4 (be32Bytes tcpSeq)
  if last then t
  else patch t tcpFlagsOffset [t.getD tcpFlagsOffset 0 &&& ~~~(tcpFlagFin ||| tcpFlagPsh)]

def pseudoSum (inp : List UInt8) (l4Len : ℕ) : UInt64 :=
  pseudoHeaderChecksumNoFold ipprotoTcpV ((inp.drop 12).take 4) ((inp.drop 16).take 4)
    (UInt16.ofNat l4Len)

/-- A TCP header and payload with the checksum filled in. -/
def l4Segment (inp l4 : List UInt8) : List UInt8 :=
  patch l4 16 (be16Bytes (~~~checksum l4 (pseudoSum inp l4.length)))

variable {inp out : List UInt8} {hdr : VirtioNetHdr} {iphLen i totalLen : ℕ}

@[simp] theorem length_be16Bytes (v : UInt16) : (be16Bytes v).length = 2 := rfl

@[simp] theorem length_be32Bytes (v : UInt32) : (be32Bytes v).length = 4 := rfl

theorem length_identHdr (hle : iphLen ≤ inp.length) :
    (identHdr inp iphLen i).length = iphLen := by
  have ht : (inp.take iphLen).length = iphLen := by simp; omega
  unfold identHdr
  split <;> simp only [length_patch, ht]

theorem length_ipv4Hdr (hle : iphLen ≤ inp.length) :
    (ipv4Hdr inp iphLen i totalLen).length = iphLen := by
  simp only [ipv4Hdr, length_patch, length_identHdr hle]

theorem writeIpv4Header_eq (h : 20 ≤ hdr.csumStart.toNat) (hin : hdr.csumStart.toNat ≤ inp.length)
    (hout : hdr.csumStart.toNat ≤ out.length) :
    writeIpv4Header inp hdr i totalLen out = some
      (ipv4Hdr inp hdr.csumStart.toNat i totalLen ++ out.drop hdr.csumStart.toNat) := by
  generalize hn : hdr.csumStart.toNat = n at h hin hout
  generalize hr : out.drop n = r
  have ht : (inp.take n).length = n := by simp; omega
  have hread : slice inp 0 n = some (inp.take n) := slice_eq (by omega)
  have hcopy : store out 0 (inp.take n) = some (inp.take n ++ r) := by
    rw [store_eq (by omega), patch_zero (by omega), ht, hr]
  -- every later write stays inside the copied header
  have hput {a : List UInt8} (off : ℕ) (ha : a.length = n) (hoff : off + 2 ≤ 20) (v : UInt16) :
      putBE16 (a ++ r) off v = some (patch a off (be16Bytes v) ++ r) :=
    store_append_left (by simp; omega)
  have hid : bumpId i (inp.take n ++ r) = some (identHdr inp n i ++ r) := by
    unfold bumpId identHdr
    split
    · rw [getBE16_eq (by simp; omega), be16At_append_left (by omega)]
      exact hput 4 ht (by omega) _
    · rfl
  have hidLen : (identHdr inp n i).length = n := length_identHdr hin
  have hsum : slice (patch (identHdr inp n i) 2 (be16Bytes (UInt16.ofNat totalLen)) ++ r) 0 n =
      some (patch (identHdr inp n i) 2 (be16Bytes (UInt16.ofNat totalLen))) := by
    rw [slice_append_left (by simp; omega), slice_eq (by simp; omega), List.drop_zero,
      List.take_of_length_le (by simp; omega)]
  unfold writeIpv4Header ipv4Hdr
  simp only [hn, hread, hcopy, Option.bind_eq_bind, Option.bind_some, hid,
    hput 2 hidLen (by omega) (UInt16.ofNat totalLen), hsum]
  exact hput 10 (by simpa using hidLen) (by omega) _

theorem identHdr_of_ne {j : ℕ} (hj : j < iphLen) (hne : j ≠ 4 ∧ j ≠ 5) :
    (identHdr inp iphLen i)[j]? = inp[j]? := by
  unfold identHdr
  split
  · rw [getElem?_patch_of_ne (by simp only [length_be16Bytes]; omega), List.getElem?_take_of_lt hj]
  · rw [List.getElem?_take_of_lt hj]

theorem identHdr_ident (h : 20 ≤ iphLen) (hle : iphLen ≤ inp.length) :
    be16At (identHdr inp iphLen i) 4 = be16At inp 4 + UInt16.ofNat i := by
  have ht : be16At (inp.take iphLen) 4 = be16At inp 4 :=
    be16At_congr (List.getElem?_take_of_lt (by omega)) (List.getElem?_take_of_lt (by omega))
  unfold identHdr
  split
  · rw [be16At_be16Bytes _ (by simp; omega), ht]
  · obtain rfl : i = 0 := by omega
    rw [ht]
    exact (UInt16.add_zero _).symm

theorem ipv4Hdr_of_ne {j : ℕ} (hj : j < iphLen) (hne : j ∉ [2, 3, 4, 5, 10, 11]) :
    (ipv4Hdr inp iphLen i totalLen)[j]? = inp[j]? := by
  simp only [List.mem_cons, List.not_mem_nil, or_false, not_or] at hne
  unfold ipv4Hdr
  rw [getElem?_patch_of_ne (by simp only [length_be16Bytes]; omega),
    getElem?_patch_of_ne (by simp only [length_be16Bytes]; omega), identHdr_of_ne hj (by omega)]

theorem ipv4Hdr_totalLen (h : 20 ≤ iphLen) (hle : iphLen ≤ inp.length) :
    be16At (ipv4Hdr inp iphLen i totalLen) 2 = UInt16.ofNat totalLen := by
  have hl : (identHdr inp iphLen i).length = iphLen := length_identHdr hle
  have hf {j : ℕ} (hj : j < 10) : (ipv4Hdr inp iphLen i totalLen)[j]? =
      (patch (identHdr inp iphLen i) 2 (be16Bytes (UInt16.ofNat totalLen)))[j]? := by
    unfold ipv4Hdr
    rw [getElem?_patch_of_ne (by simp only [length_be16Bytes]; omega)]
  rw [← be16At_be16Bytes (UInt16.ofNat totalLen) (show 2 + 2 ≤ (identHdr inp iphLen i).length by omega)]
  exact be16At_congr (hf (by omega)) (hf (by omega))

theorem ipv4Hdr_ident (h : 20 ≤ iphLen) (hle : iphLen ≤ inp.length) :
    be16At (ipv4Hdr inp iphLen i totalLen) 4 = be16At inp 4 + UInt16.ofNat i := by
  have hf {j : ℕ} (hj : j = 4 ∨ j = 5) :
      (ipv4Hdr inp iphLen i totalLen)[j]? = (identHdr inp iphLen i)[j]? := by
    unfold ipv4Hdr
    rw [getElem?_patch_of_ne (by simp only [length_be16Bytes]; omega),
      getElem?_patch_of_ne (by simp only [length_be16Bytes]; omega)]
  rw [← identHdr_ident h hle]
  exact be16At_congr (hf (by omega)) (hf (by omega))

theorem length_bumpId {out' : List UInt8} (h : bumpId i out = some out') :
    out'.length = out.length := by
  unfold bumpId at h
  split at h
  · obtain ⟨id, -, h⟩ := Option.bind_eq_some_iff.mp h
    exact length_of_store h
  · cases h
    rfl

theorem length_clearFinPsh {inLen nextEnd : ℕ} {out' : List UInt8}
    (h : clearFinPsh iphLen nextEnd inLen out = some out') : out'.length = out.length := by
  unfold clearFinPsh at h
  split at h
  · obtain ⟨flags, -, h⟩ := Option.bind_eq_some_iff.mp h
    exact length_of_store h
  · cases h
    rfl

theorem length_writeIpv4Header {out' : List UInt8}
    (h : writeIpv4Header inp hdr i totalLen out = some out') : out'.length = out.length := by
  unfold writeIpv4Header at h
  simp only [Option.bind_eq_bind, Option.bind_eq_some_iff] at h
  obtain ⟨_, -, _, h₁, _, h₂, _, h₃, _, -, h₄⟩ := h
  rw [length_of_store h₄, length_of_store h₃, length_bumpId h₂, length_of_store h₁]

theorem length_writeTransport {inLen nextDataAt nextEnd : ℕ} {seq : UInt32} {out' : List UInt8}
    (h : writeTransport inp inLen hdr seq i nextDataAt nextEnd out = some out') :
    out'.length = out.length := by
  unfold writeTransport at h
  simp only [Option.bind_eq_bind, Option.bind_eq_some_iff] at h
  obtain ⟨_, -, _, h₁, _, h₂, _, h₃, _, -, _, h₄, _, -, _, -, _, -, h₆⟩ := h
  rw [length_of_store h₆, length_of_store h₄, length_clearFinPsh h₃, length_of_store h₂,
    length_of_store h₁]

/-- A write that succeeds has fitted in its buffer. -/
theorem writeTransport_fits {inLen nextDataAt nextEnd : ℕ} {seq : UInt32} {out' : List UInt8}
    (h : writeTransport inp inLen hdr seq i nextDataAt nextEnd out = some out')
    (hle : hdr.csumStart.toNat ≤ hdr.hdrLen.toNat) (hsize : nextEnd - nextDataAt < 2 ^ 16) :
    hdr.hdrLen.toNat + (nextEnd - nextDataAt) ≤ out.length := by
  have hlt := hdr.hdrLen.toNat_lt
  have hlen := length_writeTransport h
  unfold writeTransport at h
  simp only [Option.bind_eq_bind, Option.bind_eq_some_iff] at h
  obtain ⟨_, -, _, -, _, -, _, -, _, -, _, -, _, -, _, -, _, h₅, h₆⟩ := h
  have hread := (slice_eq_some.mp h₅).1
  rw [subSize_eq (by omega) (by omega), ← length_of_store h₆] at hread
  omega

theorem length_tcpHdr {hdrTotal : ℕ} {tcpSeq : UInt32} {last : Bool} (h : hdrTotal ≤ inp.length) :
    (tcpHdr inp iphLen hdrTotal tcpSeq last).length = hdrTotal - iphLen := by
  have ht : ((inp.drop iphLen).take (hdrTotal - iphLen)).length = hdrTotal - iphLen := by simp; omega
  unfold tcpHdr
  split <;> simp only [length_patch, ht]

@[simp] theorem length_l4Segment (inp l4 : List UInt8) : (l4Segment inp l4).length = l4.length :=
  length_patch _ _ _

/-- The flags are cleared in the TCP header `t`, which comes behind `ip`. -/
theorem clearFinPsh_eq {ip t r : List UInt8} {nextEnd inLen : ℕ} (h : tcpFlagsOffset < t.length) :
    clearFinPsh ip.length nextEnd inLen (ip ++ (t ++ r)) = some (ip ++ ((if nextEnd = inLen then t
      else patch t tcpFlagsOffset [t.getD tcpFlagsOffset 0 &&& ~~~(tcpFlagFin ||| tcpFlagPsh)]) ++ r)) := by
  rw [clearFinPsh]
  by_cases hlast : nextEnd = inLen
  · rw [if_neg (not_not.mpr hlast), if_pos hlast]
  · have hget : (ip ++ (t ++ r))[ip.length + tcpFlagsOffset]? = some (t.getD tcpFlagsOffset 0) := by
      rw [List.getElem?_append_right (Nat.le_add_right _ _), Nat.add_sub_cancel_left,
        List.getElem?_append_left h, List.getD_eq_getElem?_getD, List.getElem?_eq_getElem h, Option.getD_some]
    rw [if_pos hlast, if_neg hlast, hget, Option.bind_eq_bind, Option.bind_some]
    exact store_mid h

theorem writeTransport_eq {ip r : List UInt8} {inLen nextDataAt nextEnd : ℕ} {seq : UInt32}
    (hip : ip.length = hdr.csumStart.toNat) (h20 : 20 ≤ hdr.csumStart.toNat)
    (htcp : hdr.csumStart.toNat + 20 ≤ hdr.hdrLen.toNat)
    (hin : hdr.hdrLen.toNat ≤ inp.length) (hoff : hdr.csumOffset = 16)
    (hd : nextDataAt ≤ nextEnd) (hend : nextEnd ≤ inp.length) (hsize : nextEnd - nextDataAt < 2 ^ 16)
    (hr : hdr.hdrLen.toNat - hdr.csumStart.toNat + (nextEnd - nextDataAt) ≤ r.length) :
    writeTransport inp inLen hdr seq i nextDataAt nextEnd (ip ++ r) = some (ip ++ (l4Segment inp
      (tcpHdr inp hdr.csumStart.toNat hdr.hdrLen.toNat
          (seq + hdr.gsoSize.toUInt32 * UInt32.ofNat i) (nextEnd = inLen) ++
        (inp.drop nextDataAt).take (nextEnd - nextDataAt)) ++
      r.drop (hdr.hdrLen.toNat - hdr.csumStart.toNat + (nextEnd - nextDataAt)))) := by
  have hlt := hdr.hdrLen.toNat_lt
  generalize hn : hdr.csumStart.toNat = n at *
  generalize hm : hdr.hdrLen.toNat = m at *
  generalize hD : nextEnd - nextDataAt = d at *
  generalize hchunk : (inp.drop nextDataAt).take d = chunk
  have hchunkLen : chunk.length = d := by rw [← hchunk]; simp; omega
  generalize ht : (inp.drop n).take (m - n) = t
  have htLen : t.length = m - n := by rw [← ht]; simp; omega
  generalize htcpSeq : seq + hdr.gsoSize.toUInt32 * UInt32.ofNat i = tcpSeq
  generalize ht' : tcpHdr inp n m tcpSeq (decide (nextEnd = inLen)) = t'
  have ht'Len : t'.length = m - n := by rw [← ht']; exact length_tcpHdr hin
  have hcopy : store (ip ++ r) n t = some (ip ++ (t ++ r.drop (m - n))) := by
    have h := store_append_right ip r 0 (show 0 + t.length ≤ r.length by omega)
    rwa [Nat.add_zero, hip, patch_zero (by omega), htLen] at h
  generalize hr₁ : r.drop (m - n) = r₁ at hcopy
  have hseq : putBE32 (ip ++ (t ++ r₁)) (n + 4) tcpSeq =
      some (ip ++ (patch t 4 (be32Bytes tcpSeq) ++ r₁)) := by
    rw [← hip]
    exact store_mid (by simp only [length_be32Bytes]; omega)
  have hflags : clearFinPsh n nextEnd inLen (ip ++ (patch t 4 (be32Bytes tcpSeq) ++ r₁)) =
      some (ip ++ (t' ++ r₁)) := by
    have hk : tcpFlagsOffset < (patch t 4 (be32Bytes tcpSeq)).length := by
      rw [length_patch, tcpFlagsOffset]
      omega
    have hclear := @clearFinPsh_eq ip _ r₁ nextEnd inLen hk
    rw [← ht', tcpHdr, ht]
    simpa only [hip, decide_eq_true_eq] using hclear
  have hdata : store (ip ++ (t' ++ r₁)) m chunk = some (ip ++ (t' ++ chunk ++ r₁.drop d)) := by
    have hlen : (ip ++ t').length = m := by simp; omega
    have h := store_append_right (ip ++ t') r₁ 0
      (show 0 + chunk.length ≤ r₁.length by rw [← hr₁]; simp; omega)
    rwa [Nat.add_zero, hlen, patch_zero (by rw [← hr₁]; simp; omega), hchunkLen,
      List.append_assoc, List.append_assoc, ← List.append_assoc t'] at h
  have hr₂ : r₁.drop d = r.drop (m - n + d) := by rw [← hr₁, List.drop_drop]
  rw [hr₂] at hdata
  have hbody : (t' ++ chunk).length = m - n + d := by simp; omega
  have hsum : slice (ip ++ (t' ++ chunk ++ r.drop (m - n + d))) n (m - n + d) =
      some (t' ++ chunk) := by
    rw [← hbody, ← hip]
    exact slice_mid _ _ _
  have hcsum : putBE16 (ip ++ (t' ++ chunk ++ r.drop (m - n + d))) (n + 16)
      (~~~checksum (t' ++ chunk) (pseudoSum inp (m - n + d))) =
        some (ip ++ (l4Segment inp (t' ++ chunk) ++ r.drop (m - n + d))) := by
    rw [l4Segment, hbody, ← hip]
    exact store_mid (by simp only [length_be16Bytes]; omega)
  have hread : slice inp n (m - n) = some t := by rw [slice_eq (by omega), ht]
  have hreadData : slice inp nextDataAt d = some chunk := by rw [slice_eq (by omega), hchunk]
  have hsrc : slice inp ipv4SrcAddrOffset ipv4AddrLen = some ((inp.drop 12).take 4) :=
    slice_eq (by simp only [ipv4SrcAddrOffset, ipv4AddrLen]; omega)
  have hdst : slice inp (ipv4SrcAddrOffset + ipv4AddrLen) ipv4AddrLen =
      some ((inp.drop 16).take 4) :=
    slice_eq (by simp only [ipv4SrcAddrOffset, ipv4AddrLen]; omega)
  have h16 : (16 : UInt16).toNat = 16 := rfl
  unfold writeTransport
  simp only [hn, hm, hD, subSize_eq (show n ≤ m by omega) (by omega),
    subSize_eq (show n ≤ m + d by omega) (by omega), htcpSeq, hread, Option.bind_eq_bind,
    Option.bind_some, hcopy, hseq, hflags, hreadData, hdata, hsrc, hdst, hoff, h16]
  rw [show m + d - n = m - n + d by omega, hsum]
  exact hcsum

section Tcp

variable {hdrTotal : ℕ} {tcpSeq : UInt32} {last : Bool}

theorem tcpHdr_of_ne {j : ℕ} (hj : iphLen + j < hdrTotal) (hne : j ∉ [4, 5, 6, 7, 13]) :
    (tcpHdr inp iphLen hdrTotal tcpSeq last)[j]? = inp[iphLen + j]? := by
  have ht : ((inp.drop iphLen).take (hdrTotal - iphLen))[j]? = inp[iphLen + j]? := by
    rw [List.getElem?_take_of_lt (by omega), List.getElem?_drop]
  simp only [List.mem_cons, List.not_mem_nil, or_false, not_or] at hne
  unfold tcpHdr
  split
  · rw [getElem?_patch_of_ne (by simp only [length_be32Bytes]; omega), ht]
  · rw [getElem?_patch_of_ne (by simp only [tcpFlagsOffset, List.length_singleton]; omega),
      getElem?_patch_of_ne (by simp only [length_be32Bytes]; omega), ht]

theorem tcpHdr_seq (tcpSeq : UInt32) (last : Bool) (h : iphLen + 20 ≤ hdrTotal)
    (hle : hdrTotal ≤ inp.length) :
    be32At (tcpHdr inp iphLen hdrTotal tcpSeq last) 4 = tcpSeq := by
  have ht : 4 + 4 ≤ ((inp.drop iphLen).take (hdrTotal - iphLen)).length := by simp; omega
  unfold tcpHdr
  split
  · exact be32At_be32Bytes _ ht
  · conv_rhs => rw [← be32At_be32Bytes tcpSeq ht]
    refine be32At_congr fun k hk ↦ getElem?_patch_of_ne ?_
    simp only [tcpFlagsOffset]
    omega

theorem tcpHdr_flags (h : iphLen + 20 ≤ hdrTotal) (hle : hdrTotal ≤ inp.length) :
    (tcpHdr inp iphLen hdrTotal tcpSeq last)[13]? = some (if last then inp.getD (iphLen + 13) 0
      else inp.getD (iphLen + 13) 0 &&& ~~~(tcpFlagFin ||| tcpFlagPsh)) := by
  have hget : (patch ((inp.drop iphLen).take (hdrTotal - iphLen)) 4 (be32Bytes tcpSeq))[13]? =
      some (inp.getD (iphLen + 13) 0) := by
    rw [getElem?_patch_of_ne (by simp), List.getElem?_take_of_lt (by omega), List.getElem?_drop]
    simp [show iphLen + 13 < inp.length by omega]
  unfold tcpHdr
  split
  · exact hget
  · rw [tcpFlagsOffset, getElem?_patch (by simp; omega), if_pos (by simp)]
    simp [List.getD_eq_getElem?_getD, hget]

/-- The checksum is written inside the header, so the payload is untouched. -/
theorem l4Segment_eq {t data : List UInt8} (ht : 20 ≤ t.length) : l4Segment inp (t ++ data) =
    patch t 16 (be16Bytes (~~~checksum (t ++ data) (pseudoSum inp (t ++ data).length))) ++ data :=
  patch_append_left (by simp only [length_be16Bytes]; omega)

theorem l4Segment_of_ne {l4 : List UInt8} {j : ℕ} (hj : j ∉ [16, 17]) :
    (l4Segment inp l4)[j]? = l4[j]? := by
  simp only [List.mem_cons, List.not_mem_nil, or_false, not_or] at hj
  exact getElem?_patch_of_ne (by simp only [length_be16Bytes]; omega)

end Tcp

end Gofra.GsoSegment
