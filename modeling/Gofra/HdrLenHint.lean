import Mathlib.Algebra.Order.BigOperators.Group.Finset
import Gofra.Segmentation

namespace Gofra.HdrLenHint

open Lib.Buffer Csum Gso GsoSplit Segmentation

/-- A super-packet whose vnet header carries an `hdrLen` of its own, whatever
the TCP header says. -/
structure HintedPacket (inp : List UInt8) (inLen : ℕ) (hdr : VirtioNetHdr) : Prop where
  gsoType : hdr.gsoType = virtioNetHdrGsoTcpv4
  csumStart : hdr.csumStart.toNat = ipv4HdrLen inp
  iphLen : 20 ≤ hdr.csumStart.toNat
  tcpLen : 20 ≤ tcpHdrLen inp hdr.csumStart.toNat
  tcpLen_le : hdr.csumStart.toNat + tcpHdrLen inp hdr.csumStart.toNat ≤ inLen
  hdrLen : hdr.csumStart.toNat + 20 ≤ hdr.hdrLen.toNat
  hdrLen_le : hdr.hdrLen.toNat ≤ inLen
  inLen_le : inLen ≤ 65535
  buffer : inLen ≤ inp.length
  csumOffset : hdr.csumOffset = 16

def tcpPayload (p : List UInt8) : List UInt8 := p.drop (ipv4HdrLen p + tcpHdrLen p (ipv4HdrLen p))

def tcpSeq (p : List UInt8) : UInt32 := be32At p (ipv4HdrLen p + 4)

/-- The payload bytes of all segments, each with the stream offset its segment
puts it at. -/
def placedBytes (inp : List UInt8) (r : Split) : List (UInt8 × ℕ) :=
  (List.range r.ret.toNat).flatMap fun i ↦
    (tcpPayload (outSegment r i)).zipIdx (tcpSeq (outSegment r i) - tcpSeq inp).toNat

/-- Every byte of the original payload is sent exactly once for its place, and
nothing else is. -/
def Covers (inp : List UInt8) (inLen : ℕ) (r : Split) : Prop :=
  (placedBytes inp r).Perm (tcpPayload (inp.take inLen)).zipIdx

/-- Where the TCP payload starts by the packet's own header fields. -/
def payloadAt (inp : List UInt8) (hdr : VirtioNetHdr) : ℕ :=
  hdr.csumStart.toNat + tcpHdrLen inp hdr.csumStart.toNat

variable {inp : List UInt8} {inLen : ℕ} {hdr : VirtioNetHdr}

theorem HintedPacket.splittable (h : HintedPacket inp inLen hdr) : Splittable inp inLen hdr where
  gsoType := h.gsoType
  iphLen := h.iphLen
  tcpLen := h.hdrLen
  hdrLen := h.hdrLen_le
  buffer := h.buffer
  csumOffset := h.csumOffset

theorem ipv4HdrLen_congr {p q : List UInt8} (h : p[0]? = q[0]?) : ipv4HdrLen p = ipv4HdrLen q := by
  rw [ipv4HdrLen, ipv4HdrLen, List.getD_eq_getElem?_getD, List.getD_eq_getElem?_getD, h]

theorem tcpHdrLen_congr {p q : List UInt8} {off : ℕ} (h : p[off + 12]? = q[off + 12]?) :
    tcpHdrLen p off = tcpHdrLen q off := by
  rw [tcpHdrLen, tcpHdrLen, List.getD_eq_getElem?_getD, List.getD_eq_getElem?_getD, h]

theorem tcpPayload_take (h : HintedPacket inp inLen hdr) :
    tcpPayload (inp.take inLen) = (inp.take inLen).drop (payloadAt inp hdr) := by
  have hip := h.iphLen
  have hle := h.tcpLen_le
  have htcp := h.tcpLen
  have hl : ipv4HdrLen (inp.take inLen) = hdr.csumStart.toNat := by
    rw [h.csumStart]
    exact ipv4HdrLen_congr (List.getElem?_take_of_lt (by omega))
  rw [tcpPayload, hl, tcpHdrLen_congr (List.getElem?_take_of_lt (by omega)), payloadAt]

theorem ipv4HdrLen_splitSegment (h : HintedPacket inp inLen hdr) (i : ℕ) :
    ipv4HdrLen (splitSegment inp inLen hdr i) = hdr.csumStart.toNat := by
  have hip := h.iphLen
  have hl := h.hdrLen
  rw [h.csumStart]
  apply ipv4HdrLen_congr
  apply splitSegment_header h.splittable (by omega) (by simp)
  simp only [List.map_cons, List.map_nil, List.mem_cons, List.not_mem_nil, or_false, not_or]
  omega

theorem tcpPayload_splitSegment (h : HintedPacket inp inLen hdr) (i : ℕ) :
    tcpPayload (splitSegment inp inLen hdr i) =
      (splitSegment inp inLen hdr i).drop (payloadAt inp hdr) := by
  have hip := h.iphLen
  have hl := h.hdrLen
  have hoff : tcpHdrLen (splitSegment inp inLen hdr i) hdr.csumStart.toNat =
      tcpHdrLen inp hdr.csumStart.toNat := by
    apply tcpHdrLen_congr
    apply splitSegment_header h.splittable (by omega)
    · simp only [List.mem_cons, List.not_mem_nil, or_false, not_or]
      omega
    · simp
  rw [tcpPayload, ipv4HdrLen_splitSegment h, hoff, payloadAt]

theorem tcpSeq_splitSegment (h : HintedPacket inp inLen hdr) {i : ℕ}
    (hi : i * hdr.gsoSize.toNat < inLen) :
    (tcpSeq (splitSegment inp inLen hdr i) - tcpSeq inp).toNat = i * hdr.gsoSize.toNat := by
  have hle := h.inLen_le
  have hseq := splitSegment_tcpSeq h.splittable (i := i)
  have hlt := (be32At inp (hdr.csumStart.toNat + 4)).toNat_lt
  rw [UInt32.toNat_sub, tcpSeq, tcpSeq, ipv4HdrLen_splitSegment h, ← h.csumStart, hseq]
  omega

theorem placedBytes_eq (h : HintedPacket inp inLen hdr) (hg : 1 ≤ hdr.gsoSize.toNat)
    {outBufs : List (List UInt8)} {outSizes : List ℕ} {maxSegs : ℕ} {r : Split}
    (hr : gsoSplit inp inLen hdr outBufs outSizes maxSegs = some r) (hret : 0 ≤ r.ret) :
    placedBytes inp r =
      (List.range (segCount (inLen - hdr.hdrLen.toNat) hdr.gsoSize.toNat)).flatMap fun i ↦
        ((splitSegment inp inLen hdr i).drop (payloadAt inp hdr)).zipIdx (i * hdr.gsoSize.toNat) := by
  obtain ⟨hroom, rfl⟩ := (gsoSplit_iff h.splittable hg _ _ _ _).mp hr
  have hretEq := splitResult_ret inp hg h.inLen_le outBufs outSizes maxSegs
  have hk : segCount (inLen - hdr.hdrLen.toNat) hdr.gsoSize.toNat ≤ maxSegs := by
    by_contra hk
    rw [hretEq, if_neg hk] at hret
    omega
  rw [placedBytes, hretEq, if_pos hk, Int.toNat_natCast]
  apply List.flatMap_congr
  intro i hi
  rw [List.mem_range] at hi
  have hlt := (lt_segCount hg).mp hi
  rw [outSegment_splitResult hroom (by rw [written]; omega), tcpPayload_splitSegment h,
    tcpSeq_splitSegment h (by omega)]

/-- A right hint: the segments carry the payload. -/
theorem placed_of_hint (h : HintedPacket inp inLen hdr) (hg : 1 ≤ hdr.gsoSize.toNat)
    (hhint : hdr.hdrLen.toNat = payloadAt inp hdr) :
    ((List.range (segCount (inLen - hdr.hdrLen.toNat) hdr.gsoSize.toNat)).flatMap fun i ↦
      ((splitSegment inp inLen hdr i).drop (payloadAt inp hdr)).zipIdx (i * hdr.gsoSize.toNat)) =
      ((inp.take inLen).drop (payloadAt inp hdr)).zipIdx := by
  have hpiece (i : ℕ) : ((splitSegment inp inLen hdr i).drop (payloadAt inp hdr)).zipIdx
      (i * hdr.gsoSize.toNat) = ((((inp.take inLen).drop (payloadAt inp hdr)).zipIdx).drop
        (i * hdr.gsoSize.toNat)).take hdr.gsoSize.toNat := by
    rw [← zipIdx_piece, ← hhint, splitSegment_payload h.splittable, List.drop_drop, List.drop_take,
      List.take_take, Nat.sub_sub]
  simp only [hpiece]
  rw [flatMap_pieces, List.take_of_length_le]
  have hcount := len_le_segCount (inLen - hdr.hdrLen.toNat) hg
  rw [List.length_zipIdx, List.length_drop, List.length_take]
  omega

/-- A single segment is the packet itself from the TCP options on. -/
theorem splitSegment_single (h : HintedPacket inp inLen hdr)
    (hle : inLen ≤ hdr.hdrLen.toNat + hdr.gsoSize.toNat) :
    (splitSegment inp inLen hdr 0).drop (payloadAt inp hdr) =
      (inp.take inLen).drop (payloadAt inp hdr) := by
  have hip := h.iphLen
  have ht := h.tcpLen
  have hl := h.hdrLen_le
  apply List.ext_getElem? fun j ↦ ?_
  rw [List.getElem?_drop, List.getElem?_drop, payloadAt]
  rcases Nat.lt_or_ge (hdr.csumStart.toNat + tcpHdrLen inp hdr.csumStart.toNat + j) hdr.hdrLen.toNat
    with hj | hj
  · rw [List.getElem?_take_of_lt (by omega)]
    apply splitSegment_header h.splittable hj
    · simp only [List.mem_cons, List.not_mem_nil, or_false, not_or]
      omega
    · simp only [List.map_cons, List.map_nil, List.mem_cons, List.not_mem_nil, or_false, not_or]
      omega
  · have hpay := splitSegment_payload h.splittable (i := 0)
    rw [Nat.zero_mul, Nat.add_zero, Nat.sub_zero, Nat.min_eq_right (by omega), ← List.drop_take] at hpay
    obtain ⟨m, hm⟩ := Nat.exists_eq_add_of_le hj
    rw [hm, ← List.getElem?_drop, ← List.getElem?_drop, hpay]

/-- The lengths alone decide: taking `δ` off each of two or more pieces takes
more than `δ` off the whole. -/
theorem sum_sub_lt {c : ℕ → ℕ} {k δ : ℕ} (hδ : 0 < δ) (hc : ∀ i < k + 2, c i ≤ c 0) (hpos : 0 < c 1)
    (hlt : δ < ∑ i ∈ Finset.range (k + 2), c i) :
    ∑ i ∈ Finset.range (k + 2), (c i - δ) < ∑ i ∈ Finset.range (k + 2), c i - δ := by
  rcases Nat.lt_or_ge (c 0) δ with h0 | h0
  · have hz : ∑ i ∈ Finset.range (k + 2), (c i - δ) = 0 := by
      apply Finset.sum_eq_zero
      intro i hi
      have := hc i (Finset.mem_range.mp hi)
      omega
    omega
  · have htail : ∑ i ∈ Finset.range (k + 1), (c (i + 1) - δ) < ∑ i ∈ Finset.range (k + 1), c (i + 1) := by
      apply Finset.sum_lt_sum
      · intro i _
        exact Nat.sub_le _ _
      · exact ⟨0, by simp, Nat.sub_lt hpos hδ⟩
    rw [Finset.sum_range_succ', Finset.sum_range_succ' c]
    omega

theorem sum_pieces (L g n : ℕ) : ∑ i ∈ Finset.range n, min g (L - i * g) = min (n * g) L := by
  induction n with
  | zero => simp
  | succ n ih =>
    rw [Finset.sum_range_succ, ih, Nat.succ_mul]
    omega

/-- With `H` bytes of assumed and `T` bytes of real headers, the payloads of
the segments add up to the payload only where the hint does no harm. -/
theorem hint_of_sum {H T N g : ℕ} (hg : 1 ≤ g) (hH : H ≤ N) (hT : T ≤ N)
    (hsum : ∑ i ∈ Finset.range (segCount (N - H) g), (H + min g (N - H - i * g) - T) = N - T) :
    H = T ∨ N = T ∨ (H < N ∧ N ≤ H + g) := by
  by_contra! hne
  obtain ⟨hHT, hNT, hone⟩ := hne
  rcases Nat.eq_or_lt_of_le hH with rfl | hlt
  · rw [Nat.sub_self, segCount_zero g hg, Finset.range_zero, Finset.sum_empty] at hsum
    omega
  · have hgt := hone hlt
    have hcount := len_le_segCount (N - H) hg
    obtain ⟨k, hk⟩ : ∃ k, segCount (N - H) g = k + 2 :=
      Nat.exists_eq_add_of_le' ((lt_segCount hg).mpr (by omega))
    rw [hk] at hsum hcount
    have htotal : ∑ i ∈ Finset.range (k + 2), min g (N - H - i * g) = N - H := by
      rw [sum_pieces, Nat.min_eq_right hcount]
    rcases Nat.lt_or_gt_of_ne hHT with hshort | hlong
    · have hsub : ∑ i ∈ Finset.range (k + 2), (H + min g (N - H - i * g) - T) =
          ∑ i ∈ Finset.range (k + 2), (min g (N - H - i * g) - (T - H)) := by
        refine Finset.sum_congr rfl fun i _ ↦ ?_
        omega
      have hloss := sum_sub_lt (c := fun i ↦ min g (N - H - i * g)) (show 0 < T - H by omega)
        (fun i (_ : i < k + 2) ↦ by simp only [Nat.zero_mul]; omega) (by simp only [Nat.one_mul]; omega)
        (by rw [htotal]; omega)
      simp only [htotal] at hloss
      omega
    · have hadd : ∑ i ∈ Finset.range (k + 2), (H + min g (N - H - i * g) - T) =
          (k + 2) * (H - T) + (N - H) := by
        calc
          _ = ∑ i ∈ Finset.range (k + 2), ((H - T) + min g (N - H - i * g)) := by
            refine Finset.sum_congr rfl fun i _ ↦ ?_
            omega
          _ = _ := by
            rw [Finset.sum_add_distrib, htotal,
              Finset.sum_const_nat (fun i (_ : i ∈ Finset.range (k + 2)) ↦ rfl), Finset.card_range]
      rw [hadd, Nat.add_mul] at hsum
      omega

/-- The segments cover the payload exactly when the hint is the real header
length, there is no payload, or one segment takes it all. -/
theorem gsoSplit_covers_iff (h : HintedPacket inp inLen hdr) (hg : 1 ≤ hdr.gsoSize.toNat)
    {outBufs : List (List UInt8)} {outSizes : List ℕ} {maxSegs : ℕ} {r : Split}
    (hr : gsoSplit inp inLen hdr outBufs outSizes maxSegs = some r) (hret : 0 ≤ r.ret) :
    Covers inp inLen r ↔ hdr.hdrLen.toNat = payloadAt inp hdr ∨ inLen = payloadAt inp hdr ∨
      (hdr.hdrLen.toNat < inLen ∧ inLen ≤ hdr.hdrLen.toNat + hdr.gsoSize.toNat) := by
  have hT : payloadAt inp hdr ≤ inLen := h.tcpLen_le
  have hH := h.hdrLen_le
  have hb := h.buffer
  rw [Covers, placedBytes_eq h hg hr hret, tcpPayload_take h]
  constructor
  · intro hperm
    apply hint_of_sum hg hH hT
    have hlen := hperm.length_eq
    rw [List.length_flatMap, List.length_zipIdx, List.length_drop, List.length_take,
      Nat.min_eq_left hb] at hlen
    rw [← hlen]
    simp only [List.length_zipIdx, List.length_drop, length_splitSegment h.splittable]
    rfl
  · rintro (hhint | hempty | ⟨hlt, hone⟩)
    · rw [placed_of_hint h hg hhint]
    · have hnil (i : ℕ) : (splitSegment inp inLen hdr i).drop (payloadAt inp hdr) = [] := by
        rw [List.drop_eq_nil_iff, length_splitSegment h.splittable]
        omega
      have hnil' : (inp.take inLen).drop (payloadAt inp hdr) = [] := by
        rw [List.drop_eq_nil_iff, List.length_take]
        omega
      simp only [hnil, hnil', List.zipIdx_nil]
      rw [List.flatMap_eq_nil_iff.mpr fun i _ ↦ rfl]
    · have hk : segCount (inLen - hdr.hdrLen.toNat) hdr.gsoSize.toNat = 1 := by
        have hpos : 0 < segCount (inLen - hdr.hdrLen.toNat) hdr.gsoSize.toNat :=
          (lt_segCount hg).mpr (by omega)
        have hle : ¬ 1 < segCount (inLen - hdr.hdrLen.toNat) hdr.gsoSize.toNat :=
          (lt_segCount hg).not.mpr (by omega)
        omega
      rw [hk, List.range_one, List.flatMap_singleton, splitSegment_single h hone, Nat.zero_mul]

instance (inp : List UInt8) (inLen : ℕ) (r : Split) : Decidable (Covers inp inLen r) :=
  inferInstanceAs (Decidable (List.Perm _ _))

/-- The sample packet, its 40 bytes of headers reported as 42. -/
def hintedHdr : VirtioNetHdr := { sampleHdr with hdrLen := 42 }

theorem samplePacket_hinted : HintedPacket samplePacket 45 hintedHdr where
  gsoType := rfl
  csumStart := by decide
  iphLen := by decide
  tcpLen := by decide
  tcpLen_le := by decide
  hdrLen := by decide
  hdrLen_le := by decide
  inLen_le := by decide
  buffer := by decide
  csumOffset := rfl

/-- Both segments carry the first two bytes of the payload. -/
theorem hinted_payload_repeated : ∃ r, HintedPacket samplePacket 45 hintedHdr ∧
    gsoSplit samplePacket 45 hintedHdr (List.replicate 2 (List.replicate 64 0)) [0, 0] 2 = some r ∧
      0 ≤ r.ret ∧ ¬ Covers samplePacket 45 r := by
  have hrun : (gsoSplit samplePacket 45 hintedHdr (List.replicate 2 (List.replicate 64 0)) [0, 0]
      2).any (fun r ↦ decide (0 ≤ r.ret ∧ ¬ Covers samplePacket 45 r)) = true := by decide +kernel
  obtain ⟨r, hr, hbad⟩ := (Option.any_eq_true _ _).mp hrun
  exact ⟨r, samplePacket_hinted, hr, of_decide_eq_true hbad⟩

theorem gsoSplit_covers_iff_sample : ∃ r,
    gsoSplit samplePacket 45 { hintedHdr with gsoSize := 3 } [List.replicate 64 0] [0] 1 = some r ∧
      r.ret = 1 ∧ Covers samplePacket 45 r := by
  have hinted : HintedPacket samplePacket 45 { hintedHdr with gsoSize := 3 } :=
    { samplePacket_hinted with }
  have hrun : (gsoSplit samplePacket 45 { hintedHdr with gsoSize := 3 } [List.replicate 64 0] [0]
      1).any (fun r ↦ decide (r.ret = 1)) = true := by decide +kernel
  obtain ⟨r, hr, hone⟩ := (Option.any_eq_true _ _).mp hrun
  have hret : r.ret = 1 := of_decide_eq_true hone
  refine ⟨r, hr, hret, ?_⟩
  exact (gsoSplit_covers_iff hinted (by decide) hr (by omega)).mpr (.inr (.inr (by decide)))

end Gofra.HdrLenHint
