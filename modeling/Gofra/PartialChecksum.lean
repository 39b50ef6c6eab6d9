import Gofra.SegmentChecksum

namespace Gofra.PartialChecksum

open Lib.Buffer Lib.OnesComplement Csum Gso GsoSegment Segmentation SegmentChecksum

def l4Of (pkt : List UInt8) (pktLen : ℕ) (csumStart : UInt16) : List UInt8 :=
  (pkt.take pktLen).drop csumStart.toNat

theorem be16Bytes_be16At {p : List UInt8} {off : ℕ} (h : off + 2 ≤ p.length) :
    be16Bytes (be16At p off) = [p[off], p[off + 1]] := by
  rw [be16At, be16Bytes_be16]
  simp [show off < p.length by omega, show off + 1 < p.length by omega]

theorem patch_be16At {p : List UInt8} {off : ℕ} (h : off + 2 ≤ p.length) :
    patch p off (be16Bytes (be16At p off)) = p := by
  refine patch_eq_self h fun k hk ↦ ?_
  rw [length_be16Bytes] at hk
  rw [be16Bytes_be16At h]
  match k, hk with
  | 0, _ => exact (List.getElem?_eq_getElem (show off < p.length by omega)).symm
  | 1, _ => exact (List.getElem?_eq_getElem (show off + 1 < p.length by omega)).symm

theorem patch_field {p : List UInt8} {off : ℕ} (h : off + 2 ≤ p.length) (v w : UInt16) :
    patch (patch p off (be16Bytes w)) off (be16Bytes v) = patch p off (be16Bytes v) :=
  patch_patch h rfl

/-- A field at an even offset takes part in the sum with its value. -/
theorem wordSum_field {p : List UInt8} {off : ℕ} (heven : off % 2 = 0) (h : off + 2 ≤ p.length)
    (v : UInt16) : wordSum (patch p off (be16Bytes v)) =
      wordSum (patch p off (be16Bytes 0)) + v.toNat := by
  have hz {k : ℕ} (hk : k < 2) : (patch p off (be16Bytes 0))[off + k]? = some 0 := by
    rw [getElem?_patch_add (by rwa [length_be16Bytes]) (by rwa [length_be16Bytes])]
    match k, hk with
    | 0, _ => rfl
    | 1, _ => rfl
  rw [← wordSum_patch v heven (@hz 0 (by omega)) (hz (by omega)), patch_field h]

variable {pkt : List UInt8} {pktLen : ℕ} {csumStart csumOffset : UInt16}

theorem length_l4Of (h : pktLen ≤ pkt.length) :
    (l4Of pkt pktLen csumStart).length = pktLen - csumStart.toNat := by
  rw [l4Of, List.length_drop, List.length_take, Nat.min_eq_left h]

theorem be16At_l4Of (hat : csumStart.toNat + csumOffset.toNat + 2 ≤ pktLen) :
    be16At (l4Of pkt pktLen csumStart) csumOffset.toNat =
      be16At pkt (csumStart.toNat + csumOffset.toNat) := by
  apply be16At_congr <;> rw [l4Of, List.getElem?_drop, List.getElem?_take_of_lt (by omega)]
  rfl

theorem l4Of_patch (hat : csumStart.toNat + csumOffset.toNat + 2 ≤ pktLen) (hpkt : pktLen ≤ pkt.length)
    (v : UInt16) : l4Of (patch pkt (csumStart.toNat + csumOffset.toNat) (be16Bytes v)) pktLen csumStart =
      patch (l4Of pkt pktLen csumStart) csumOffset.toNat (be16Bytes v) := by
  rw [l4Of, take_patch (by simpa using hat) hpkt,
    drop_patch (by rw [length_be16Bytes, List.length_take]; omega)]
  rfl

/-- `gsoNoneChecksum` writes the complement of the sum of the layer-4 part as it
finds it, parked value included, to the field at `csumOffset`. -/
theorem gsoNoneChecksum_eq (heven : csumOffset.toNat % 2 = 0)
    (hat : csumStart.toNat + csumOffset.toNat + 2 ≤ pktLen) (hpkt : pktLen ≤ pkt.length)
    (hlen : pktLen < 2 ^ 64) : ∃ v : UInt16,
      v.toNat = 65535 - rep 65535 (wordSum (l4Of pkt pktLen csumStart)) ∧
      gsoNoneChecksum pkt pktLen csumStart csumOffset =
        some (patch pkt (csumStart.toNat + csumOffset.toNat) (be16Bytes v)) := by
  have hl4 := @length_l4Of pkt pktLen csumStart hpkt
  have hzero : patch (patch pkt (csumStart.toNat + csumOffset.toNat) [0])
      (csumStart.toNat + csumOffset.toNat + 1) [0] =
      patch pkt (csumStart.toNat + csumOffset.toNat) (be16Bytes 0) :=
    patch_append (by simp; omega)
  have hslice : slice (patch pkt (csumStart.toNat + csumOffset.toNat) (be16Bytes 0)) csumStart.toNat
      (pktLen - csumStart.toNat) =
      some (patch (l4Of pkt pktLen csumStart) csumOffset.toNat (be16Bytes 0)) := by
    rw [slice_eq (by rw [length_patch]; omega), ← List.drop_take, ← l4Of_patch hat hpkt, l4Of]
  refine ⟨~~~checksum (patch (l4Of pkt pktLen csumStart) csumOffset.toNat (be16Bytes 0))
    (be16At pkt (csumStart.toNat + csumOffset.toNat)).toUInt64, ?_, ?_⟩
  · rw [toNat_complement, checksum_eq_rep _ _ (by rw [length_patch]; omega), UInt16.toNat_toUInt64,
      ← be16At_l4Of hat, Nat.add_comm, ← wordSum_field heven (by omega), patch_be16At (by omega)]
  · have hsub := subSize_eq (show csumStart.toNat ≤ pktLen by omega) hlen
    have hread := @getBE16_eq pkt (csumStart.toNat + csumOffset.toNat) (by omega)
    have h₁ : store pkt (csumStart.toNat + csumOffset.toNat) [0] = some _ := store_eq (by simp; omega)
    have h₂ : store (patch pkt (csumStart.toNat + csumOffset.toNat) [0])
        (csumStart.toNat + csumOffset.toNat + 1) [0] = some _ := store_eq (by simp; omega)
    rw [hzero] at h₂
    unfold gsoNoneChecksum
    simp only [Option.bind_eq_bind]
    rw [hread, Option.bind_some, h₁, Option.bind_some, h₂, Option.bind_some, hsub, hslice,
      Option.bind_some, putBE16, store_eq (by simp; omega), patch_field (hat.trans hpkt)]

theorem gsoNoneChecksum_completes (heven : csumOffset.toNat % 2 = 0)
    (hat : csumStart.toNat + csumOffset.toNat + 2 ≤ pktLen) (hpkt : pktLen ≤ pkt.length)
    (hlen : pktLen < 2 ^ 64) : ∃ r, gsoNoneChecksum pkt pktLen csumStart csumOffset = some r ∧
      r.length = pkt.length ∧
      (∀ j, j ≠ csumStart.toNat + csumOffset.toNat → j ≠ csumStart.toNat + csumOffset.toNat + 1 →
        r[j]? = pkt[j]?) ∧
      eacSum 65535 ((be16At pkt (csumStart.toNat + csumOffset.toNat)).toNat ::
        be16Words (l4Of r pktLen csumStart)) = 65535 := by
  obtain ⟨v, hv, hr⟩ := gsoNoneChecksum_eq heven hat hpkt hlen
  refine ⟨_, hr, length_patch _ _ _, fun j hj hj' ↦ getElem?_patch_of_ne ?_, ?_⟩
  · rw [length_be16Bytes]
    omega
  · have hl4 := @length_l4Of pkt pktLen csumStart hpkt
    have hwords : ∀ w ∈ (be16At pkt (csumStart.toNat + csumOffset.toNat)).toNat :: be16Words
        (l4Of (patch pkt (csumStart.toNat + csumOffset.toNat) (be16Bytes v)) pktLen csumStart), w ≤ 65535 := by
      intro w hw
      rcases List.mem_cons.mp hw with rfl | hw
      · have hlt := (be16At pkt (csumStart.toNat + csumOffset.toNat)).toNat_lt
        omega
      · exact be16Words_le _ w hw
    have hfound := @wordSum_field (l4Of pkt pktLen csumStart) _ heven (by omega)
      (be16At pkt (csumStart.toNat + csumOffset.toNat))
    rw [← be16At_l4Of hat, patch_be16At (by omega)] at hfound
    rw [eacSum_eq_rep _ hwords, List.sum_cons, ← wordSum, l4Of_patch hat hpkt, wordSum_field heven (by omega), hv,
      ← be16At_l4Of hat, ← Nat.add_assoc, Nat.add_comm (be16At _ _).toNat, ← hfound]
    exact rep_add_compl (by omega) _

/-- Five bytes of layer 4 behind two others, and a byte that is not part of the packet. -/
theorem gsoNoneChecksum_completes_odd : ∃ r,
    gsoNoneChecksum [9, 9, 1, 2, 0xff, 0xff, 7, 9] 7 2 2 = some r ∧ r.length = 8 ∧
      eacSum 65535 (0xffff :: be16Words (l4Of r 7 2)) = 65535 := by
  obtain ⟨r, hr, hlen, -, hsum⟩ := @gsoNoneChecksum_completes [9, 9, 1, 2, 0xff, 0xff, 7, 9] 7 2 2
    (by decide) (by decide) (by decide) (by decide)
  exact ⟨r, hr, hlen, hsum⟩

/-- An IPv4/UDP packet of `pktLen` bytes with its UDP header at `csumStart`. -/
structure UdpPacket (pkt : List UInt8) (pktLen : ℕ) (csumStart : UInt16) : Prop where
  version : pkt.getD 0 0 >>> 4 = 4
  start : csumStart.toNat = ipv4HdrLen pkt
  iphLen : 20 ≤ csumStart.toNat
  protocol : pkt.getD 9 0 = 17
  header : csumStart.toNat + 8 ≤ pktLen
  pktLen_le : pktLen ≤ 65535
  buffer : pktLen ≤ pkt.length

/-- The UDP checksum comes out as zero, "no checksum", exactly when the words of
the datagram with the parked sum in its checksum field add up to a multiple of
`0xFFFF` other than zero. -/
theorem udpChecksum_ne_zero_iff (h : UdpPacket pkt pktLen csumStart) :
    ∃ r, gsoNoneChecksum pkt pktLen csumStart 6 = some r ∧
      (be16At r (csumStart.toNat + 6) ≠ 0 ↔
        wordSum (l4Of pkt pktLen csumStart) = 0 ∨ wordSum (l4Of pkt pktLen csumStart) % 65535 ≠ 0) := by
  have hhdr := h.header
  have hle := h.pktLen_le
  have hbuf := h.buffer
  have h6 : (6 : UInt16).toNat = 6 := rfl
  obtain ⟨v, hv, hr⟩ := @gsoNoneChecksum_eq pkt pktLen csumStart 6 (by rw [h6]) (by omega) hbuf (by omega)
  refine ⟨_, hr, ?_⟩
  rw [h6, be16At_be16Bytes _ (by omega), Ne, ← UInt16.toNat_inj, hv, UInt16.toNat_zero]
  have hrep := @rep_le 65535 (by omega) (wordSum (l4Of pkt pktLen csumStart))
  have hiff := @rep_eq_self_iff 65535 (by omega) (wordSum (l4Of pkt pktLen csumStart))
  have hzero : 65535 - rep 65535 (wordSum (l4Of pkt pktLen csumStart)) = 0 ↔
      rep 65535 (wordSum (l4Of pkt pktLen csumStart)) = 65535 := by omega
  rw [hzero, hiff, not_and_or, not_not]

/-- A UDP packet from 10.0.0.1 to 10.0.0.2 without payload, as the kernel parks it. -/
def zeroSumPacket : List UInt8 :=
  [0x45, 0, 0, 28, 0, 0, 0, 0, 64, 17, 0x66, 0xcf, 10, 0, 0, 1, 10, 0, 0, 2,
    0xea, 0x60, 0x01, 0x7b, 0, 8, 0x14, 0x1c]

theorem zeroSumPacket_udpPacket : UdpPacket zeroSumPacket 28 20 where
  version := rfl
  start := by decide
  iphLen := by decide
  protocol := rfl
  header := by decide
  pktLen_le := by decide
  buffer := by decide

-- the parked word is the sum of the pseudo-header
example : be16At zeroSumPacket 26 = 0x141c ∧
    onesSum ((zeroSumPacket.drop 12).take 8 ++ [0, 17, 0, 8]) = 0x141c := by decide

theorem zeroSumPacket_unchecked : UdpPacket zeroSumPacket 28 20 ∧
    ∃ r, gsoNoneChecksum zeroSumPacket 28 20 6 = some r ∧ be16At r 26 = 0 := by
  have hrun : (gsoNoneChecksum zeroSumPacket 28 20 6).any (fun r ↦ be16At r 26 = 0) = true := by
    decide +kernel
  obtain ⟨r, hr, hzero⟩ := (Option.any_eq_true _ _).mp hrun
  exact ⟨zeroSumPacket_udpPacket, r, hr, of_decide_eq_true hzero⟩

theorem udpChecksum_ne_zero_iff_sample : ∃ r,
    gsoNoneChecksum (zeroSumPacket.set 27 0x1d) 28 20 6 = some r ∧ be16At r 26 ≠ 0 := by
  have h : UdpPacket (zeroSumPacket.set 27 0x1d) 28 20 :=
    ⟨rfl, by decide, by decide, rfl, by decide, by decide, by decide⟩
  obtain ⟨r, hr, hiff⟩ := udpChecksum_ne_zero_iff h
  exact ⟨r, hr, hiff.mpr (by decide)⟩

end Gofra.PartialChecksum
