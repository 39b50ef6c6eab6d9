import Gofra.GsoSplit

namespace Gofra.Bounds

open Lib.Buffer Csum Gso GsoSegment GsoSplit

theorem store_total {b : List UInt8} {off : ℕ} (bs : List UInt8) (h : off + bs.length ≤ b.length) :
    ∃ r, store b off bs = some r ∧ r.length = b.length :=
  ⟨_, store_eq h, length_patch b off bs⟩

theorem gsoNoneChecksum_total {pkt : List UInt8} {pktLen : ℕ} {csumStart csumOffset : UInt16}
    (hat : csumStart.toNat + csumOffset.toNat + 2 ≤ pktLen) (hpkt : pktLen ≤ pkt.length)
    (hlen : pktLen < 2 ^ 64) : ∃ r, gsoNoneChecksum pkt pktLen csumStart csumOffset = some r := by
  have hread : getBE16 pkt (csumStart.toNat + csumOffset.toNat) = some _ := getBE16_eq (by omega)
  obtain ⟨p₁, h₁, hl₁⟩ := store_total (b := pkt) [0]
    (show csumStart.toNat + csumOffset.toNat + 1 ≤ pkt.length by omega)
  obtain ⟨p₂, h₂, hl₂⟩ := store_total (b := p₁) [0]
    (show csumStart.toNat + csumOffset.toNat + 1 + 1 ≤ p₁.length by omega)
  have hsub := subSize_eq (show csumStart.toNat ≤ pktLen by omega) hlen
  have hl4 : slice p₂ csumStart.toNat (subSize pktLen csumStart.toNat) = some _ :=
    slice_eq (by rw [hsub]; omega)
  unfold gsoNoneChecksum
  simp only [Option.bind_eq_bind]
  rw [hread, Option.bind_some, h₁, Option.bind_some, h₂, Option.bind_some, hl4, Option.bind_some, putBE16]
  exact ⟨_, store_eq (by rw [length_be16Bytes]; omega)⟩

variable {inp : List UInt8} {inLen : ℕ} {hdr : VirtioNetHdr}

/-- What any segment of the packet needs of the buffers: `n` is the longest
payload, and `last` says that it is that of the last segment. -/
structure Fits (hdr : VirtioNetHdr) (cap n : ℕ) (last : Bool) : Prop where
  segment_le : hdr.hdrLen.toNat + n ≤ cap
  seq_le : hdr.csumStart.toNat + 8 ≤ cap
  flags_le : last = false → hdr.csumStart.toNat + 14 ≤ cap

/-- What a turn needs besides, whatever the length of its payload. -/
structure Placed (hdr : VirtioNetHdr) (cap : ℕ) : Prop where
  head_le : 12 ≤ cap
  csum_le : hdr.csumStart.toNat + hdr.csumOffset.toNat + 2 ≤ cap
  start_le : hdr.csumStart.toNat ≤ hdr.hdrLen.toNat

theorem bumpId_total {out : List UInt8} (i : ℕ) (h : 6 ≤ out.length) : ∃ out', bumpId i out = some out' := by
  unfold bumpId
  split
  · rw [getBE16_eq (by omega)]
    exact ⟨_, store_eq (by rw [length_be16Bytes]; omega)⟩
  · exact ⟨_, rfl⟩

theorem writeIpv4Header_total {out : List UInt8} (i totalLen : ℕ) (hin : hdr.csumStart.toNat ≤ inp.length)
    (hout : hdr.csumStart.toNat ≤ out.length) (h12 : 12 ≤ out.length) :
    ∃ out', writeIpv4Header inp hdr i totalLen out = some out' := by
  have hread : slice inp 0 hdr.csumStart.toNat = some _ := slice_eq (by omega)
  obtain ⟨o₁, h₁, hl₁⟩ := store_total (b := out) ((inp.drop 0).take hdr.csumStart.toNat)
    (show 0 + _ ≤ out.length by rw [List.length_take]; omega)
  obtain ⟨o₂, h₂⟩ := bumpId_total i (show 6 ≤ o₁.length by omega)
  have hl₂ := length_bumpId h₂
  obtain ⟨o₃, h₃, hl₃⟩ := store_total (b := o₂) (be16Bytes (UInt16.ofNat totalLen))
    (show 2 + 2 ≤ o₂.length by omega)
  have hsum : slice o₃ 0 hdr.csumStart.toNat = some _ := slice_eq (by omega)
  unfold writeIpv4Header
  simp only [Option.bind_eq_bind]
  rw [hread, Option.bind_some, h₁, Option.bind_some, h₂, Option.bind_some, putBE16, h₃, Option.bind_some,
    hsum, Option.bind_some, putBE16]
  exact ⟨_, store_eq (by rw [length_be16Bytes]; omega)⟩

theorem clearFinPsh_total {out : List UInt8} {iphLen nextEnd inLen : ℕ}
    (h : nextEnd ≠ inLen → iphLen + tcpFlagsOffset < out.length) :
    ∃ out', clearFinPsh iphLen nextEnd inLen out = some out' := by
  unfold clearFinPsh
  split
  · rename_i hne
    rw [List.getElem?_eq_getElem (h hne)]
    exact ⟨_, store_eq (h hne)⟩
  · exact ⟨_, rfl⟩

theorem writeTransport_total {out : List UInt8} (seq : UInt32) (i : ℕ) {nextDataAt nextEnd : ℕ}
    (hput : Placed hdr out.length) (h20 : 20 ≤ inLen) (hle : nextDataAt ≤ nextEnd) (hend : nextEnd ≤ inLen)
    (hin : hdr.hdrLen.toNat ≤ inLen) (hbuf : inLen ≤ inp.length) (hsize : nextEnd - nextDataAt < 2 ^ 16)
    (hfit : Fits hdr out.length (nextEnd - nextDataAt) (nextEnd = inLen)) :
    ∃ out', writeTransport inp inLen hdr seq i nextDataAt nextEnd out = some out' := by
  have hlt := hdr.hdrLen.toNat_lt
  have hfit₁ := hfit.segment_le
  have hfit₂ := hfit.seq_le
  have hput₁ := hput.csum_le
  have hput₂ := hput.start_le
  have hsub := subSize_eq (show hdr.csumStart.toNat ≤ hdr.hdrLen.toNat by omega)
    (show hdr.hdrLen.toNat < 2 ^ 64 by omega)
  have hsub' := subSize_eq
    (show hdr.csumStart.toNat ≤ hdr.hdrLen.toNat + (nextEnd - nextDataAt) by omega)
    (show hdr.hdrLen.toNat + (nextEnd - nextDataAt) < 2 ^ 64 by omega)
  have htr : slice inp hdr.csumStart.toNat (subSize hdr.hdrLen.toNat hdr.csumStart.toNat) = some _ :=
    slice_eq (by rw [hsub]; omega)
  obtain ⟨o₁, h₁, hl₁⟩ := store_total (b := out)
    ((inp.drop hdr.csumStart.toNat).take (subSize hdr.hdrLen.toNat hdr.csumStart.toNat))
    (show hdr.csumStart.toNat + _ ≤ out.length by
      rw [hsub, List.length_take, List.length_drop]
      omega)
  obtain ⟨o₂, h₂, hl₂⟩ := store_total (b := o₁)
    (be32Bytes (seq + hdr.gsoSize.toUInt32 * UInt32.ofNat i))
    (show hdr.csumStart.toNat + 4 + 4 ≤ o₁.length by omega)
  obtain ⟨o₃, h₃⟩ : ∃ o₃, clearFinPsh hdr.csumStart.toNat nextEnd inLen o₂ = some o₃ := by
    refine clearFinPsh_total fun hne ↦ ?_
    have hflags := hfit.flags_le (by simpa using hne)
    rw [hl₂, hl₁, tcpFlagsOffset]
    omega
  have hl₃ := length_clearFinPsh h₃
  have hpay : slice inp nextDataAt (nextEnd - nextDataAt) = some _ := slice_eq (by omega)
  obtain ⟨o₄, h₄, hl₄⟩ := store_total (b := o₃) ((inp.drop nextDataAt).take (nextEnd - nextDataAt))
    (show hdr.hdrLen.toNat + _ ≤ o₃.length by
      rw [List.length_take, List.length_drop]
      omega)
  have hsrc : slice inp ipv4SrcAddrOffset ipv4AddrLen = some _ :=
    slice_eq (by simp only [ipv4SrcAddrOffset, ipv4AddrLen]; omega)
  have hdst : slice inp (ipv4SrcAddrOffset + ipv4AddrLen) ipv4AddrLen = some _ :=
    slice_eq (by simp only [ipv4SrcAddrOffset, ipv4AddrLen]; omega)
  have hsum : slice o₄ hdr.csumStart.toNat (subSize (hdr.hdrLen.toNat + (nextEnd - nextDataAt))
      hdr.csumStart.toNat) = some _ :=
    slice_eq (by rw [hsub']; omega)
  unfold writeTransport
  simp only [Option.bind_eq_bind]
  rw [htr, Option.bind_some, h₁, Option.bind_some, putBE32, h₂, Option.bind_some, h₃, Option.bind_some,
    hpay, Option.bind_some, h₄, Option.bind_some, hsrc, Option.bind_some, hdst, Option.bind_some, hsum,
    Option.bind_some, putBE16]
  exact ⟨_, store_eq (by rw [length_be16Bytes]; omega)⟩

theorem set_length {outBufs : List (List UInt8)} {n cap : ℕ} {o : List UInt8} (i : ℕ)
    (h : ∀ j < n, ∃ b, outBufs[j]? = some b ∧ b.length = cap) (ho : o.length = cap) :
    ∀ j < n, ∃ b, (outBufs.set i o)[j]? = some b ∧ b.length = cap := by
  intro j hj
  obtain ⟨b, hb, hcap⟩ := h j hj
  obtain ⟨hjl, -⟩ := List.getElem?_eq_some_iff.mp hb
  by_cases hji : j = i
  · subst hji
    exact ⟨o, List.getElem?_set_self hjl, ho⟩
  · exact ⟨b, (List.getElem?_set_ne (Ne.symm hji)).trans hb, hcap⟩

theorem patch_done {outSizes : List ℕ} {i cap size : ℕ}
    (h : ∀ j < i, ∃ n, outSizes[j]? = some n ∧ n ≤ cap) (hi : i < outSizes.length) (hsize : size ≤ cap) :
    ∀ j < i + 1, ∃ n, (patch outSizes i [size])[j]? = some n ∧ n ≤ cap := by
  intro j hj
  rw [getElem?_patch (show i + [size].length ≤ outSizes.length from hi)]
  by_cases hji : j = i
  · subst hji
    exact ⟨size, by simp, hsize⟩
  · rw [if_neg (by simp only [List.length_singleton]; omega)]
    exact h j (by omega)

/-- From `nextDataAt` on, the loop stays inside buffers of `cap` bytes. -/
theorem gsoLoop_total {cap : ℕ} (seq : UInt32) (h20 : 20 ≤ inLen) (hbuf : inLen ≤ inp.length)
    (hput : hdr.hdrLen.toNat < inLen → Placed hdr cap) (room i : ℕ) {nextDataAt : ℕ}
    {outBufs : List (List UInt8)} {outSizes : List ℕ} (hnext : hdr.hdrLen.toNat ≤ nextDataAt)
    (hroom : i + room < 2 ^ 31)
    (hfit : nextDataAt < inLen → Fits hdr cap (min hdr.gsoSize.toNat (inLen - nextDataAt))
      (inLen ≤ nextDataAt + hdr.gsoSize.toNat))
    (hbufs : ∀ j < i + room, ∃ b, outBufs[j]? = some b ∧ b.length = cap)
    (hsizes : i + room ≤ outSizes.length) (hdone : ∀ j < i, ∃ n, outSizes[j]? = some n ∧ n ≤ cap) :
    ∃ r, gsoLoop inp inLen hdr seq room i nextDataAt outBufs outSizes = some r ∧
      (r.ret = -1 ∨ ∃ n ≤ i + room, r.ret = n ∧ ∀ j < n, ∃ m, r.outSizes[j]? = some m ∧ m ≤ cap) := by
  induction room generalizing i nextDataAt outBufs outSizes with
  | zero =>
    have hc : castInt i = i := castInt_of_lt (by omega)
    rw [gsoLoop]
    split
    · exact ⟨_, rfl, .inl rfl⟩
    · refine ⟨_, rfl, .inr ⟨i, le_rfl, ?_, hdone⟩⟩
      dsimp only
      rw [hc]
  | succ room ih =>
    have hc : castInt i = i := castInt_of_lt (by omega)
    rw [gsoLoop]
    split
    · rename_i hlt
      have hg := hdr.gsoSize.toNat_lt
      have hf := hfit hlt
      have hp := hput (show hdr.hdrLen.toNat < inLen by omega)
      have hhead := hp.head_le
      have hstart := hp.start_le
      obtain ⟨nextEnd, hnextEnd⟩ : ∃ e, e = min (nextDataAt + hdr.gsoSize.toNat) inLen := ⟨_, rfl⟩
      have hlast : (nextEnd = inLen) = (inLen ≤ nextDataAt + hdr.gsoSize.toNat) := propext (by omega)
      have hlen : nextEnd - nextDataAt = min hdr.gsoSize.toNat (inLen - nextDataAt) := by omega
      have htotal := hf.segment_le
      obtain ⟨b, hb, hcap⟩ := hbufs i (by omega)
      have hil : i < outSizes.length := by omega
      have hsize : store outSizes i [hdr.hdrLen.toNat + (nextEnd - nextDataAt)] =
          some (patch outSizes i [hdr.hdrLen.toNat + (nextEnd - nextDataAt)]) := store_eq hil
      obtain ⟨o₄, hip4⟩ := writeIpv4Header_total i (hdr.hdrLen.toNat + (nextEnd - nextDataAt))
        (show hdr.csumStart.toNat ≤ inp.length by omega) (show hdr.csumStart.toNat ≤ b.length by omega)
        (by omega)
      have hlen4 := (length_writeIpv4Header hip4).trans hcap
      obtain ⟨o, ho⟩ := writeTransport_total seq i (hlen4 ▸ hp) h20
        (show nextDataAt ≤ nextEnd by omega) (by omega) (by omega) hbuf (by omega)
        (by rw [hlen4, hlen]; simp only [hlast]; exact hf)
      have hlen' := (length_writeTransport ho).trans hlen4
      have hfit' : nextDataAt + hdr.gsoSize.toNat < inLen → Fits hdr cap
          (min hdr.gsoSize.toNat (inLen - (nextDataAt + hdr.gsoSize.toNat)))
          (inLen ≤ nextDataAt + hdr.gsoSize.toNat + hdr.gsoSize.toNat) := by
        intro hlt'
        refine ⟨by omega, hf.seq_le, fun _ ↦ hf.flags_le (by simpa using hlt')⟩
      have hbufs' := set_length i hbufs hlen'
      rw [show i + (room + 1) = i + 1 + room by omega] at hbufs'
      have hdone' := patch_done hdone hil
        (show hdr.hdrLen.toNat + (nextEnd - nextDataAt) ≤ cap by omega)
      obtain ⟨r, hr, hret⟩ := ih (i + 1) (show hdr.hdrLen.toNat ≤ nextDataAt + hdr.gsoSize.toNat by omega)
        (by omega) hfit' hbufs' (by rw [length_patch]; omega) hdone'
      refine ⟨r, ?_, ?_⟩
      · simp only [Option.bind_eq_bind, ← hnextEnd]
        rw [hsize, Option.bind_some, hb, Option.bind_some, hip4, Option.bind_some, ho, Option.bind_some, hr]
      · rwa [Nat.add_assoc, Nat.add_comm 1 room] at hret
    · refine ⟨_, rfl, .inr ⟨i, by omega, ?_, hdone⟩⟩
      dsimp only
      rw [hc]

/-- `gsoSplit` stays inside its buffers if every segment fits. -/
theorem gsoSplit_total {cap maxSegs : ℕ} (h20 : 20 ≤ inLen) (hbuf : inLen ≤ inp.length)
    (hat : hdr.csumStart.toNat + hdr.csumOffset.toNat + 2 ≤ inp.length)
    (hseq : hdr.csumStart.toNat + 8 ≤ inp.length) (hmax : maxSegs < 2 ^ 31)
    (hput : hdr.hdrLen.toNat < inLen → Placed hdr cap)
    {outBufs : List (List UInt8)} {outSizes : List ℕ}
    (hfit : hdr.hdrLen.toNat < inLen → Fits hdr cap (min hdr.gsoSize.toNat (inLen - hdr.hdrLen.toNat))
      (inLen ≤ hdr.hdrLen.toNat + hdr.gsoSize.toNat))
    (hbufs : ∀ j < maxSegs, ∃ b, outBufs[j]? = some b ∧ b.length = cap)
    (hsizes : maxSegs ≤ outSizes.length) :
    ∃ r, gsoSplit inp inLen hdr outBufs outSizes maxSegs = some r ∧
      (r.ret = -1 ∨ ∃ n ≤ maxSegs, r.ret = n ∧ ∀ j < n, ∃ m, r.outSizes[j]? = some m ∧ m ≤ cap) := by
  unfold gsoSplit
  split
  · exact ⟨_, rfl, .inl rfl⟩
  · obtain ⟨i₁, h₁, hl₁⟩ := store_total (b := inp) [0] (show 10 + 1 ≤ inp.length by omega)
    obtain ⟨i₂, h₂, hl₂⟩ := store_total (b := i₁) [0] (show 11 + 1 ≤ i₁.length by omega)
    obtain ⟨i₃, h₃, hl₃⟩ := store_total (b := i₂) [0]
      (show hdr.csumStart.toNat + hdr.csumOffset.toNat + 1 ≤ i₂.length by omega)
    obtain ⟨i₄, h₄, hl₄⟩ := store_total (b := i₃) [0]
      (show hdr.csumStart.toNat + hdr.csumOffset.toNat + 1 + 1 ≤ i₃.length by omega)
    have hread : getBE32 i₄ (hdr.csumStart.toNat + 4) = some _ := getBE32_eq (by omega)
    simp only [Option.bind_eq_bind]
    rw [h₁, Option.bind_some, h₂, Option.bind_some, h₃, Option.bind_some, h₄, Option.bind_some, hread,
      Option.bind_some]
    have hloop := gsoLoop_total (be32At i₄ (hdr.csumStart.toNat + 4)) h20
      (show inLen ≤ i₄.length by omega) hput maxSegs 0 le_rfl (by omega) hfit (by rwa [Nat.zero_add])
      (by rwa [Nat.zero_add]) (fun j hj ↦ absurd hj (Nat.not_lt_zero j))
    rwa [Nat.zero_add] at hloop

end Gofra.Bounds
