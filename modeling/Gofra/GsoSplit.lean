import Gofra.GsoSegment

namespace Gofra.GsoSplit

open Lib.Buffer Csum Gso GsoSegment

/-- What the segmentation code relies on: an IPv4 header, a TCP header's fixed
part inside `hdrLen`, and a buffer that holds the packet. -/
structure Splittable (inp : List UInt8) (inLen : ℕ) (hdr : VirtioNetHdr) : Prop where
  gsoType : hdr.gsoType = virtioNetHdrGsoTcpv4
  iphLen : 20 ≤ hdr.csumStart.toNat
  tcpLen : hdr.csumStart.toNat + 20 ≤ hdr.hdrLen.toNat
  hdrLen : hdr.hdrLen.toNat ≤ inLen
  buffer : inLen ≤ inp.length
  csumOffset : hdr.csumOffset = 16

/-- Where the payload of segment `i` ends in the input. -/
def segEnd (inLen : ℕ) (hdr : VirtioNetHdr) (i : ℕ) : ℕ :=
  min (hdr.hdrLen.toNat + i * hdr.gsoSize.toNat + hdr.gsoSize.toNat) inLen

def chunk (inp : List UInt8) (inLen : ℕ) (hdr : VirtioNetHdr) (i : ℕ) : List UInt8 :=
  (inp.drop (hdr.hdrLen.toNat + i * hdr.gsoSize.toNat)).take
    (segEnd inLen hdr i - (hdr.hdrLen.toNat + i * hdr.gsoSize.toNat))

def segmentOf (inp : List UInt8) (inLen : ℕ) (hdr : VirtioNetHdr) (seq : UInt32) (i : ℕ) : List UInt8 :=
  ipv4Hdr inp hdr.csumStart.toNat i
      (hdr.hdrLen.toNat + (segEnd inLen hdr i - (hdr.hdrLen.toNat + i * hdr.gsoSize.toNat))) ++
    l4Segment inp (tcpHdr inp hdr.csumStart.toNat hdr.hdrLen.toNat
      (seq + hdr.gsoSize.toUInt32 * UInt32.ofNat i) (segEnd inLen hdr i = inLen) ++
        chunk inp inLen hdr i)

theorem length_gsoLoop {inp : List UInt8} {inLen : ℕ} {hdr : VirtioNetHdr} {seq : UInt32}
    {room i nextDataAt : ℕ} {outBufs : List (List UInt8)} {outSizes : List ℕ} {r : Split}
    (h : gsoLoop inp inLen hdr seq room i nextDataAt outBufs outSizes = some r) :
    r.inp = inp ∧ r.outBufs.map List.length = outBufs.map List.length ∧
      r.outSizes.length = outSizes.length := by
  induction room generalizing i nextDataAt outBufs outSizes with
  | zero =>
    rw [gsoLoop] at h
    split at h
    all_goals
      obtain rfl := Option.some.inj h
      exact ⟨rfl, rfl, rfl⟩
  | succ room ih =>
    rw [gsoLoop] at h
    split at h
    · simp only [Option.bind_eq_bind, Option.bind_eq_some_iff] at h
      obtain ⟨sizes, hsizes, b, hb, o, ho, o', ho', hrest⟩ := h
      obtain ⟨hinp, hbufs, hlen⟩ := ih hrest
      refine ⟨hinp, ?_, hlen.trans (length_of_store hsizes)⟩
      obtain ⟨hi, rfl⟩ := List.getElem?_eq_some_iff.mp hb
      have hi' : i < (outBufs.map List.length).length := by rwa [List.length_map]
      have ho'' : o'.length = (outBufs.map List.length)[i] := by
        rw [length_writeTransport ho', length_writeIpv4Header ho, List.getElem_map]
      rw [hbufs, List.map_set, ho'', List.set_getElem_self]
    · obtain rfl := Option.some.inj h
      exact ⟨rfl, rfl, rfl⟩

/-- Whatever the header says, a run that stays inside its buffers keeps their lengths. -/
theorem length_gsoSplit {inp : List UInt8} {inLen : ℕ} {hdr : VirtioNetHdr}
    {outBufs : List (List UInt8)} {outSizes : List ℕ} {maxSegs : ℕ} {r : Split}
    (h : gsoSplit inp inLen hdr outBufs outSizes maxSegs = some r) :
    r.inp.length = inp.length ∧ r.outBufs.map List.length = outBufs.map List.length ∧
      r.outSizes.length = outSizes.length := by
  unfold gsoSplit at h
  split at h
  · obtain rfl := Option.some.inj h
    exact ⟨rfl, rfl, rfl⟩
  · simp only [Option.bind_eq_bind, Option.bind_eq_some_iff] at h
    obtain ⟨_, h₁, _, h₂, _, h₃, _, h₄, _, -, hloop⟩ := h
    obtain ⟨hinp, hbufs, hlen⟩ := length_gsoLoop hloop
    refine ⟨?_, hbufs, hlen⟩
    rw [hinp, length_of_store h₄, length_of_store h₃, length_of_store h₂, length_of_store h₁]

theorem length_gsoNoneChecksum {pkt r : List UInt8} {pktLen : ℕ} {csumStart csumOffset : UInt16}
    (h : gsoNoneChecksum pkt pktLen csumStart csumOffset = some r) : r.length = pkt.length := by
  unfold gsoNoneChecksum at h
  simp only [Option.bind_eq_bind, Option.bind_eq_some_iff] at h
  obtain ⟨_, -, _, h₁, _, h₂, _, -, h₃⟩ := h
  exact (length_of_store h₃).trans ((length_of_store h₂).trans (length_of_store h₁))

/-- How many segments a payload of `len` bytes takes. -/
def segCount (len gsoSize : ℕ) : ℕ := (len + gsoSize - 1) / gsoSize

/-- The output buffers once segments `i`, …, `i + n - 1` have been written to them. -/
def fillBufs (seg : ℕ → List UInt8) (i n : ℕ) (outBufs : List (List UInt8)) : List (List UInt8) :=
  outBufs.mapIdx fun j b ↦ if i ≤ j ∧ j < i + n then seg j ++ b.drop (seg j).length else b

def fillSizes (seg : ℕ → List UInt8) (i n : ℕ) (outSizes : List ℕ) : List ℕ :=
  outSizes.mapIdx fun j s ↦ if i ≤ j ∧ j < i + n then (seg j).length else s

/-- The input once both checksum fields are zero. -/
def zeroCsums (inp : List UInt8) (hdr : VirtioNetHdr) : List UInt8 :=
  patch (patch (patch (patch inp 10 [0]) 11 [0]) (hdr.csumStart.toNat + 16) [0])
    (hdr.csumStart.toNat + 16 + 1) [0]

variable {inp : List UInt8} {inLen : ℕ} {hdr : VirtioNetHdr} (seq : UInt32)

theorem segCount_zero (g : ℕ) (hg : 1 ≤ g) : segCount 0 g = 0 := by
  rw [segCount, Nat.zero_add]
  exact Nat.div_eq_of_lt (by omega)

theorem segCount_pos {len g : ℕ} (hg : 1 ≤ g) (h : 0 < len) :
    segCount len g = segCount (len - g) g + 1 := by
  unfold segCount
  by_cases hle : g ≤ len
  · rw [show len + g - 1 = (len - g + g - 1) + g by omega, Nat.add_div_right _ (by omega)]
  · rw [show len - g = 0 by omega, Nat.zero_add, Nat.div_eq_of_lt (show g - 1 < g by omega)]
    exact Nat.div_eq_of_lt_le (by omega) (by omega)

theorem lt_segCount {len g i : ℕ} (hg : 1 ≤ g) : i < segCount len g ↔ i * g < len := by
  rw [segCount, ← Nat.succ_le_iff, Nat.le_div_iff_mul_le (by omega), Nat.succ_mul]
  omega

theorem length_chunk (h : inLen ≤ inp.length) (i : ℕ) : (chunk inp inLen hdr i).length =
    segEnd inLen hdr i - (hdr.hdrLen.toNat + i * hdr.gsoSize.toNat) := by
  simp only [chunk, segEnd, List.length_take, List.length_drop]
  omega

theorem length_segment (h : Splittable inp inLen hdr) (i : ℕ) :
    (segmentOf inp inLen hdr seq i).length = hdr.hdrLen.toNat +
      (segEnd inLen hdr i - (hdr.hdrLen.toNat + i * hdr.gsoSize.toNat)) := by
  have hb := h.buffer
  have hl := h.hdrLen
  have ht := h.tcpLen
  rw [segmentOf, List.length_append, length_l4Segment, List.length_append, length_chunk hb,
    length_ipv4Hdr (by omega), length_tcpHdr (by omega)]
  omega

theorem fillBufs_zero (seg : ℕ → List UInt8) (i : ℕ) (bufs : List (List UInt8)) :
    fillBufs seg i 0 bufs = bufs := by
  apply List.ext_getElem? fun j ↦ ?_
  rw [fillBufs, List.getElem?_mapIdx]
  cases bufs[j]? <;> simp [show ¬ (i ≤ j ∧ j < i) by omega]

theorem fillSizes_zero (seg : ℕ → List UInt8) (i : ℕ) (sizes : List ℕ) :
    fillSizes seg i 0 sizes = sizes := by
  apply List.ext_getElem? fun j ↦ ?_
  rw [fillSizes, List.getElem?_mapIdx]
  cases sizes[j]? <;> simp [show ¬ (i ≤ j ∧ j < i) by omega]

theorem fillBufs_succ (seg : ℕ → List UInt8) (i n : ℕ) (bufs : List (List UInt8)) (b : List UInt8)
    (hb : bufs[i]? = some b) :
    fillBufs seg (i + 1) n (bufs.set i (seg i ++ b.drop (seg i).length)) =
      fillBufs seg i (n + 1) bufs := by
  apply List.ext_getElem? fun j ↦ ?_
  simp only [fillBufs, List.getElem?_mapIdx, List.getElem?_set]
  by_cases hj : i = j
  · subst hj
    obtain ⟨hlt, rfl⟩ := List.getElem?_eq_some_iff.mp hb
    simp [hlt]
  · have hif : (i + 1 ≤ j ∧ j < i + 1 + n) ↔ (i ≤ j ∧ j < i + (n + 1)) := by omega
    simp only [if_neg hj, hif]

theorem fillSizes_succ (seg : ℕ → List UInt8) (i n : ℕ) (sizes : List ℕ) (hi : i < sizes.length) :
    fillSizes seg (i + 1) n (patch sizes i [(seg i).length]) = fillSizes seg i (n + 1) sizes := by
  have hl : i + [(seg i).length].length ≤ sizes.length := hi
  apply List.ext_getElem? fun j ↦ ?_
  simp only [fillSizes, List.getElem?_mapIdx, getElem?_patch hl, List.length_singleton]
  by_cases hj : i = j
  · subst hj
    simp [hi]
  · have hif : (i + 1 ≤ j ∧ j < i + 1 + n) ↔ (i ≤ j ∧ j < i + (n + 1)) := by omega
    rw [if_neg (by omega)]
    simp only [hif]

theorem fillBufs_getElem {seg : ℕ → List UInt8} {n j : ℕ} {bufs : List (List UInt8)} {b : List UInt8}
    (hb : bufs[j]? = some b) (hj : j < n) :
    (fillBufs seg 0 n bufs)[j]? = some (seg j ++ b.drop (seg j).length) := by
  simp only [fillBufs, List.getElem?_mapIdx, hb, Option.map_some, Nat.zero_le, Nat.zero_add, hj,
    and_self, if_true]

theorem fillSizes_getElem {seg : ℕ → List UInt8} {n j : ℕ} {sizes : List ℕ}
    (hl : j < sizes.length) (hj : j < n) :
    (fillSizes seg 0 n sizes)[j]? = some (seg j).length := by
  simp only [fillSizes, List.getElem?_mapIdx, List.getElem?_eq_getElem hl, Option.map_some,
    Nat.zero_le, Nat.zero_add, hj, and_self, if_true]

/-- One iteration writes segment `i` at the start of its buffer and nothing else. -/
theorem write_segment (h : Splittable inp inLen hdr) (i : ℕ)
    (hi : hdr.hdrLen.toNat + i * hdr.gsoSize.toNat < inLen) (out : List UInt8)
    (hout : (segmentOf inp inLen hdr seq i).length ≤ out.length) :
    (writeIpv4Header inp hdr i
      (hdr.hdrLen.toNat + (segEnd inLen hdr i - (hdr.hdrLen.toNat + i * hdr.gsoSize.toNat))) out).bind
      (writeTransport inp inLen hdr seq i (hdr.hdrLen.toNat + i * hdr.gsoSize.toNat)
        (segEnd inLen hdr i)) =
    some (segmentOf inp inLen hdr seq i ++ out.drop (segmentOf inp inLen hdr seq i).length) := by
  have hlt := hdr.gsoSize.toNat_lt
  have hip := h.iphLen
  have ht := h.tcpLen
  have hl := h.hdrLen
  have hb := h.buffer
  have hend : segEnd inLen hdr i ≤ inLen := Nat.min_le_right _ _
  have hend' : segEnd inLen hdr i ≤ hdr.hdrLen.toNat + i * hdr.gsoSize.toNat + hdr.gsoSize.toNat :=
    Nat.min_le_left _ _
  have hat : hdr.hdrLen.toNat + i * hdr.gsoSize.toNat ≤ segEnd inLen hdr i := by
    simp only [segEnd]
    omega
  rw [length_segment seq h] at hout ⊢
  rw [writeIpv4Header_eq hip (by omega) (by omega), Option.bind_some,
    writeTransport_eq (length_ipv4Hdr (by omega)) hip ht (by omega) h.csumOffset hat (by omega)
      (by omega) (by simp only [List.length_drop]; omega),
    List.drop_drop, segmentOf, chunk, List.append_assoc,
    show hdr.csumStart.toNat + (hdr.hdrLen.toNat - hdr.csumStart.toNat +
        (segEnd inLen hdr i - (hdr.hdrLen.toNat + i * hdr.gsoSize.toNat))) = hdr.hdrLen.toNat +
        (segEnd inLen hdr i - (hdr.hdrLen.toNat + i * hdr.gsoSize.toNat)) by omega]

/-- An iteration goes through exactly when its segment fits its buffer. -/
theorem write_segment_iff (h : Splittable inp inLen hdr) (i : ℕ)
    (hi : hdr.hdrLen.toNat + i * hdr.gsoSize.toNat < inLen) (out out' : List UInt8) :
    (writeIpv4Header inp hdr i (segmentOf inp inLen hdr seq i).length out).bind
      (writeTransport inp inLen hdr seq i (hdr.hdrLen.toNat + i * hdr.gsoSize.toNat)
        (segEnd inLen hdr i)) = some out' ↔
    (segmentOf inp inLen hdr seq i).length ≤ out.length ∧
      segmentOf inp inLen hdr seq i ++ out.drop (segmentOf inp inLen hdr seq i).length = out' := by
  have hlen := length_segment seq h i
  have ht := h.tcpLen
  have hlt := hdr.gsoSize.toNat_lt
  have hend : segEnd inLen hdr i ≤ hdr.hdrLen.toNat + i * hdr.gsoSize.toNat + hdr.gsoSize.toNat :=
    Nat.min_le_left _ _
  have hw := write_segment seq h i hi out
  rw [← hlen] at hw
  constructor
  · intro hs
    obtain ⟨o, ho, hs'⟩ := Option.bind_eq_some_iff.mp hs
    have hfit := writeTransport_fits hs' (by omega) (by omega)
    rw [length_writeIpv4Header ho, ← hlen] at hfit
    exact ⟨hfit, Option.some.inj ((hw hfit).symm.trans hs)⟩
  · rintro ⟨hfit, rfl⟩
    exact hw hfit

/-- There is a buffer and a size entry for each of the segments `i`, …,
`i + n - 1`, and each of them fits its buffer. -/
structure Room (seg : ℕ → List UInt8) (i n : ℕ) (outBufs : List (List UInt8))
    (outSizes : List ℕ) : Prop where
  sizes : i + n ≤ outSizes.length ∨ n = 0
  bufs : ∀ j, i ≤ j → j < i + n → ∃ b, outBufs[j]? = some b ∧ (seg j).length ≤ b.length

theorem room_succ {seg : ℕ → List UInt8} {i n : ℕ} {bufs : List (List UInt8)} {sizes : List ℕ}
    {b : List UInt8} (hb : bufs[i]? = some b) (hfit : (seg i).length ≤ b.length)
    (hi : i < sizes.length) :
    Room seg (i + 1) n (bufs.set i (seg i ++ b.drop (seg i).length))
      (patch sizes i [(seg i).length]) ↔ Room seg i (n + 1) bufs sizes := by
  have hset {j : ℕ} (hj : i + 1 ≤ j) :
      (bufs.set i (seg i ++ b.drop (seg i).length))[j]? = bufs[j]? :=
    List.getElem?_set_ne (by omega)
  constructor
  · rintro ⟨hs, hr⟩
    rw [length_patch] at hs
    refine ⟨by omega, fun j hj hj' ↦ ?_⟩
    rcases Nat.eq_or_lt_of_le hj with rfl | hlt
    · exact ⟨b, hb, hfit⟩
    · rw [← hset hlt]
      exact hr j hlt (by omega)
  · rintro ⟨hs, hr⟩
    refine ⟨by rw [length_patch]; omega, fun j hj hj' ↦ ?_⟩
    rw [hset hj]
    exact hr j (by omega) (by omega)

/-- What the loop does from segment `i` on: it fills one buffer for every
segment that is allowed, and reports `-1` if payload is left over. -/
def loopResult (inp : List UInt8) (inLen : ℕ) (hdr : VirtioNetHdr) (seq : UInt32) (room i n : ℕ)
    (outBufs : List (List UInt8)) (outSizes : List ℕ) : Split :=
  ⟨if segCount (inLen - (hdr.hdrLen.toNat + i * hdr.gsoSize.toNat)) hdr.gsoSize.toNat ≤ room
      then castInt (i + n) else -1,
    inp, fillBufs (segmentOf inp inLen hdr seq) i n outBufs,
    fillSizes (segmentOf inp inLen hdr seq) i n outSizes⟩

theorem loopResult_succ {room i n : ℕ} {bufs : List (List UInt8)} {sizes : List ℕ} {b : List UInt8}
    (hb : bufs[i]? = some b) (hi : i < sizes.length)
    (hc : segCount (inLen - (hdr.hdrLen.toNat + i * hdr.gsoSize.toNat)) hdr.gsoSize.toNat =
      segCount (inLen - (hdr.hdrLen.toNat + (i + 1) * hdr.gsoSize.toNat)) hdr.gsoSize.toNat + 1) :
    loopResult inp inLen hdr seq room (i + 1) n
        (bufs.set i (segmentOf inp inLen hdr seq i ++ b.drop (segmentOf inp inLen hdr seq i).length))
        (patch sizes i [(segmentOf inp inLen hdr seq i).length]) =
      loopResult inp inLen hdr seq (room + 1) i (n + 1) bufs sizes := by
  simp only [loopResult, fillBufs_succ _ _ _ _ _ hb, fillSizes_succ _ _ _ _ hi, hc,
    Nat.add_le_add_iff_right, Nat.add_comm n 1, ← Nat.add_assoc]

theorem gsoLoop_iff (h : Splittable inp inLen hdr) (hg : 1 ≤ hdr.gsoSize.toNat) (room i n : ℕ)
    (outBufs : List (List UInt8)) (outSizes : List ℕ) (r : Split)
    (hn : n = min room
      (segCount (inLen - (hdr.hdrLen.toNat + i * hdr.gsoSize.toNat)) hdr.gsoSize.toNat)) :
    gsoLoop inp inLen hdr seq room i (hdr.hdrLen.toNat + i * hdr.gsoSize.toNat) outBufs outSizes =
      some r ↔ Room (segmentOf inp inLen hdr seq) i n outBufs outSizes ∧
        loopResult inp inLen hdr seq room i n outBufs outSizes = r := by
  induction room generalizing i n outBufs outSizes with
  | zero =>
    obtain rfl : n = 0 := by omega
    have hroom : Room (segmentOf inp inLen hdr seq) i 0 outBufs outSizes :=
      ⟨.inr rfl, fun j hj hj' ↦ by omega⟩
    rw [gsoLoop, loopResult, fillBufs_zero, fillSizes_zero, and_iff_right hroom]
    by_cases hlt : hdr.hdrLen.toNat + i * hdr.gsoSize.toNat < inLen
    · have hc := segCount_pos hg (show 0 < inLen - (hdr.hdrLen.toNat + i * hdr.gsoSize.toNat) by omega)
      rw [if_pos hlt, if_neg (by omega), Option.some_inj]
    · rw [if_neg hlt, Nat.sub_eq_zero_of_le (by omega), segCount_zero _ hg, if_pos le_rfl, Nat.add_zero,
        Option.some_inj]
  | succ room ih =>
    rw [gsoLoop]
    by_cases hlt : hdr.hdrLen.toNat + i * hdr.gsoSize.toNat < inLen
    · have hc := segCount_pos hg (show 0 < inLen - (hdr.hdrLen.toNat + i * hdr.gsoSize.toNat) by omega)
      have hnext : hdr.hdrLen.toNat + i * hdr.gsoSize.toNat + hdr.gsoSize.toNat =
          hdr.hdrLen.toNat + (i + 1) * hdr.gsoSize.toNat := by
        rw [Nat.add_one_mul]
        omega
      rw [Nat.sub_sub, hnext] at hc
      obtain ⟨n, rfl⟩ : ∃ n', n = n' + 1 := ⟨n - 1, by omega⟩
      have hlen := length_segment seq h i
      have hmin : min (hdr.hdrLen.toNat + i * hdr.gsoSize.toNat + hdr.gsoSize.toNat) inLen =
          segEnd inLen hdr i := rfl
      rw [if_pos hlt]
      simp only [hmin, Option.bind_eq_bind]
      rw [← hlen]
      constructor
      · intro hs
        simp only [Option.bind_eq_some_iff] at hs
        obtain ⟨_, hsize, b, hb, o, ho, o', ho', hrest⟩ := hs
        obtain ⟨hi, rfl⟩ := store_eq_some.mp hsize
        rw [List.length_singleton] at hi
        obtain ⟨hfit, rfl⟩ := (write_segment_iff seq h i hlt b o').mp (by rw [ho, Option.bind_some, ho'])
        rw [hnext, ih (i + 1) n _ _ (by omega)] at hrest
        obtain ⟨hroom, hres⟩ := hrest
        rw [loopResult_succ seq hb hi hc] at hres
        exact ⟨(room_succ hb hfit hi).mp hroom, hres⟩
      · rintro ⟨hroom, hres⟩
        obtain ⟨b, hb, hfit⟩ := hroom.bufs i le_rfl (by omega)
        have hi : i < outSizes.length := by
          have hs := hroom.sizes
          omega
        have hsize : store outSizes i [(segmentOf inp inLen hdr seq i).length] =
            some (patch outSizes i [(segmentOf inp inLen hdr seq i).length]) := store_eq hi
        have hw := (write_segment_iff seq h i hlt b _).mpr ⟨hfit, rfl⟩
        rw [hsize, Option.bind_some, hb, Option.bind_some, ← Option.bind_assoc, hw, Option.bind_some,
          hnext, ih (i + 1) n _ _ (by omega), loopResult_succ seq hb hi hc, room_succ hb hfit hi]
        exact ⟨hroom, hres⟩
    · have hz : segCount (inLen - (hdr.hdrLen.toNat + i * hdr.gsoSize.toNat)) hdr.gsoSize.toNat = 0 := by
        rw [Nat.sub_eq_zero_of_le (by omega), segCount_zero _ hg]
      obtain rfl : n = 0 := by omega
      have hroom : Room (segmentOf inp inLen hdr seq) i 0 outBufs outSizes :=
        ⟨.inr rfl, fun j hj hj' ↦ by omega⟩
      rw [if_neg hlt, loopResult, fillBufs_zero, fillSizes_zero, hz, if_pos (Nat.zero_le _),
        Nat.add_zero, Option.some_inj, and_iff_right hroom]

@[simp] theorem length_zeroCsums (inp : List UInt8) (hdr : VirtioNetHdr) :
    (zeroCsums inp hdr).length = inp.length := by
  simp [zeroCsums]

theorem zeroCsums_of_ne {j : ℕ} (h : j ∉ [10, 11, hdr.csumStart.toNat + 16, hdr.csumStart.toNat + 17]) :
    (zeroCsums inp hdr)[j]? = inp[j]? := by
  simp only [List.mem_cons, List.not_mem_nil, or_false, not_or] at h
  unfold zeroCsums
  rw [getElem?_patch_of_ne (by simp; omega), getElem?_patch_of_ne (by simp; omega),
    getElem?_patch_of_ne (by simp; omega), getElem?_patch_of_ne (by simp; omega)]

theorem drop_zeroCsums {n : ℕ} (h : 12 ≤ n) (hn : hdr.csumStart.toNat + 18 ≤ n) :
    (zeroCsums inp hdr).drop n = inp.drop n := by
  apply List.ext_getElem? fun j ↦ ?_
  rw [List.getElem?_drop, List.getElem?_drop, zeroCsums_of_ne]
  simp only [List.mem_cons, List.not_mem_nil, or_false, not_or]
  omega

theorem Splittable.zeroed (h : Splittable inp inLen hdr) :
    Splittable (zeroCsums inp hdr) inLen hdr :=
  { h with buffer := by simpa using h.buffer }

/-- Segment `i` as `gsoSplit` cuts it out of its input. -/
def splitSegment (inp : List UInt8) (inLen : ℕ) (hdr : VirtioNetHdr) (i : ℕ) : List UInt8 :=
  segmentOf (zeroCsums inp hdr) inLen hdr (be32At (zeroCsums inp hdr) (hdr.csumStart.toNat + 4)) i

theorem length_splitSegment (h : Splittable inp inLen hdr) (i : ℕ) :
    (splitSegment inp inLen hdr i).length = hdr.hdrLen.toNat +
      min hdr.gsoSize.toNat (inLen - hdr.hdrLen.toNat - i * hdr.gsoSize.toNat) := by
  rw [splitSegment, length_segment _ h.zeroed, segEnd]
  omega

/-- The number of segments `gsoSplit` writes before it returns. -/
def written (inLen : ℕ) (hdr : VirtioNetHdr) (maxSegs : ℕ) : ℕ :=
  min maxSegs (segCount (inLen - hdr.hdrLen.toNat) hdr.gsoSize.toNat)

def splitResult (inp : List UInt8) (inLen : ℕ) (hdr : VirtioNetHdr) (outBufs : List (List UInt8))
    (outSizes : List ℕ) (maxSegs : ℕ) : Split :=
  ⟨if segCount (inLen - hdr.hdrLen.toNat) hdr.gsoSize.toNat ≤ maxSegs
      then castInt (written inLen hdr maxSegs) else -1,
    zeroCsums inp hdr, fillBufs (splitSegment inp inLen hdr) 0 (written inLen hdr maxSegs) outBufs,
    fillSizes (splitSegment inp inLen hdr) 0 (written inLen hdr maxSegs) outSizes⟩

/-- `gsoSplit` as a whole: it stays inside the caller's buffers exactly when
every segment it writes fits, and then it leaves the segments there. -/
theorem gsoSplit_iff (h : Splittable inp inLen hdr) (hg : 1 ≤ hdr.gsoSize.toNat)
    (outBufs : List (List UInt8)) (outSizes : List ℕ) (maxSegs : ℕ) (r : Split) :
    gsoSplit inp inLen hdr outBufs outSizes maxSegs = some r ↔
      Room (splitSegment inp inLen hdr) 0 (written inLen hdr maxSegs) outBufs outSizes ∧
        splitResult inp inLen hdr outBufs outSizes maxSegs = r := by
  have hip := h.iphLen
  have ht := h.tcpLen
  have hl := h.hdrLen
  have hb := h.buffer
  have h16 : (16 : UInt16).toNat = 16 := rfl
  have hloop := gsoLoop_iff (be32At (zeroCsums inp hdr) (hdr.csumStart.toNat + 4))
    h.zeroed hg maxSegs 0 _ outBufs outSizes r rfl
  simp only [loopResult, Nat.zero_mul, Nat.add_zero, Nat.zero_add] at hloop
  have hseq : getBE32 (zeroCsums inp hdr) (hdr.csumStart.toNat + 4) =
      some (be32At (zeroCsums inp hdr) (hdr.csumStart.toNat + 4)) :=
    getBE32_eq (by simp only [length_zeroCsums]; omega)
  have h₁ : store inp 10 [0] = some (patch inp 10 [0]) := store_eq (by simp; omega)
  have h₂ : store (patch inp 10 [0]) 11 [0] = some (patch (patch inp 10 [0]) 11 [0]) :=
    store_eq (by simp; omega)
  have h₃ : store (patch (patch inp 10 [0]) 11 [0]) (hdr.csumStart.toNat + 16) [0] = some
      (patch (patch (patch inp 10 [0]) 11 [0]) (hdr.csumStart.toNat + 16) [0]) :=
    store_eq (by simp; omega)
  have h₄ : store (patch (patch (patch inp 10 [0]) 11 [0]) (hdr.csumStart.toNat + 16) [0])
      (hdr.csumStart.toNat + 16 + 1) [0] = some (zeroCsums inp hdr) := store_eq (by simp; omega)
  unfold gsoSplit
  rw [if_neg (by simp [h.gsoType]), h.csumOffset, h16]
  simp only [Option.bind_eq_bind, h₁, h₂, h₃, h₄, Option.bind_some, hseq]
  exact hloop

end Gofra.GsoSplit
