import Gofra.Lib.SeqSpace
import Gofra.Segmentation

namespace Gofra.TcpStream

open Lib.SeqSpace Gso GsoSplit Segmentation

/-- What a TCP packet puts at a sequence number. -/
inductive Item where
  | byte (b : UInt8)
  | fin
  deriving DecidableEq

def tcpFlagSyn : UInt8 := 0x02

def dataOff (p : List UInt8) : ℕ := ipv4HdrLen p + tcpHdrLen p (ipv4HdrLen p)

def flagsOf (p : List UInt8) : UInt8 := p.getD (ipv4HdrLen p + tcpFlagsOffset) 0

def dataOf (p : List UInt8) : List Item := (p.drop (dataOff p)).map .byte

def finOf (p : List UInt8) : List Item := if flagsOf p &&& tcpFlagFin ≠ 0 then [.fin] else []

/-- The sequence number of a packet's first byte; a SYN takes one for itself. -/
def firstSeq (p : List UInt8) : UInt32 :=
  be32At p (ipv4HdrLen p + 4) + if flagsOf p &&& tcpFlagSyn ≠ 0 then 1 else 0

/-- The part of its TCP stream that a packet carries. -/
def stream (p : List UInt8) : Set (UInt32 × Item) := span (firstSeq p) (dataOf p ++ finOf p)

/-- The stream that a packet belongs to. -/
structure Flow where
  srcAddr : UInt32
  dstAddr : UInt32
  srcPort : UInt16
  dstPort : UInt16
  deriving DecidableEq

def flowOf (p : List UInt8) : Flow where
  srcAddr := be32At p 12
  dstAddr := be32At p 16
  srcPort := be16At p (ipv4HdrLen p)
  dstPort := be16At p (ipv4HdrLen p + 2)

/-- What a packet acknowledges of the opposite stream. -/
def ackOf (p : List UInt8) : UInt32 := be32At p (ipv4HdrLen p + 8)

/-- `segs` carry what `pkt` carries, in the same stream, and nothing twice. -/
structure Resegmented (pkt : List UInt8) (segs : List (List UInt8)) : Prop where
  stream : {x | ∃ seg ∈ segs, x ∈ stream seg} = stream pkt
  disjoint : segs.Pairwise fun p q ↦ Disjoint (TcpStream.stream p) (TcpStream.stream q)
  flow : ∀ seg ∈ segs, flowOf seg = flowOf pkt ∧ ackOf seg = ackOf pkt

theorem getD_of_getElem? {p q : List UInt8} {j : ℕ} (h : p[j]? = q[j]?) : p.getD j 0 = q.getD j 0 := by
  rw [List.getD_eq_getElem?_getD, List.getD_eq_getElem?_getD, h]

/-- Two packets that agree on the bytes of their headers are of one stream. -/
theorem flowOf_congr {p q : List UInt8} (hip : ipv4HdrLen q = ipv4HdrLen p)
    (haddr : ∀ j, 12 ≤ j → j < 20 → q[j]? = p[j]?)
    (htcp : ∀ j, j < 4 ∨ 8 ≤ j ∧ j < 12 → q[ipv4HdrLen p + j]? = p[ipv4HdrLen p + j]?) :
    flowOf q = flowOf p ∧ ackOf q = ackOf p := by
  simp only [flowOf, ackOf, hip, Flow.mk.injEq]
  refine ⟨⟨?_, ?_, ?_, ?_⟩, ?_⟩
  · exact be32At_congr fun k hk ↦ haddr _ (by omega) (by omega)
  · exact be32At_congr fun k hk ↦ haddr _ (by omega) (by omega)
  · exact be16At_congr (htcp 0 (by omega)) (htcp 1 (by omega))
  · exact be16At_congr (htcp 2 (by omega)) (htcp 3 (by omega))
  · exact be32At_congr fun k hk ↦ by
      rw [Nat.add_assoc]
      exact htcp (8 + k) (by omega)

section Segment

variable {inp : List UInt8} {inLen : ℕ} {hdr : VirtioNetHdr} (h : SuperPacket inp inLen hdr)
include h

theorem packet_hdrLen : ipv4HdrLen (inp.take inLen) = hdr.csumStart.toNat ∧
    dataOff (inp.take inLen) = hdr.hdrLen.toNat := by
  have hcs := h.csumStart
  have hip := h.iphLen
  have htcp := h.tcpLen
  have hhdr := h.hdrLen
  have hle := h.hdrLen_le
  have hfirst : ipv4HdrLen (inp.take inLen) = hdr.csumStart.toNat := by
    rw [ipv4HdrLen, getD_of_getElem? (List.getElem?_take_of_lt (by omega)), ← ipv4HdrLen, hcs]
  refine ⟨hfirst, ?_⟩
  rw [dataOff, hfirst, tcpHdrLen, getD_of_getElem? (List.getElem?_take_of_lt (by omega)), ← tcpHdrLen, hhdr]

theorem length_data : (dataOf (inp.take inLen)).length = inLen - hdr.hdrLen.toNat := by
  obtain ⟨-, hoff⟩ := packet_hdrLen h
  rw [dataOf, hoff, List.length_map, List.length_drop, List.length_take, Nat.min_eq_left h.buffer]

variable (i : ℕ)

/-- The bytes of the headers that all segments share with the packet. -/
theorem segment_header {j : ℕ} (hj : j < hdr.hdrLen.toNat) (hip : j ∉ [2, 3, 4, 5, 10, 11])
    (htcp : j ∉ [4, 5, 6, 7, 13, 16, 17].map (hdr.csumStart.toNat + ·)) :
    (splitSegment inp inLen hdr i)[j]? = (inp.take inLen)[j]? := by
  have hle := h.hdrLen_le
  rw [splitSegment_header h.splittable hj hip htcp, List.getElem?_take_of_lt (by omega)]

theorem segment_hdrLen : ipv4HdrLen (splitSegment inp inLen hdr i) = hdr.csumStart.toNat ∧
    dataOff (splitSegment inp inLen hdr i) = hdr.hdrLen.toNat := by
  obtain ⟨hip', hoff⟩ := packet_hdrLen h
  have hip := h.iphLen
  have htcp := h.tcpLen
  have hhdr := h.hdrLen
  have hfirst : ipv4HdrLen (splitSegment inp inLen hdr i) = hdr.csumStart.toNat := by
    rw [ipv4HdrLen, getD_of_getElem? (segment_header h i (by omega) (by simp) ?_), ← ipv4HdrLen, hip']
    simp only [List.map_cons, List.map_nil, List.mem_cons, List.not_mem_nil, or_false, not_or]
    omega
  refine ⟨hfirst, ?_⟩
  rw [← hoff, dataOff, dataOff, hfirst, hip', tcpHdrLen, tcpHdrLen,
    getD_of_getElem? (segment_header h i (by omega) ?_ ?_)]
  · simp only [List.mem_cons, List.not_mem_nil, or_false, not_or]
    omega
  · simp only [List.map_cons, List.map_nil, List.mem_cons, List.not_mem_nil, or_false, not_or]
    omega

theorem segment_flow : flowOf (splitSegment inp inLen hdr i) = flowOf (inp.take inLen) ∧
    ackOf (splitSegment inp inLen hdr i) = ackOf (inp.take inLen) := by
  obtain ⟨hip', -⟩ := packet_hdrLen h
  obtain ⟨hseg, -⟩ := segment_hdrLen h i
  have hip := h.iphLen
  have htcp := h.tcpLen
  have hhdr := h.hdrLen
  refine flowOf_congr (hseg.trans hip'.symm) (fun j hj hj' ↦ ?_) fun j hj ↦ ?_
  all_goals
    refine segment_header h i (by omega) ?_ ?_
    all_goals
      simp only [List.map_cons, List.map_nil, List.mem_cons, List.not_mem_nil, or_false, not_or]
      omega

/-- Segment `i` carries the `i`-th piece of the data. -/
theorem segment_data : dataOf (splitSegment inp inLen hdr i) =
    ((dataOf (inp.take inLen)).drop (i * hdr.gsoSize.toNat)).take hdr.gsoSize.toNat := by
  obtain ⟨-, hoff⟩ := packet_hdrLen h
  obtain ⟨-, hseg⟩ := segment_hdrLen h i
  rw [dataOf, dataOf, hseg, hoff, splitSegment_payload h.splittable, ← List.map_drop, ← List.map_take,
    List.drop_drop, List.drop_take, List.take_take]
  congr 2
  omega

variable (hg : 1 ≤ hdr.gsoSize.toNat)
include hg

theorem segment_flags : flagsOf (splitSegment inp inLen hdr i) =
    if i + 1 < segCount (inLen - hdr.hdrLen.toNat) hdr.gsoSize.toNat then
      flagsOf (inp.take inLen) &&& ~~~(tcpFlagFin ||| tcpFlagPsh) else flagsOf (inp.take inLen) := by
  obtain ⟨hip', -⟩ := packet_hdrLen h
  obtain ⟨hseg, -⟩ := segment_hdrLen h i
  have htcp := h.tcpLen
  have hhdr := h.hdrLen
  have hle := h.hdrLen_le
  rw [flagsOf, hseg, flagsOf, hip', tcpFlagsOffset, splitSegment_flags h.splittable hg,
    getD_of_getElem? (List.getElem?_take_of_lt (by omega))]

theorem segment_fin : finOf (splitSegment inp inLen hdr i) =
    if i + 1 < segCount (inLen - hdr.hdrLen.toNat) hdr.gsoSize.toNat then []
    else finOf (inp.take inLen) := by
  have hclear (f : UInt8) : f &&& ~~~(tcpFlagFin ||| tcpFlagPsh) &&& tcpFlagFin = 0 := by
    rw [UInt8.and_assoc]
    exact UInt8.and_zero
  rw [finOf, segment_flags h i hg]
  split
  · rw [hclear, if_neg (by simp)]
  · rfl

theorem segment_firstSeq : firstSeq (splitSegment inp inLen hdr i) =
    firstSeq (inp.take inLen) + UInt32.ofNat (i * hdr.gsoSize.toNat) := by
  obtain ⟨hip', -⟩ := packet_hdrLen h
  obtain ⟨hseg, -⟩ := segment_hdrLen h i
  have htcp := h.tcpLen
  have hhdr := h.hdrLen
  have hle := h.hdrLen_le
  have hkeep (f : UInt8) : f &&& ~~~(tcpFlagFin ||| tcpFlagPsh) &&& tcpFlagSyn = f &&& tcpFlagSyn := by
    rw [UInt8.and_assoc]
    rfl
  have hsyn : flagsOf (splitSegment inp inLen hdr i) &&& tcpFlagSyn = flagsOf (inp.take inLen) &&& tcpFlagSyn := by
    rw [segment_flags h i hg]
    split
    · exact hkeep _
    · rfl
  have hpkt : be32At (inp.take inLen) (hdr.csumStart.toNat + 4) = be32At inp (hdr.csumStart.toNat + 4) :=
    be32At_congr fun k hk ↦ List.getElem?_take_of_lt (by omega)
  have hseq : be32At (splitSegment inp inLen hdr i) (hdr.csumStart.toNat + 4) =
      be32At inp (hdr.csumStart.toNat + 4) + UInt32.ofNat (i * hdr.gsoSize.toNat) := by
    apply UInt32.toNat_inj.mp
    rw [splitSegment_tcpSeq h.splittable, UInt32.toNat_add, UInt32.toNat_ofNat', Nat.add_mod_mod]
  rw [firstSeq, firstSeq, hseg, hip', hsyn, hseq, hpkt, UInt32.add_assoc, UInt32.add_assoc]
  congr 1
  exact UInt32.add_comm ..

/-- What segment `i` carries, by its place in the packet. -/
theorem segment_stream (hi : i < segCount (inLen - hdr.hdrLen.toNat) hdr.gsoSize.toNat) :
    stream (splitSegment inp inLen hdr i) = span (firstSeq (inp.take inLen) + UInt32.ofNat (i * hdr.gsoSize.toNat))
        (((dataOf (inp.take inLen)).drop (i * hdr.gsoSize.toNat)).take hdr.gsoSize.toNat) ∪
      if i + 1 < segCount (inLen - hdr.hdrLen.toNat) hdr.gsoSize.toNat then ∅
      else span (firstSeq (inp.take inLen) + UInt32.ofNat (dataOf (inp.take inLen)).length)
        (finOf (inp.take inLen)) := by
  have hlen := length_data h
  rw [stream, segment_firstSeq h i hg, segment_data h i, segment_fin h i hg, span_append]
  congr 1
  split
  · exact span_nil _
  · rename_i hlast
    rw [lt_segCount hg] at hi hlast
    rw [Nat.add_one_mul] at hlast
    have hend : i * hdr.gsoSize.toNat + (((dataOf (inp.take inLen)).drop (i * hdr.gsoSize.toNat)).take
        hdr.gsoSize.toNat).length = (dataOf (inp.take inLen)).length := by
      rw [List.length_take, List.length_drop]
      omega
    rw [UInt32.add_assoc, ← UInt32.ofNat_add, hend]

omit i in
theorem segments_stream (hne : hdr.hdrLen.toNat < inLen) :
    {x | ∃ seg ∈ (List.range (segCount (inLen - hdr.hdrLen.toNat) hdr.gsoSize.toNat)).map
      (splitSegment inp inLen hdr), x ∈ stream seg} = stream (inp.take inLen) := by
  have hlen := length_data h
  have hpos : 0 < segCount (inLen - hdr.hdrLen.toNat) hdr.gsoSize.toNat := (lt_segCount hg).mpr (by omega)
  have hall : (dataOf (inp.take inLen)).length ≤
      segCount (inLen - hdr.hdrLen.toNat) hdr.gsoSize.toNat * hdr.gsoSize.toNat := by
    by_contra hlt
    rw [hlen, Nat.not_le] at hlt
    exact Nat.lt_irrefl _ ((lt_segCount hg).mpr hlt)
  have hdata := iUnion_span hg hall (firstSeq (inp.take inLen))
  rw [stream, span_append, ← hdata]
  ext x
  simp only [Set.mem_ofPred_eq, List.mem_map, List.mem_range, exists_exists_and_eq_and, Set.mem_union, Set.mem_iUnion,
    exists_prop]
  constructor
  · rintro ⟨i, hi, hx⟩
    rw [segment_stream h i hg hi] at hx
    rcases hx with hx | hx
    · exact .inl ⟨i, hi, hx⟩
    · split at hx
      · exact absurd hx (Set.notMem_empty x)
      · exact .inr hx
  · rintro (⟨i, hi, hx⟩ | hx)
    · exact ⟨i, hi, segment_stream h i hg hi ▸ .inl hx⟩
    · refine ⟨segCount (inLen - hdr.hdrLen.toNat) hdr.gsoSize.toNat - 1, by omega, ?_⟩
      rw [segment_stream h _ hg (by omega), if_neg (by omega)]
      exact .inr hx

omit i in
theorem segments_disjoint : ((List.range (segCount (inLen - hdr.hdrLen.toNat) hdr.gsoSize.toNat)).map
    (splitSegment inp inLen hdr)).Pairwise fun p q ↦ Disjoint (stream p) (stream q) := by
  have hlen := length_data h
  have hle := h.inLen_le
  refine List.pairwise_map.mpr (List.pairwise_lt_range.imp_of_mem fun {i j} hi hj hij ↦ ?_)
  have hi := List.mem_range.mp hi
  have hj := List.mem_range.mp hj
  have hbefore := (lt_segCount hg).mp hj
  have hmul : i * hdr.gsoSize.toNat + hdr.gsoSize.toNat ≤ j * hdr.gsoSize.toNat := by
    rw [← Nat.add_one_mul]
    exact Nat.mul_le_mul_right _ hij
  have hfin : (finOf (splitSegment inp inLen hdr j)).length ≤ 1 := by
    rw [finOf]
    split <;> simp
  have hnofin : finOf (splitSegment inp inLen hdr i) = [] := by rw [segment_fin h i hg, if_pos (by omega)]
  rw [stream, stream, segment_firstSeq h i hg, segment_firstSeq h j hg]
  refine disjoint_span ?_ ?_
  · rw [hnofin, List.append_nil, segment_data h i, List.length_take]
    omega
  · rw [List.length_append, segment_data h j, List.length_take, List.length_drop]
    omega

/-- The segments of a super-packet carry its stream, piece by piece. -/
theorem segments_resegmented (hne : hdr.hdrLen.toNat < inLen) : Resegmented (inp.take inLen)
    ((List.range (segCount (inLen - hdr.hdrLen.toNat) hdr.gsoSize.toNat)).map (splitSegment inp inLen hdr)) where
  stream := segments_stream h hg hne
  disjoint := segments_disjoint h hg
  flow seg hseg := by
    obtain ⟨i, -, rfl⟩ := List.mem_map.mp hseg
    exact segment_flow h i

end Segment

end Gofra.TcpStream
