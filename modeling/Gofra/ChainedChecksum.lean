import Gofra.Csum

namespace Gofra.ChainedChecksum

open Lib.OnesComplement Csum

/-- The unfolded sum threaded through the chunks. -/
def chain (chunks : List (List UInt8)) (initial : UInt64) : UInt64 :=
  chunks.foldl (fun sum chunk ↦ checksumNoFold chunk sum) initial

theorem chain_cons (chunk : List UInt8) (chunks : List (List UInt8)) (initial : UInt64) :
    chain (chunk :: chunks) initial = chain chunks (checksumNoFold chunk initial) := by
  rw [chain, List.foldl_cons, chain]

/-- The bytes whose sum `pseudoHeaderChecksumNoFold` starts from. -/
def pseudoHeader (protocol : UInt8) (srcAddr dstAddr : List UInt8) (totalLen : UInt16) : List UInt8 :=
  srcAddr ++ dstAddr ++ [0, protocol, (totalLen >>> 8).toUInt8, totalLen.toUInt8]

/-- The intermediate sums differ from those of one run over all chunks, but not
modulo `65535`, and they are zero together. -/
theorem chain_cong {chunks : List (List UInt8)} (heven : ∀ chunk ∈ chunks, chunk.length % 2 = 0)
    (hlen : chunks.flatten.length < 2 ^ 64) (initial : UInt64) :
    Cong 65535 (chain chunks initial).toNat (initial.toNat + wordSum chunks.flatten) := by
  induction chunks generalizing initial with
  | nil => exact Cong.refl _ _
  | cons chunk chunks ih =>
    obtain ⟨hchunk, hchunks⟩ := List.forall_mem_cons.mp heven
    rw [List.flatten_cons, List.length_append] at hlen
    have hfirst := (checksumNoFold_cong chunk initial (by omega)).add
      (Cong.refl 65535 (wordSum chunks.flatten))
    have hrest := ih hchunks (by omega) (checksumNoFold chunk initial)
    rw [chain_cons, List.flatten_cons, wordSum_append hchunk, ← Nat.add_assoc]
    exact hrest.trans hfirst

theorem flatten_even {chunks : List (List UInt8)} (heven : ∀ chunk ∈ chunks, chunk.length % 2 = 0) :
    chunks.flatten.length % 2 = 0 := by
  induction chunks with
  | nil => rfl
  | cons chunk chunks ih =>
    obtain ⟨hchunk, hchunks⟩ := List.forall_mem_cons.mp heven
    have hrest := ih hchunks
    rw [List.flatten_cons, List.length_append]
    omega

theorem checksum_chain {chunks : List (List UInt8)} {last : List UInt8}
    (heven : ∀ chunk ∈ chunks, chunk.length % 2 = 0) (hlen : (chunks.flatten ++ last).length < 2 ^ 64)
    (initial : UInt64) : checksum last (chain chunks initial) = checksum (chunks.flatten ++ last) initial := by
  have hsplit := hlen
  rw [List.length_append] at hsplit
  have hsum := (chain_cong heven (by omega) initial).add (Cong.refl 65535 (wordSum last))
  apply UInt16.toNat_inj.mp
  rw [checksum_eq_rep last _ (by omega), checksum_eq_rep _ initial hlen,
    wordSum_append (flatten_even heven), ← Nat.add_assoc]
  exact hsum.rep_eq

theorem checksum_chained :
    (∀ (chunks : List (List UInt8)) (last : List UInt8) (initial : UInt64),
      (∀ chunk ∈ chunks, chunk.length % 2 = 0) → (chunks.flatten ++ last).length < 2 ^ 64 →
      checksum last (chain chunks initial) = checksum (chunks.flatten ++ last) initial) ∧
    ∀ (protocol : UInt8) (srcAddr dstAddr : List UInt8) (totalLen : UInt16) (segment : List UInt8),
      srcAddr.length % 2 = 0 → dstAddr.length % 2 = 0 →
      (pseudoHeader protocol srcAddr dstAddr totalLen ++ segment).length < 2 ^ 64 →
      checksum segment (pseudoHeaderChecksumNoFold protocol srcAddr dstAddr totalLen) =
        checksum (pseudoHeader protocol srcAddr dstAddr totalLen ++ segment) 0 := by
  constructor
  · intro chunks last initial heven hlen
    exact checksum_chain heven hlen initial
  · intro protocol srcAddr dstAddr totalLen segment hsrc hdst hlen
    have heven : ∀ chunk ∈ [srcAddr, dstAddr, [0, protocol, (totalLen >>> 8).toUInt8, totalLen.toUInt8]],
        chunk.length % 2 = 0 := by simp [hsrc, hdst]
    have hbytes : [srcAddr, dstAddr, [0, protocol, (totalLen >>> 8).toUInt8, totalLen.toUInt8]].flatten =
        pseudoHeader protocol srcAddr dstAddr totalLen := by simp [pseudoHeader]
    have hchain := @checksum_chain _ segment heven (by rwa [hbytes]) 0
    rwa [hbytes] at hchain

theorem checksum_chained_sample :
    checksum [9, 1] (chain [[1, 2], [3, 4, 5, 6, 7, 8, 9, 10, 11, 12]] 0xffff000000000002) =
      checksum [1, 2, 3, 4, 5, 6, 7, 8, 9, 10, 11, 12, 9, 1] 0xffff000000000002 ∧
    checksum [7, 7, 7] (pseudoHeaderChecksumNoFold 6 [10, 0, 0, 1] [10, 0, 0, 2] 3) =
      checksum ([10, 0, 0, 1, 10, 0, 0, 2, 0, 6, 0, 3] ++ [7, 7, 7]) 0 :=
  ⟨checksum_chained.1 [[1, 2], [3, 4, 5, 6, 7, 8, 9, 10, 11, 12]] [9, 1] _ (by decide) (by decide),
    checksum_chained.2 6 [10, 0, 0, 1] [10, 0, 0, 2] 3 [7, 7, 7] (by decide) (by decide) (by decide)⟩

end Gofra.ChainedChecksum
