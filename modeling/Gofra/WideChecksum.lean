import Gofra.Csum

namespace Gofra.WideChecksum

open Lib.OnesComplement Csum

/-- The four 16-bit words of the initial value. -/
def u64Words (x : UInt64) : List ℕ :=
  [x.toNat / 2 ^ 48, x.toNat / 2 ^ 32 % 2 ^ 16, x.toNat / 2 ^ 16 % 2 ^ 16, x.toNat % 2 ^ 16]

theorem u64Words_le (x : UInt64) : ∀ w ∈ u64Words x, w ≤ 65535 := by
  have hx := x.toNat_lt
  intro w hw
  simp only [u64Words, List.mem_cons, List.not_mem_nil, or_false] at hw
  omega

theorem u64Words_cong (x : UInt64) : Cong 65535 (u64Words x).sum x.toNat := by
  have hx := x.toNat_lt
  have h₂ : x.toNat / 2 ^ 32 = x.toNat / 2 ^ 16 / 2 ^ 16 := by omega
  have h₃ : x.toNat / 2 ^ 48 = x.toNat / 2 ^ 16 / 2 ^ 16 / 2 ^ 16 := by omega
  simp only [u64Words, List.sum_cons, List.sum_nil, h₂, h₃]
  exact ⟨by omega, by omega⟩

/-- The 128-bit accumulator after the loop and the tails. -/
def wideSum (data : List UInt8) (initial : UInt64) : ℕ :=
  let (ac, data) := addWords (bswap64 initial).toNat data
  addTail ac data

theorem wideSum_lt (data : List UInt8) (initial : UInt64) (hlen : data.length < 2 ^ 64) :
    wideSum data initial < 2 ^ 128 := by
  have hi := (bswap64 initial).toNat_lt
  obtain ⟨hlt, -⟩ := addWords_cong (bswap64 initial).toNat data (by omega)
  exact (addTail_cong _ _ hlt (addWords_length _ _)).1

/-- The code's four folds, before they are cut to 16 bits. -/
def folded (data : List UInt8) (initial : UInt64) : UInt64 :=
  fold16 (fold16 (fold16 (fold16 (checksumNoFold data initial))))

theorem folded_lt (data : List UInt8) (initial : UInt64) : (folded data initial).toNat < 2 ^ 16 := by
  have hlt := (checksumNoFold data initial).toNat_lt
  simp only [folded, fold16_toNat]
  omega

theorem checksum_eq_eacSum (data : List UInt8) (initial : UInt64) (hlen : data.length < 2 ^ 64) :
    (checksum data initial).toNat = eacSum 65535 (u64Words initial ++ be16Words data) ∧
    (foldWide (wideSum data initial)).toNat = eacAdd (2 ^ 64 - 1) (wideSum data initial % 2 ^ 64)
      (wideSum data initial / 2 ^ 64) ∧
    (∀ ac : UInt64, (fold16 ac).toNat = ac.toNat / 2 ^ 16 + ac.toNat % 2 ^ 16) ∧
    (checksum data initial).toNat = (folded data initial).toNat := by
  have hle : ∀ w ∈ u64Words initial ++ be16Words data, w ≤ 65535 := by
    intro w hw
    rcases List.mem_append.mp hw with hw | hw
    · exact u64Words_le initial w hw
    · exact be16Words_le data w hw
  refine ⟨?_, foldWide_eq_eacAdd (wideSum_lt data initial hlen), fold16_toNat, ?_⟩
  · rw [checksum_eq_rep data initial hlen, eacSum_eq_rep _ hle, List.sum_append]
    exact ((u64Words_cong initial).symm.add (Cong.refl _ (wordSum data))).rep_eq
  · have hlt := folded_lt data initial
    change (folded data initial).toUInt16.toNat = _
    rw [UInt64.toNat_toUInt16]
    omega

theorem checksum_eq_eacSum_odd : (checksum [0xff, 0xff, 0x01] 0xffff000000000002).toNat =
    eacSum 65535 (u64Words 0xffff000000000002 ++ be16Words [0xff, 0xff, 0x01]) :=
  (checksum_eq_eacSum [0xff, 0xff, 0x01] 0xffff000000000002 (by decide)).1

end Gofra.WideChecksum
