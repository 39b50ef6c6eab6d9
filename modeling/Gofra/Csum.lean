import Gofra.Lib.OnesComplement
import Mathlib.Tactic.Ring
import Mathlib.Tactic.NormNum

namespace Gofra.Csum

open Lib.OnesComplement

/-- The number whose little-endian bytes are `bs`. -/
def leNat : List UInt8 → ℕ
  | [] => 0
  | b :: bs => b.toNat + 256 * leNat bs

def loadU64 (p : List UInt8) : ℕ := leNat (p.take 8)

def loadU32 (p : List UInt8) : ℕ := leNat (p.take 4)

def loadU16 (p : List UInt8) : ℕ := leNat (p.take 2)

/-- The memory image of a number on a little-endian host. -/
def leBytes : ℕ → ℕ → List UInt8
  | 0, _ => []
  | k + 1, n => UInt8.ofNat n :: leBytes k (n / 256)

def bswap64 (x : UInt64) : UInt64 := UInt64.ofNat (leNat (leBytes 8 x.toNat).reverse)

/-- The `while (len >= 8)` loop on the 128-bit accumulator. -/
def addWords (ac : ℕ) : List UInt8 → ℕ × List UInt8
  | b₀ :: b₁ :: b₂ :: b₃ :: b₄ :: b₅ :: b₆ :: b₇ :: data =>
    addWords ((ac + loadU64 [b₀, b₁, b₂, b₃, b₄, b₅, b₆, b₇]) % 2 ^ 128) data
  | data => (ac, data)

/-- The 4-, 2- and 1-byte tails. An odd last byte is the low byte of its
little-endian word. -/
def addTail (ac : ℕ) (data : List UInt8) : ℕ :=
  let (ac, data) := if 4 ≤ data.length then ((ac + loadU32 data) % 2 ^ 128, data.drop 4) else (ac, data)
  let (ac, data) := if 2 ≤ data.length then ((ac + loadU16 data) % 2 ^ 128, data.drop 2) else (ac, data)
  if data.length = 1 then (ac + leNat data) % 2 ^ 128 else ac

/-- The end-around carry from 128 to 64 bits. -/
def foldWide (ac : ℕ) : UInt64 :=
  let lo := UInt64.ofNat ac
  let hi := UInt64.ofNat (ac / 2 ^ 64)
  let sum := lo + hi
  if sum < lo then sum + 1 else sum

def checksumNoFold (data : List UInt8) (initial : UInt64) : UInt64 :=
  let (ac, data) := addWords (bswap64 initial).toNat data
  bswap64 (foldWide (addTail ac data))

def fold16 (ac : UInt64) : UInt64 := (ac >>> 16) + (ac &&& 0xffff)

def checksum (data : List UInt8) (initial : UInt64) : UInt16 :=
  (fold16 (fold16 (fold16 (fold16 (checksumNoFold data initial))))).toUInt16

def pseudoHeaderChecksumNoFold (protocol : UInt8) (srcAddr dstAddr : List UInt8)
    (totalLen : UInt16) : UInt64 :=
  let sum := checksumNoFold srcAddr 0
  let sum := checksumNoFold dstAddr sum
  checksumNoFold [0, protocol, (totalLen >>> 8).toUInt8, totalLen.toUInt8] sum

/-- The big-endian 16-bit words of a byte string; an odd last byte is padded
with a zero on the right. -/
def be16Words : List UInt8 → List ℕ
  | [] => []
  | [a] => [256 * a.toNat]
  | a :: b :: r => (256 * a.toNat + b.toNat) :: be16Words r

/-- The ones'-complement sum of RFC 1071 over a byte string. -/
def onesSum (data : List UInt8) : ℕ := eacSum 65535 (be16Words data)

def wordSum (data : List UInt8) : ℕ := (be16Words data).sum

/-- The plain sum of the little-endian words, which the code accumulates. -/
def leSum : List UInt8 → ℕ
  | [] => 0
  | [a] => a.toNat
  | a :: b :: r => a.toNat + 256 * b.toNat + leSum r

theorem be16Words_le (data : List UInt8) : ∀ w ∈ be16Words data, w ≤ 65535 := by
  induction data using be16Words.induct with
  | case1 => simp [be16Words]
  | case2 a =>
    have ha := a.toNat_lt
    simp only [be16Words, List.mem_singleton, forall_eq]
    omega
  | case3 a b r ih =>
    have ha := a.toNat_lt
    have hb := b.toNat_lt
    simp only [be16Words, List.mem_cons, forall_eq_or_imp]
    exact ⟨by omega, ih⟩

theorem onesSum_eq_rep (data : List UInt8) : onesSum data = rep 65535 (wordSum data) :=
  eacSum_eq_rep _ (be16Words_le data)

theorem be16Words_append {a : List UInt8} (h : a.length % 2 = 0) (b : List UInt8) :
    be16Words (a ++ b) = be16Words a ++ be16Words b := by
  induction a using be16Words.induct with
  | case1 => rfl
  | case2 x => simp at h
  | case3 x y r ih =>
    have hr : r.length % 2 = 0 := by
      simp only [List.length_cons] at h
      omega
    simp only [List.cons_append, be16Words, ih hr]

theorem wordSum_append {a : List UInt8} (h : a.length % 2 = 0) (b : List UInt8) :
    wordSum (a ++ b) = wordSum a + wordSum b := by
  simp only [wordSum, be16Words_append h, List.sum_append]

theorem leSum_append {a : List UInt8} (h : a.length % 2 = 0) (b : List UInt8) :
    leSum (a ++ b) = leSum a + leSum b := by
  induction a using leSum.induct with
  | case1 => simp [leSum]
  | case2 x => simp at h
  | case3 x y r ih =>
    have hr : r.length % 2 = 0 := by
      simp only [List.length_cons] at h
      omega
    simp only [List.cons_append, leSum, ih hr]
    omega

/-- Byte order does not matter to the sum but for one swap at the end. -/
theorem leSum_swap (data : List UInt8) : Cong 65535 (256 * leSum data) (wordSum data) := by
  induction data using leSum.induct with
  | case1 => exact Cong.refl _ _
  | case2 a => exact Cong.refl _ _
  | case3 a b r ih =>
    have hab : Cong 65535 (256 * (a.toNat + 256 * b.toNat)) (256 * a.toNat + b.toNat) :=
      ⟨by omega, by omega⟩
    have h := hab.add ih
    rw [← Nat.mul_add] at h
    simpa only [leSum, wordSum, be16Words, List.sum_cons] using h

theorem leNat_cong (bs : List UInt8) : Cong 65535 (leNat bs) (leSum bs) := by
  induction bs using leSum.induct with
  | case1 => exact Cong.refl _ _
  | case2 a => exact Cong.refl _ _
  | case3 a b r ih =>
    have hc : Cong 65535 (a.toNat + 256 * b.toNat + 65536 * leNat r)
        (a.toNat + 256 * b.toNat + leNat r) := ⟨by omega, by omega⟩
    have h := hc.trans ((Cong.refl _ _).add ih)
    have he : leNat (a :: b :: r) = a.toNat + 256 * b.toNat + 65536 * leNat r := by
      simp only [leNat]
      ring
    simpa only [he, leSum] using h

theorem leNat_lt (bs : List UInt8) : leNat bs < 256 ^ bs.length := by
  induction bs with
  | nil => simp [leNat]
  | cons b bs ih =>
    have hb := b.toNat_lt
    simp only [leNat, List.length_cons, Nat.pow_succ]
    omega

/-- Moving the first `w` bytes of the data into the accumulator keeps the sum,
for an even `w`. -/
theorem load_cong (ac w : ℕ) (hw : w % 2 = 0) (data : List UInt8) (hle : w ≤ data.length) :
    Cong 65535 (ac + leNat (data.take w) + leSum (data.drop w)) (ac + leSum data) := by
  have hlen : (data.take w).length % 2 = 0 := by
    rw [List.length_take, Nat.min_eq_left hle]
    exact hw
  have hs : leSum data = leSum (data.take w) + leSum (data.drop w) := by
    rw [← leSum_append hlen, List.take_append_drop]
  rw [hs, ← Nat.add_assoc]
  exact ((Cong.refl _ _).add (leNat_cong _)).add (Cong.refl _ _)

theorem addWords_cong (ac : ℕ) (data : List UInt8)
    (hb : ac + 2 ^ 64 * (data.length / 8) < 2 ^ 127) :
    (addWords ac data).1 < 2 ^ 127 ∧
    Cong 65535 ((addWords ac data).1 + leSum (addWords ac data).2) (ac + leSum data) := by
  induction ac, data using addWords.induct with
  | case1 ac b₀ b₁ b₂ b₃ b₄ b₅ b₆ b₇ data ih =>
    have hlt := leNat_lt [b₀, b₁, b₂, b₃, b₄, b₅, b₆, b₇]
    have hload : loadU64 [b₀, b₁, b₂, b₃, b₄, b₅, b₆, b₇] =
        leNat [b₀, b₁, b₂, b₃, b₄, b₅, b₆, b₇] := rfl
    simp only [List.length_cons, List.length_nil] at hb hlt
    rw [hload, Nat.mod_eq_of_lt (by omega)] at ih
    obtain ⟨hle, hc⟩ := ih (by omega)
    rw [addWords, hload, Nat.mod_eq_of_lt (by omega)]
    exact ⟨hle, hc.trans (load_cong ac 8 rfl (b₀ :: b₁ :: b₂ :: b₃ :: b₄ :: b₅ :: b₆ :: b₇ :: data)
      (by simp))⟩
  | case2 ac data hne =>
    rw [addWords]
    · exact ⟨by omega, Cong.refl _ _⟩
    · exact hne

theorem addWords_length (ac : ℕ) (data : List UInt8) : (addWords ac data).2.length < 8 := by
  induction ac, data using addWords.induct with
  | case1 ac b₀ b₁ b₂ b₃ b₄ b₅ b₆ b₇ data ih => rwa [addWords]
  | case2 ac data hne =>
    rw [addWords]
    · match data, hne with
      | [], _ | [_], _ | [_, _], _ | [_, _, _], _ | [_, _, _, _], _ | [_, _, _, _, _], _
      | [_, _, _, _, _, _], _ | [_, _, _, _, _, _, _], _ => simp
      | b₀ :: b₁ :: b₂ :: b₃ :: b₄ :: b₅ :: b₆ :: b₇ :: r, hne =>
        exact absurd rfl (hne b₀ b₁ b₂ b₃ b₄ b₅ b₆ b₇ r)
    · exact hne

theorem addLoad_cong (ac w : ℕ) (hw : w % 2 = 0) (hw8 : w ≤ 8) (data : List UInt8)
    (hle : w ≤ data.length) (hb : ac + 2 ^ 64 < 2 ^ 128) :
    (ac + leNat (data.take w)) % 2 ^ 128 < ac + 2 ^ 64 ∧
    Cong 65535 ((ac + leNat (data.take w)) % 2 ^ 128 + leSum (data.drop w)) (ac + leSum data) := by
  have hlt : leNat (data.take w) < 2 ^ 64 := by
    refine (leNat_lt _).trans_le ?_
    rw [List.length_take, Nat.min_eq_left hle]
    exact Nat.pow_le_pow_right (by norm_num) hw8
  rw [Nat.mod_eq_of_lt (by omega)]
  exact ⟨by omega, load_cong ac w hw data hle⟩

theorem addTail_cong (ac : ℕ) (data : List UInt8) (hac : ac < 2 ^ 127) (hlen : data.length < 8) :
    addTail ac data < 2 ^ 128 ∧ Cong 65535 (addTail ac data) (ac + leSum data) := by
  -- the 4-byte, the 2-byte and the last-byte step, each with the sum it leaves
  obtain ⟨ac₁, d₁, h₁, hb₁, hl₁, hc₁⟩ : ∃ ac₁ d₁,
      (if 4 ≤ data.length then ((ac + loadU32 data) % 2 ^ 128, data.drop 4) else (ac, data)) =
        (ac₁, d₁) ∧ ac₁ < ac + 2 ^ 64 ∧ d₁.length < 4 ∧
      Cong 65535 (ac₁ + leSum d₁) (ac + leSum data) := by
    split
    · obtain ⟨hb, hc⟩ := addLoad_cong ac 4 rfl (by omega) data ‹_› (by omega)
      exact ⟨_, _, rfl, hb, by simp; omega, hc⟩
    · exact ⟨_, _, rfl, by omega, by omega, Cong.refl _ _⟩
  obtain ⟨ac₂, d₂, h₂, hb₂, hl₂, hc₂⟩ : ∃ ac₂ d₂,
      (if 2 ≤ d₁.length then ((ac₁ + loadU16 d₁) % 2 ^ 128, d₁.drop 2) else (ac₁, d₁)) =
        (ac₂, d₂) ∧ ac₂ < ac₁ + 2 ^ 64 ∧ d₂.length < 2 ∧
      Cong 65535 (ac₂ + leSum d₂) (ac₁ + leSum d₁) := by
    split
    · obtain ⟨hb, hc⟩ := addLoad_cong ac₁ 2 rfl (by omega) d₁ ‹_› (by omega)
      exact ⟨_, _, rfl, hb, by simp; omega, hc⟩
    · exact ⟨_, _, rfl, by omega, by omega, Cong.refl _ _⟩
  have hc := hc₂.trans hc₁
  simp only [addTail, h₁, h₂]
  match d₂, hl₂ with
  | [], _ => exact ⟨by simp; omega, by simpa [leSum] using hc⟩
  | [b], _ =>
    have hb := b.toNat_lt
    simp only [List.length_singleton, if_true, leNat, Nat.mul_zero, Nat.add_zero]
    rw [Nat.mod_eq_of_lt (by omega)]
    exact ⟨by omega, by simpa only [leSum] using hc⟩

/-- The carry that `foldWide` puts back is the end-around carry of 64-bit words. -/
theorem foldWide_eq_eacAdd {ac : ℕ} (h : ac < 2 ^ 128) :
    (foldWide ac).toNat = eacAdd (2 ^ 64 - 1) (ac % 2 ^ 64) (ac / 2 ^ 64) := by
  have hlo : (UInt64.ofNat ac).toNat = ac % 2 ^ 64 := by simp
  have hhi : (UInt64.ofNat (ac / 2 ^ 64)).toNat = ac / 2 ^ 64 := by
    rw [UInt64.toNat_ofNat_of_lt']
    simp only [UInt64.size]
    omega
  simp only [foldWide, eacAdd, UInt64.lt_iff_toNat_lt, UInt64.toNat_add, hlo, hhi]
  split <;> split <;> simp only [UInt64.toNat_add, UInt64.toNat_one, hlo, hhi] <;> omega

/-- Nothing is lost between 128 and 64 bits. -/
theorem foldWide_cong (ac : ℕ) (h : ac < 2 ^ 128) : Cong 65535 (foldWide ac).toNat ac := by
  have hfold := eacAdd_cong (2 ^ 64 - 1) (ac % 2 ^ 64) (ac / 2 ^ 64)
  rw [← foldWide_eq_eacAdd h] at hfold
  have hmod : (foldWide ac).toNat % 65535 = (ac % 2 ^ 64 + ac / 2 ^ 64) % 65535 :=
    Nat.ModEq.of_dvd (by decide) hfold.mod
  have hzero := hfold.zero
  exact ⟨by omega, by omega⟩

theorem length_leBytes (k n : ℕ) : (leBytes k n).length = k := by
  induction k generalizing n with
  | zero => rfl
  | succ k ih => simp only [leBytes, List.length_cons, ih]

theorem leNat_leBytes (k n : ℕ) : leNat (leBytes k n) = n % 256 ^ k := by
  induction k generalizing n with
  | zero => simp [leBytes, leNat, Nat.mod_one]
  | succ k ih =>
    have h : n % (256 * 256 ^ k) = n % 256 + 256 * (n / 256 % 256 ^ k) := Nat.mod_mul
    simp only [leBytes, leNat, ih, UInt8.toNat_ofNat', Nat.pow_succ']
    exact h.symm

/-- Reversing the bytes of a word multiplies it by 256 modulo 65535. -/
theorem leNat_reverse_cong (b₀ b₁ b₂ b₃ b₄ b₅ b₆ b₇ : UInt8) :
    Cong 65535 (leNat [b₇, b₆, b₅, b₄, b₃, b₂, b₁, b₀])
      (256 * leNat [b₀, b₁, b₂, b₃, b₄, b₅, b₆, b₇]) := by
  simp only [leNat]
  exact ⟨by omega, by omega⟩

theorem bswap64_cong (x : UInt64) : Cong 65535 (bswap64 x).toNat (256 * x.toNat) := by
  have hx : leNat (leBytes 8 x.toNat) = x.toNat := by
    rw [leNat_leBytes]
    exact Nat.mod_eq_of_lt x.toNat_lt
  have hlt : leNat (leBytes 8 x.toNat).reverse < 2 ^ 64 := by
    have h := leNat_lt (leBytes 8 x.toNat).reverse
    rwa [List.length_reverse, length_leBytes] at h
  have he : (bswap64 x).toNat = leNat (leBytes 8 x.toNat).reverse := by
    rw [bswap64, UInt64.toNat_ofNat_of_lt' hlt]
  rw [he]
  conv_rhs => rw [← hx]
  exact leNat_reverse_cong _ _ _ _ _ _ _ _

theorem checksumNoFold_cong (data : List UInt8) (initial : UInt64) (hlen : data.length < 2 ^ 64) :
    Cong 65535 (checksumNoFold data initial).toNat (initial.toNat + wordSum data) := by
  have hi := (bswap64 initial).toNat_lt
  obtain ⟨hlt, hw⟩ := addWords_cong (bswap64 initial).toNat data (by omega)
  obtain ⟨hlt', ht⟩ := addTail_cong _ _ hlt (addWords_length _ _)
  have hsum := (foldWide_cong _ hlt').trans (ht.trans hw)
  have hswap := (bswap64_cong _).trans (hsum.mul_left 256)
  refine hswap.trans ?_
  have h₁ : Cong 65535 (256 * (bswap64 initial).toNat) initial.toNat := by
    refine ((bswap64_cong initial).mul_left 256).trans ⟨by omega, by omega⟩
  rw [Nat.mul_add]
  exact h₁.add (leSum_swap data)

theorem fold16_toNat (ac : UInt64) :
    (fold16 ac).toNat = ac.toNat / 65536 + ac.toNat % 65536 := by
  have hlt := ac.toNat_lt
  have hs : (ac >>> 16).toNat = ac.toNat / 65536 := by
    simp [Nat.shiftRight_eq_div_pow]
  have ha : (ac &&& 0xffff).toNat = ac.toNat % 65536 := by
    simpa using Nat.and_two_pow_sub_one_eq_mod ac.toNat 16
  rw [fold16, UInt64.toNat_add, hs, ha, Nat.mod_eq_of_lt (by omega)]

theorem fold16_cong (ac : UInt64) : Cong 65535 (fold16 ac).toNat ac.toNat := by
  rw [fold16_toNat]
  exact fold_cong 65535 ac.toNat

/-- Four folds are enough: the code's 16 bits are the canonical word of the
initial value plus the data, the choice between `0` and `0xFFFF` included. -/
theorem checksum_eq_rep (data : List UInt8) (initial : UInt64) (hlen : data.length < 2 ^ 64) :
    (checksum data initial).toNat = rep 65535 (initial.toNat + wordSum data) := by
  have hc := checksumNoFold_cong data initial hlen
  have hlt := (checksumNoFold data initial).toNat_lt
  have hle : (fold16 (fold16 (fold16 (fold16 (checksumNoFold data initial))))).toNat ≤ 65535 := by
    simp only [fold16_toNat]
    omega
  have hf := (((fold16_cong _).trans (fold16_cong _)).trans (fold16_cong _)).trans
    ((fold16_cong (checksumNoFold data initial)).trans hc)
  have he : (checksum data initial).toNat =
      (fold16 (fold16 (fold16 (fold16 (checksumNoFold data initial))))).toNat := by
    simp only [checksum, UInt64.toNat_toUInt16]
    omega
  rw [he]
  exact hf.eq_rep hle

theorem pseudoHeaderChecksumNoFold_cong (protocol : UInt8) (srcAddr dstAddr : List UInt8)
    (totalLen : UInt16) (hs : srcAddr.length < 2 ^ 64) (hd : dstAddr.length < 2 ^ 64) :
    Cong 65535 (pseudoHeaderChecksumNoFold protocol srcAddr dstAddr totalLen).toNat
      (wordSum srcAddr + wordSum dstAddr + wordSum
        [0, protocol, (totalLen >>> 8).toUInt8, totalLen.toUInt8]) := by
  have h₁ := checksumNoFold_cong srcAddr 0 hs
  rw [UInt64.toNat_zero, Nat.zero_add] at h₁
  have h₂ := (checksumNoFold_cong dstAddr (checksumNoFold srcAddr 0) hd).trans
    (h₁.add (Cong.refl _ (wordSum dstAddr)))
  have h₃ := checksumNoFold_cong [0, protocol, (totalLen >>> 8).toUInt8, totalLen.toUInt8]
    (checksumNoFold dstAddr (checksumNoFold srcAddr 0)) (by simp)
  exact h₃.trans (h₂.add (Cong.refl _ _))

end Gofra.Csum
