import Mathlib.Data.Nat.Digits.Lemmas
import Gofra.IniText
import Gofra.NumericStl

namespace Gofra.NumericText

open Lib.Trim Gso Addr IniText

def decimal (n : ℕ) : Str :=
  if n = 0 then [48] else ((Nat.digits 10 n).map fun d ↦ UInt8.ofNat (48 + d)).reverse

def dotted (v : UInt32) : Str :=
  decimal (v >>> 24).toUInt8.toNat ++ (46 :: (decimal (v >>> 16).toUInt8.toNat ++
    (46 :: (decimal (v >>> 8).toUInt8.toNat ++ (46 :: decimal v.toUInt8.toNat : Str)) : Str)) : Str)

/-- What libc and the string library make of the standard numeric forms. -/
structure Standard (stl : Stl) : Prop where
  inetPton : ∀ v, stl.inetPton (dotted v) = some (ntohl v)
  getaddrinfo : ∀ (ip : UInt32) (port : UInt16),
    stl.getaddrinfo (dotted ip) (decimal port.toNat) = some (.inet port (ntohl ip))
  stou : ∀ n < 2 ^ 64, stl.stou (decimal n) = .ok (UInt64.ofNat n)

def IsDigit (c : UInt8) : Prop := 48 ≤ c.toNat ∧ c.toNat ≤ 57

theorem decimal_digits (n : ℕ) : ∀ c ∈ decimal n, IsDigit c := by
  intro c hc
  rw [decimal] at hc
  split at hc
  · rw [List.mem_singleton.mp hc]
    exact ⟨le_rfl, by decide⟩
  · rw [List.mem_reverse, List.mem_map] at hc
    obtain ⟨d, hd, rfl⟩ := hc
    have hlt := Nat.digits_lt_base (by decide) hd
    rw [IsDigit, UInt8.toNat_ofNat_of_lt' (by simp only [UInt8.size]; omega)]
    omega

theorem decimal_ne_nil (n : ℕ) : decimal n ≠ [] := by
  rw [decimal]
  split
  · exact List.cons_ne_nil _ _
  · rename_i hn
    rw [Ne, List.reverse_eq_nil_iff, List.map_eq_nil_iff]
    exact Nat.digits_ne_nil_iff_ne_zero.mpr hn

theorem length_decimal_le {n k : ℕ} (hk : 1 ≤ k) (h : n < 10 ^ k) : (decimal n).length ≤ k := by
  rw [decimal]
  split
  · exact hk
  · rw [List.length_reverse, List.length_map]
    exact (Nat.digits_length_le_iff (by decide) n).mpr h

/-- The characters of addresses and ports. -/
def IsNumeric (c : UInt8) : Prop := IsDigit c ∨ c = 46

theorem dotted_numeric (v : UInt32) : ∀ c ∈ dotted v, IsNumeric c := by
  intro c hc
  simp only [dotted, List.mem_append, List.mem_cons] at hc
  have hd (n : ℕ) (h : c ∈ decimal n) : IsNumeric c := .inl (decimal_digits n c h)
  rcases hc with h | rfl | h | rfl | h | rfl | h
  · exact hd _ h
  · exact .inr rfl
  · exact hd _ h
  · exact .inr rfl
  · exact hd _ h
  · exact .inr rfl
  · exact hd _ h

theorem length_dotted_le (v : UInt32) : (dotted v).length ≤ 15 := by
  have hbyte (b : UInt8) : (decimal b.toNat).length ≤ 3 := by
    have hlt := b.toNat_lt
    exact length_decimal_le (by decide) (by omega)
  have h₀ := hbyte (v >>> 24).toUInt8
  have h₁ := hbyte (v >>> 16).toUInt8
  have h₂ := hbyte (v >>> 8).toUInt8
  have h₃ := hbyte v.toUInt8
  simp only [dotted, List.length_append, List.length_cons]
  omega

theorem dotted_head (v : UInt32) : ∃ c t, dotted v = c :: t ∧ IsDigit c := by
  obtain ⟨c, t, h⟩ := List.exists_cons_of_ne_nil (decimal_ne_nil (v >>> 24).toUInt8.toNat)
  refine ⟨c, _, by rw [dotted, h, List.cons_append], ?_⟩
  exact decimal_digits _ c (h ▸ List.mem_cons_self)

theorem not_mem_of_numeric {s : Str} {c : UInt8} (h : ∀ x ∈ s, IsNumeric x)
    (hc : c.toNat < 46 ∨ c.toNat = 47 ∨ 57 < c.toNat) : c ∉ s := by
  intro hmem
  rcases h c hmem with ⟨h₁, h₂⟩ | rfl
  · omega
  · rcases hc with hc | hc | hc <;> exact absurd hc (by decide)

theorem decimal_numeric (n : ℕ) : ∀ c ∈ decimal n, IsNumeric c := fun c hc ↦ .inl (decimal_digits n c hc)

theorem toCStr_eq {n : ℕ} {s : Str} (hlen : s.length < n) (h : ∀ c ∈ s, IsNumeric c) :
    toCStr n s = .ok s := by
  have hzero : 0 ∉ s := not_mem_of_numeric h (.inl (by decide))
  have htake : s.takeWhile (· ≠ 0) = s := List.takeWhile_eq_self_iff.mpr fun c hc ↦ by
    simpa using fun e : c = 0 ↦ hzero (e ▸ hc)
  rw [toCStr, if_pos hlen, htake]

theorem ntohl_ntohl (v : UInt32) : ntohl (ntohl v) = v := by
  have hb := be32Bytes_be32 v.toUInt8 (v >>> 8).toUInt8 (v >>> 16).toUInt8 (v >>> 24).toUInt8
  obtain ⟨h₀, h⟩ := List.cons.inj hb
  obtain ⟨h₁, h⟩ := List.cons.inj h
  obtain ⟨h₂, h⟩ := List.cons.inj h
  obtain ⟨h₃, -⟩ := List.cons.inj h
  rw [ntohl, ntohl, h₀, h₁, h₂, h₃]
  exact be32_bytes v

theorem value_decimal (n : ℕ) : NumericStl.decimal (decimal n) = some n := by
  have hall : (decimal n).all (fun c ↦ 48 ≤ c ∧ c ≤ 57) = true := by
    rw [List.all_eq_true]
    intro c hc
    obtain ⟨h₁, h₂⟩ := decimal_digits n c hc
    exact decide_eq_true ⟨UInt8.le_iff_toNat_le.mpr h₁, UInt8.le_iff_toNat_le.mpr h₂⟩
  have hfold (ds : List ℕ) (hds : ∀ d ∈ ds, d < 10) :
      ((ds.map fun d ↦ UInt8.ofNat (48 + d)).reverse).foldl (fun n c ↦ 10 * n + (c.toNat - 48)) 0 =
        Nat.ofDigits 10 ds := by
    induction ds with
    | nil => rfl
    | cons d ds ih =>
      obtain ⟨hd, hds⟩ := List.forall_mem_cons.mp hds
      rw [List.map_cons, List.reverse_cons, List.foldl_append, ih hds, List.foldl_cons, List.foldl_nil,
        UInt8.toNat_ofNat_of_lt' (by simp only [UInt8.size]; omega), Nat.ofDigits_cons]
      omega
  rw [NumericStl.decimal, if_pos ⟨decimal_ne_nil n, hall⟩, decimal]
  split
  · rename_i hn
    rw [hn]
    rfl
  · rw [hfold _ fun d hd ↦ Nat.digits_lt_base (by decide) hd, Nat.ofDigits_digits]

theorem octet_decimal (b : UInt8) : NumericStl.octet (decimal b.toNat) = some b := by
  rw [NumericStl.octet, value_decimal]
  change (if b.toNat < 256 then some (UInt8.ofNat b.toNat) else none) = some b
  rw [if_pos b.toNat_lt, UInt8.ofNat_toNat]

theorem dottedQuad_dotted (v : UInt32) : NumericStl.dottedQuad (dotted v) = some (ntohl v) := by
  have hdot (n : ℕ) (t : Str) :
      NumericStl.splitFirst 46 (decimal n ++ 46 :: t) = some (decimal n, t) := by
    refine split_eq NumericStl.numericStl ?_ t
    intro hmem
    exact absurd (decimal_digits n 46 hmem).1 (by decide)
  rw [NumericStl.dottedQuad, dotted, hdot]
  simp only [Option.bind_eq_bind, Option.bind_some, hdot, octet_decimal]
  rfl

theorem numericStl_standard : Standard NumericStl.numericStl where
  inetPton := dottedQuad_dotted
  getaddrinfo ip port := by
    change (NumericStl.decimal (decimal port.toNat)).bind (fun p ↦ (NumericStl.dottedQuad (dotted ip)).bind
      fun a ↦ some (SockAddr.inet (UInt16.ofNat p) a)) = _
    rw [value_decimal, dottedQuad_dotted, Option.bind_some, Option.bind_some, UInt16.ofNat_toNat]
  stou n _ := by
    change Except.ok (UInt64.ofNat ((NumericStl.decimal (decimal n)).getD 0)) = _
    rw [value_decimal, Option.getD_some]

def numericSpaces : Spaces NumericStl.numericStl where
  isSpace := NumericStl.isSpace
  strip _ := rfl
  space := by decide
  visible c h₁ h₂ := by
    refine decide_eq_false ?_
    rintro (rfl | rfl | rfl)
    · exact absurd h₁ (by decide)
    · exact absurd h₁ (by decide)
    · exact absurd h₁ (by decide)

end Gofra.NumericText
