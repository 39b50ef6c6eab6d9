import Mathlib.Algebra.Group.Nat.Defs
import Mathlib.Data.Set.Lattice
import Mathlib.Order.CompletePartialOrder
import Mathlib.Tactic.Common

namespace Gofra.Lib.SeqSpace

variable {α : Type}

/-- A list laid out from `s` on in the space of sequence numbers. -/
def span (s : UInt32) (l : List α) : Set (UInt32 × α) :=
  {x | ∃ k : ℕ, l[k]? = some x.2 ∧ x.1 = s + UInt32.ofNat k}

theorem span_nil (s : UInt32) : span s ([] : List α) = ∅ := by
  ext x
  simp [span]

theorem span_append (s : UInt32) (a b : List α) :
    span s (a ++ b) = span s a ∪ span (s + UInt32.ofNat a.length) b := by
  ext x
  constructor
  · rintro ⟨k, hk, hx⟩
    rcases Nat.lt_or_ge k a.length with hlt | hge
    · exact .inl ⟨k, by rwa [List.getElem?_append_left hlt] at hk, hx⟩
    · refine .inr ⟨k - a.length, by rwa [List.getElem?_append_right hge] at hk, ?_⟩
      rw [hx, UInt32.add_assoc, ← UInt32.ofNat_add, Nat.add_sub_cancel' hge]
  · rintro (⟨k, hk, hx⟩ | ⟨k, hk, hx⟩)
    · refine ⟨k, ?_, hx⟩
      rwa [List.getElem?_append_left (List.getElem?_eq_some_iff.mp hk).1]
    · refine ⟨a.length + k, ?_, ?_⟩
      · rwa [List.getElem?_append_right (Nat.le_add_right _ _), Nat.add_sub_cancel_left]
      · rw [hx, UInt32.add_assoc, ← UInt32.ofNat_add]

/-- The pieces of a list, each at its own place, say what the list says. -/
theorem iUnion_span {g n : ℕ} (hg : 1 ≤ g) {l : List α} (hn : l.length ≤ n * g) (s : UInt32) :
    ⋃ i < n, span (s + UInt32.ofNat (i * g)) ((l.drop (i * g)).take g) = span s l := by
  ext x
  simp only [Set.mem_iUnion, exists_prop]
  constructor
  · rintro ⟨i, -, k, hk, hx⟩
    obtain ⟨hlt, -⟩ := List.getElem?_eq_some_iff.mp hk
    have hkg : k < g := Nat.lt_of_lt_of_le hlt (List.length_take_le ..)
    rw [List.getElem?_take_of_lt hkg, List.getElem?_drop] at hk
    exact ⟨i * g + k, hk, by rw [hx, UInt32.add_assoc, ← UInt32.ofNat_add]⟩
  · rintro ⟨k, hk, hx⟩
    obtain ⟨hlt, -⟩ := List.getElem?_eq_some_iff.mp hk
    have hdiv : k / g * g + k % g = k := Nat.div_add_mod' k g
    refine ⟨k / g, Nat.div_lt_of_lt_mul (by rw [Nat.mul_comm]; omega), k % g, ?_, ?_⟩
    · rw [List.getElem?_take_of_lt (Nat.mod_lt k hg), List.getElem?_drop, hdiv, hk]
    · rw [hx, UInt32.add_assoc, ← UInt32.ofNat_add, hdiv]

/-- Lists laid out one behind the other, within one turn of the numbers. -/
theorem disjoint_span {s : UInt32} {i j : ℕ} {a b : List α} (h : i + a.length ≤ j)
    (hturn : j + b.length ≤ i + 2 ^ 32) :
    Disjoint (span (s + UInt32.ofNat i) a) (span (s + UInt32.ofNat j) b) := by
  refine Set.disjoint_left.mpr ?_
  rintro x ⟨k, hk, hx⟩ ⟨k', hk', hx'⟩
  obtain ⟨hlt, -⟩ := List.getElem?_eq_some_iff.mp hk
  obtain ⟨hlt', -⟩ := List.getElem?_eq_some_iff.mp hk'
  have he : UInt32.ofNat (i + k) = UInt32.ofNat (j + k') := by
    rw [UInt32.ofNat_add, UInt32.ofNat_add]
    rw [hx, UInt32.add_assoc, UInt32.add_assoc] at hx'
    exact (UInt32.add_right_inj s).mp hx'
  have hmod := congrArg UInt32.toNat he
  rw [UInt32.toNat_ofNat', UInt32.toNat_ofNat'] at hmod
  omega

end Gofra.Lib.SeqSpace
