import Mathlib.Data.List.Basic
import Mathlib.Data.Nat.ModEq
import Mathlib.Algebra.BigOperators.Group.List.Basic

namespace Gofra.Lib.OnesComplement

/-- Addition with end-around carry on words `0..m`, where `m = 2^w - 1`. -/
def eacAdd (m a b : ℕ) : ℕ := if m < a + b then a + b - m else a + b

def eacSum (m : ℕ) (ws : List ℕ) : ℕ := ws.foldl (eacAdd m) 0

/-- The word that a sum `n` ends in: zero stays zero, and any other multiple
of `m` is written as `m`. -/
def rep (m n : ℕ) : ℕ := if n = 0 then 0 else (n - 1) % m + 1

/-- Two sums that every end-around fold takes to the same word: congruent
modulo `m`, and zero together. -/
structure Cong (m a b : ℕ) : Prop where
  mod : a % m = b % m
  zero : a = 0 ↔ b = 0

variable {m a b c d : ℕ}

theorem Cong.refl (m a : ℕ) : Cong m a a := ⟨rfl, Iff.rfl⟩

theorem Cong.symm (h : Cong m a b) : Cong m b a := ⟨h.mod.symm, h.zero.symm⟩

theorem Cong.trans (h : Cong m a b) (h' : Cong m b c) : Cong m a c :=
  ⟨h.mod.trans h'.mod, h.zero.trans h'.zero⟩

theorem Cong.add (h : Cong m a b) (h' : Cong m c d) : Cong m (a + c) (b + d) := by
  refine ⟨Nat.ModEq.add h.mod h'.mod, ?_⟩
  have hz := h.zero
  have hz' := h'.zero
  omega

theorem Cong.mul_left (h : Cong m a b) (k : ℕ) : Cong m (k * a) (k * b) := by
  refine ⟨Nat.ModEq.mul_left k h.mod, ?_⟩
  simp only [Nat.mul_eq_zero, h.zero]

theorem rep_le (hm : 0 < m) (n : ℕ) : rep m n ≤ m := by
  unfold rep
  have h := Nat.mod_lt (n - 1) hm
  split <;> omega

theorem rep_eq_zero {n : ℕ} : rep m n = 0 ↔ n = 0 := by
  unfold rep
  split <;> omega

theorem rep_of_le {n : ℕ} (h : n ≤ m) : rep m n = n := by
  unfold rep
  split
  · omega
  · rw [Nat.mod_eq_of_lt (by omega)]
    omega

/-- The two zeros: the all-ones word stands for every multiple of `m` but zero. -/
theorem rep_eq_self_iff (hm : 0 < m) {n : ℕ} : rep m n = m ↔ n ≠ 0 ∧ n % m = 0 := by
  obtain ⟨b, rfl⟩ : ∃ b, m = b + 1 := ⟨m - 1, by omega⟩
  unfold rep
  cases n with
  | zero =>
    rw [if_pos rfl]
    omega
  | succ a =>
    rw [if_neg (Nat.succ_ne_zero a), Nat.add_sub_cancel, Nat.add_right_cancel_iff,
      Nat.succ_mod_succ_eq_zero_iff]
    exact (and_iff_right (Nat.succ_ne_zero a)).symm

theorem rep_cong (m n : ℕ) : Cong m (rep m n) n := by
  refine ⟨?_, rep_eq_zero⟩
  unfold rep
  split
  · simp_all
  · have h : n = (n - 1) + 1 := by omega
    conv_rhs => rw [h]
    exact Nat.ModEq.add_right 1 (Nat.mod_modEq (n - 1) m)

theorem Cong.rep_eq (h : Cong m a b) : rep m a = rep m b := by
  unfold rep
  by_cases ha : a = 0
  · rw [if_pos ha, if_pos (h.zero.mp ha)]
  · have hb : b ≠ 0 := fun hb ↦ ha (h.zero.mpr hb)
    rw [if_neg ha, if_neg hb, Nat.add_right_cancel_iff]
    have hab : (a - 1) + 1 ≡ (b - 1) + 1 [MOD m] := by
      rw [show a - 1 + 1 = a by omega, show b - 1 + 1 = b by omega]
      exact h.mod
    exact Nat.ModEq.add_right_cancel' 1 hab

/-- A word `0..m` congruent to a sum is the word the sum ends in. -/
theorem Cong.eq_rep (h : Cong m a b) (ha : a ≤ m) : a = rep m b :=
  (rep_of_le ha).symm.trans h.rep_eq

theorem eacAdd_le (ha : a ≤ m) (hb : b ≤ m) : eacAdd m a b ≤ m := by
  unfold eacAdd
  split <;> omega

theorem eacAdd_cong (m a b : ℕ) : Cong m (eacAdd m a b) (a + b) := by
  unfold eacAdd
  split
  · rename_i h
    refine ⟨?_, by omega⟩
    conv_rhs => rw [show a + b = (a + b - m) + m by omega]
    exact (Nat.add_mod_right _ _).symm
  · exact Cong.refl _ _

theorem foldl_eacAdd_cong (ws : List ℕ) (hws : ∀ w ∈ ws, w ≤ m) (ha : a ≤ m) :
    ws.foldl (eacAdd m) a ≤ m ∧ Cong m (ws.foldl (eacAdd m) a) (a + ws.sum) := by
  induction ws generalizing a with
  | nil => exact ⟨ha, Cong.refl _ _⟩
  | cons w ws ih =>
    have hw : w ≤ m := hws w (by simp)
    obtain ⟨hle, hc⟩ := ih (fun v hv ↦ hws v (List.mem_cons_of_mem _ hv)) (eacAdd_le ha hw)
    refine ⟨hle, ?_⟩
    simp only [List.foldl_cons, List.sum_cons, ← Nat.add_assoc]
    exact hc.trans ((eacAdd_cong m a w).add (Cong.refl _ _))

theorem eacSum_eq_rep (ws : List ℕ) (hws : ∀ w ∈ ws, w ≤ m) : eacSum m ws = rep m ws.sum := by
  obtain ⟨hle, hc⟩ := foldl_eacAdd_cong ws hws (Nat.zero_le m)
  rw [Nat.zero_add] at hc
  exact hc.eq_rep hle

/-- Adding to a sum the complement of its word makes the all-ones word. -/
theorem rep_add_compl (hm : 0 < m) (n : ℕ) : rep m (n + (m - rep m n)) = m := by
  have hle := rep_le hm n
  have hc : Cong m (n + (m - rep m n)) (rep m n + (m - rep m n)) := by
    refine ⟨Nat.ModEq.add_right _ (rep_cong m n).mod.symm, ?_⟩
    have hz : rep m n = 0 ↔ n = 0 := rep_eq_zero
    omega
  rw [hc.rep_eq, Nat.add_sub_cancel' hle]
  exact rep_of_le le_rfl

/-- One fold: the high part of a sum added to its low `m + 1` part. -/
theorem fold_cong (m n : ℕ) : Cong m (n / (m + 1) + n % (m + 1)) n := by
  have h := Nat.div_add_mod n (m + 1)
  refine ⟨?_, ?_⟩
  · conv_rhs => rw [← h, Nat.add_mul, Nat.one_mul, Nat.add_assoc, Nat.mul_add_mod]
  · constructor
    · intro hz
      obtain ⟨hd, hr⟩ := Nat.add_eq_zero_iff.mp hz
      rw [← h, hd, hr]
      rfl
    · rintro rfl
      simp

end Gofra.Lib.OnesComplement
