import Mathlib.Data.Multiset.Bind
import Mathlib.Data.Set.Function
import Mathlib.Order.Interval.Set.Defs

namespace Gofra.Lib.Blocks

variable {α β : Type}

theorem getElem?_flatMap_block {f : α → List β} {n i : ℕ} (hf : ∀ x, (f x).length = n) (hi : i < n)
    (l : List α) (j : ℕ) : (l.flatMap f)[j * n + i]? = l[j]?.bind fun x ↦ (f x)[i]? := by
  induction l generalizing j with
  | nil => rfl
  | cons x l ih =>
    rw [List.flatMap_cons]
    cases j with
    | zero =>
      rw [Nat.zero_mul, Nat.zero_add, List.getElem?_append_left (by rw [hf]; exact hi)]
      rfl
    | succ j =>
      rw [Nat.succ_mul, List.getElem?_append_right (by rw [hf]; omega), hf, List.getElem?_cons_succ,
        ← ih]
      congr 1
      omega

theorem length_flatMap_block {f : α → List β} {n : ℕ} (hf : ∀ x, (f x).length = n) (l : List α) :
    (l.flatMap f).length = l.length * n := by
  simp [List.length_flatMap, hf]

/-- Rows of consecutive numbers make up one interval. -/
theorem flatMap_range_block (off n m : ℕ) :
    ((List.range n).flatMap fun i ↦ (List.range m).map fun j ↦ off + (i * m + j)) =
      List.range' off (n * m) := by
  induction n with
  | zero => simp
  | succ n ih =>
    rw [List.range_succ, List.flatMap_append, ih, List.flatMap_singleton, Nat.succ_mul,
      ← List.range'_append_1]
    congr 1
    rw [List.range'_eq_map_range]
    simp only [Nat.add_assoc]

/-- Reading a table by columns or by rows gives the same entries. -/
theorem flatMap_map_swap (l : List α) (l' : List β) {γ : Type} (f : α → β → γ) :
    (l.flatMap fun a ↦ l'.map fun b ↦ f a b).Perm (l'.flatMap fun b ↦ l.map fun a ↦ f a b) := by
  rw [← Multiset.coe_eq_coe]
  have h := Multiset.bind_map_comm (l : Multiset α) (l' : Multiset β) (f := f)
  simpa only [Multiset.map_coe, Multiset.coe_bind] using h

/-- A pair is in the table of all pairs as often as its parts are in the lists. -/
theorem count_pairs [DecidableEq α] [DecidableEq β] (l : List α) (l' : List β) (a : α) (b : β) :
    (l'.flatMap fun y ↦ l.map fun x ↦ (x, y)).count (a, b) = l.count a * l'.count b := by
  induction l' with
  | nil => rfl
  | cons y l' ih =>
    rw [List.flatMap_cons, List.count_append, ih]
    by_cases hy : y = b
    · subst hy
      have hinj : Function.Injective fun x : α ↦ (x, y) := fun _ _ he ↦ congrArg Prod.fst he
      rw [List.count_map_of_injective l _ hinj, List.count_cons_self, Nat.mul_add_one, Nat.add_comm]
    · have hnone : (l.map fun x ↦ (x, y)).count (a, b) = 0 := by
        rw [List.count_eq_zero, List.mem_map]
        rintro ⟨x, -, he⟩
        exact hy (congrArg Prod.snd he)
      rw [hnone, Nat.zero_add, List.count_cons_of_ne hy]

theorem map_getElem?_range (l : List α) : (List.range l.length).map (fun i ↦ l[i]?) = l.map some := by
  apply List.ext_getElem?
  intro i
  rw [List.getElem?_map, List.getElem?_map]
  by_cases hi : i < l.length
  · rw [List.getElem?_range hi, Option.map_some, List.getElem?_eq_getElem hi, Option.map_some]
  · rw [List.getElem?_eq_none (by rw [List.length_range]; omega), List.getElem?_eq_none (by omega)]
    rfl

/-- The place of an entry after its `n`-wide table is read by columns. -/
def mirror (n m p : ℕ) : ℕ := p % n * m + p / n

theorem block_div {i j n : ℕ} (hi : i < n) : (j * n + i) / n = j := by
  rw [Nat.mul_comm, Nat.mul_add_div (by omega), Nat.div_eq_of_lt hi, Nat.add_zero]

theorem block_mod {i j n : ℕ} (hi : i < n) : (j * n + i) % n = i := by
  rw [Nat.mul_comm, Nat.mul_add_mod, Nat.mod_eq_of_lt hi]

theorem block_lt {i j n m : ℕ} (hi : i < n) (hj : j < m) : j * n + i < m * n := by
  have h := Nat.mul_le_mul_right n (show j + 1 ≤ m from hj)
  rw [Nat.add_one_mul] at h
  omega

theorem exists_block {n m q : ℕ} (h : q < m * n) : ∃ i < n, ∃ j < m, q = j * n + i := by
  have hpos : 0 < n := Nat.pos_of_mul_pos_left (Nat.zero_lt_of_lt h)
  refine ⟨q % n, Nat.mod_lt q hpos, q / n, Nat.div_lt_of_lt_mul ?_, (Nat.div_add_mod' q n).symm⟩
  rwa [Nat.mul_comm]

theorem mirror_block {i j n m : ℕ} (hi : i < n) : mirror n m (j * n + i) = i * m + j := by
  rw [mirror, block_mod hi, block_div hi]

theorem mirror_bijOn (n m : ℕ) : Set.BijOn (mirror n m) (Set.Iio (n * m)) (Set.Iio (m * n)) := by
  have hmaps (n m : ℕ) : Set.MapsTo (mirror n m) (Set.Iio (n * m)) (Set.Iio (m * n)) := by
    intro p hp
    have hpos : 0 < n := Nat.pos_of_mul_pos_right (Nat.zero_lt_of_lt hp)
    rw [Nat.mul_comm m n]
    exact block_lt (Nat.div_lt_of_lt_mul hp) (Nat.mod_lt p hpos)
  have hinv (n m : ℕ) : Set.LeftInvOn (mirror m n) (mirror n m) (Set.Iio (n * m)) := by
    intro p hp
    change mirror m n (p % n * m + p / n) = p
    rw [mirror_block (Nat.div_lt_of_lt_mul hp), Nat.mul_comm, Nat.div_add_mod]
  exact Set.InvOn.bijOn ⟨hinv n m, hinv m n⟩ (hmaps n m) (hmaps m n)

/-- A value that a list has once is at one place only. -/
theorem eq_of_count_eq_one [DecidableEq α] {l : List α} {a : α} (h : l.count a = 1) {i j : ℕ}
    (hi : l[i]? = some a) (hj : l[j]? = some a) : i = j := by
  induction l generalizing i j with
  | nil => cases hi
  | cons b l ih =>
    by_cases hb : b = a
    · subst hb
      rw [List.count_cons_self, Nat.add_eq_right, List.count_eq_zero] at h
      cases i with
      | zero =>
        cases j with
        | zero => rfl
        | succ j =>
          rw [List.getElem?_cons_succ] at hj
          exact absurd (List.mem_of_getElem? hj) h
      | succ i =>
        rw [List.getElem?_cons_succ] at hi
        exact absurd (List.mem_of_getElem? hi) h
    · rw [List.count_cons_of_ne hb] at h
      cases i with
      | zero => exact absurd (Option.some.inj hi) hb
      | succ i =>
        cases j with
        | zero => exact absurd (Option.some.inj hj) hb
        | succ j => rw [ih h hi hj]

theorem filterMap_eq_range {f : α → Option β} {h : ℕ → β} {l : List α}
    (hl : ∀ i x, l[i]? = some x → f x = some (h i)) : l.filterMap f = (List.range l.length).map h := by
  induction l generalizing h with
  | nil => rfl
  | cons x l ih =>
    rw [List.filterMap_cons_some (hl 0 x rfl), List.length_cons, List.range_succ_eq_map, List.map_cons,
      List.map_map, ih fun i y hy ↦ hl (i + 1) y hy]
    rfl

theorem flatMap_eq_range {f : α → List β} {h : ℕ → List β} {l : List α}
    (hl : ∀ i x, l[i]? = some x → f x = h i) : l.flatMap f = (List.range l.length).flatMap h := by
  induction l generalizing h with
  | nil => rfl
  | cons x l ih =>
    rw [List.flatMap_cons, hl 0 x rfl, List.length_cons, List.range_succ_eq_map, List.flatMap_cons,
      List.flatMap_map, ih fun i y hy ↦ hl (i + 1) y hy]

end Gofra.Lib.Blocks
