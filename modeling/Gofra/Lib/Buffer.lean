import Mathlib.Data.List.Basic

namespace Gofra.Lib.Buffer

variable {α : Type}

/-- The `len` elements of `b` from `off` on; `none` where the range leaves
the buffer. -/
def slice (b : List α) (off len : ℕ) : Option (List α) :=
  if off + len ≤ b.length then some ((b.drop off).take len) else none

/-- `b` with `bs` written over it from `off` on, as far as `b` reaches. -/
def patch (b : List α) (off : ℕ) (bs : List α) : List α :=
  b.mapIdx fun j x ↦ if off ≤ j then bs.getD (j - off) x else x

/-- A bounds-checked `patch`: `none` where a written index leaves the buffer. -/
def store (b : List α) (off : ℕ) (bs : List α) : Option (List α) :=
  if off + bs.length ≤ b.length then some (patch b off bs) else none

theorem slice_eq {b : List α} {off len : ℕ} (h : off + len ≤ b.length) :
    slice b off len = some ((b.drop off).take len) := if_pos h

theorem slice_eq_some {b r : List α} {off len : ℕ} :
    slice b off len = some r ↔ off + len ≤ b.length ∧ (b.drop off).take len = r := by
  unfold slice
  split
  · simp_all
  · exact ⟨nofun, fun h ↦ absurd h.1 ‹_›⟩

theorem slice_append_left {a r : List α} {off len : ℕ} (h : off + len ≤ a.length) :
    slice (a ++ r) off len = slice a off len := by
  rw [slice_eq h, slice_eq (by simp; omega), List.drop_append_of_le_length (by omega),
    List.take_append_of_le_length (by simp; omega)]

theorem slice_append_right (a r : List α) (off len : ℕ) :
    slice (a ++ r) (a.length + off) len = slice r off len := by
  simp only [slice, List.length_append, Nat.add_assoc, Nat.add_le_add_iff_left,
    List.drop_append, List.drop_eq_nil_of_le (Nat.le_add_right a.length off), List.nil_append,
    Nat.add_sub_cancel_left]

theorem store_eq {b bs : List α} {off : ℕ} (h : off + bs.length ≤ b.length) :
    store b off bs = some (patch b off bs) := if_pos h

theorem store_eq_some {b bs r : List α} {off : ℕ} :
    store b off bs = some r ↔ off + bs.length ≤ b.length ∧ patch b off bs = r := by
  unfold store
  split
  · simp_all
  · exact ⟨nofun, fun h ↦ absurd h.1 ‹_›⟩

@[simp] theorem length_patch (b : List α) (off : ℕ) (bs : List α) :
    (patch b off bs).length = b.length := by
  simp [patch]

theorem length_of_store {b bs r : List α} {off : ℕ} (h : store b off bs = some r) :
    r.length = b.length := by
  obtain ⟨-, rfl⟩ := store_eq_some.mp h
  exact length_patch b off bs

theorem getElem?_patch {b bs : List α} {off : ℕ} (h : off + bs.length ≤ b.length) (j : ℕ) :
    (patch b off bs)[j]? =
      if off ≤ j ∧ j < off + bs.length then bs[j - off]? else b[j]? := by
  rw [patch, List.getElem?_mapIdx]
  by_cases hj : j < b.length
  · rw [List.getElem?_eq_getElem hj]
    by_cases hlo : off ≤ j
    · by_cases hhi : j < off + bs.length
      · have hk : j - off < bs.length := by omega
        simp [hlo, hhi, hk]
      · have hk : bs.length ≤ j - off := by omega
        simp [hlo, hhi, List.getElem?_eq_none hk]
    · simp [hlo]
  · rw [List.getElem?_eq_none (by omega), if_neg (by omega)]
    rfl

theorem getElem?_patch_add {b bs : List α} {off k : ℕ} (h : off + bs.length ≤ b.length)
    (hk : k < bs.length) : (patch b off bs)[off + k]? = bs[k]? := by
  rw [getElem?_patch h, if_pos (by omega), Nat.add_sub_cancel_left]

theorem getElem?_patch_of_ne {b bs : List α} {off j : ℕ} (hj : j < off ∨ off + bs.length ≤ j) :
    (patch b off bs)[j]? = b[j]? := by
  rw [patch, List.getElem?_mapIdx]
  rcases hj with hj | hj
  · cases b[j]? <;> simp [show ¬ off ≤ j by omega]
  · cases b[j]? <;> simp [List.getElem?_eq_none (show bs.length ≤ j - off by omega)]

theorem patch_zero {b bs : List α} (h : bs.length ≤ b.length) :
    patch b 0 bs = bs ++ b.drop bs.length := by
  apply List.ext_getElem?
  intro j
  rw [getElem?_patch (by omega)]
  by_cases hj : j < bs.length
  · rw [if_pos (by omega), List.getElem?_append_left hj]
    rfl
  · rw [if_neg (by omega), List.getElem?_append_right (by omega), List.getElem?_drop]
    congr 1
    omega

theorem patch_append_left {a r bs : List α} {off : ℕ} (h : off + bs.length ≤ a.length) :
    patch (a ++ r) off bs = patch a off bs ++ r := by
  apply List.ext_getElem?
  intro j
  rw [getElem?_patch (by simp; omega)]
  by_cases hj : j < a.length
  · rw [List.getElem?_append_left hj, List.getElem?_append_left (by simpa using hj),
      getElem?_patch h]
  · rw [if_neg (by omega), List.getElem?_append_right (by omega),
      List.getElem?_append_right (by simp only [length_patch]; omega), length_patch]

theorem patch_append_right {a r bs : List α} {off : ℕ} (h : off + bs.length ≤ r.length) :
    patch (a ++ r) (a.length + off) bs = a ++ patch r off bs := by
  apply List.ext_getElem?
  intro j
  rw [getElem?_patch (by simp; omega)]
  by_cases hj : j < a.length
  · rw [if_neg (by omega), List.getElem?_append_left hj, List.getElem?_append_left hj]
  · have hp : (a ++ patch r off bs)[j]? = (patch r off bs)[j - a.length]? :=
      List.getElem?_append_right (by omega)
    rw [hp, getElem?_patch h, List.getElem?_append_right (by omega)]
    have hk : j - (a.length + off) = j - a.length - off := by omega
    have hif : (a.length + off ≤ j ∧ j < a.length + off + bs.length) ↔
        (off ≤ j - a.length ∧ j - a.length < off + bs.length) := by omega
    simp only [hk, hif]

theorem store_append_left {a r bs : List α} {off : ℕ} (h : off + bs.length ≤ a.length) :
    store (a ++ r) off bs = some (patch a off bs ++ r) := by
  rw [store_eq (by simp; omega), patch_append_left h]

theorem store_append_right (a r : List α) {bs : List α} (off : ℕ) (h : off + bs.length ≤ r.length) :
    store (a ++ r) (a.length + off) bs = some (a ++ patch r off bs) := by
  rw [store_eq (by simp; omega), patch_append_right h]

theorem store_mid {a b r bs : List α} {off : ℕ} (h : off + bs.length ≤ b.length) :
    store (a ++ (b ++ r)) (a.length + off) bs = some (a ++ (patch b off bs ++ r)) := by
  rw [store_append_right _ _ _ (by simp; omega), patch_append_left h]

theorem slice_mid (a b r : List α) :
    slice (a ++ (b ++ r)) a.length b.length = some b := by
  have h := slice_append_right a (b ++ r) 0 b.length
  rw [Nat.add_zero] at h
  rw [h, slice_eq (by simp), List.drop_zero, List.take_left']
  rfl

theorem drop_patch {b bs : List α} {n off : ℕ} (h : n + off + bs.length ≤ b.length) :
    (patch b (n + off) bs).drop n = patch (b.drop n) off bs := by
  have hn : (b.take n).length = n := by simp; omega
  have hp := @patch_append_right α (b.take n) (b.drop n) bs off (by simp; omega)
  rw [hn, List.take_append_drop] at hp
  rw [hp, List.drop_left' hn]

theorem take_patch {b bs : List α} {n off : ℕ} (h : off + bs.length ≤ n) (hn : n ≤ b.length) :
    (patch b off bs).take n = patch (b.take n) off bs := by
  have hlen : (b.take n).length = n := by simp; omega
  have hp := @patch_append_left α (b.take n) (b.drop n) bs off (by omega)
  rw [List.take_append_drop] at hp
  rw [hp, List.take_left' (by simpa using hlen)]

theorem take_patch_of_le {n off : ℕ} (h : n ≤ off) (b bs : List α) :
    (patch b off bs).take n = b.take n := by
  apply List.ext_getElem?
  intro j
  rw [List.getElem?_take, List.getElem?_take]
  split
  · exact getElem?_patch_of_ne (by omega)
  · rfl

theorem slice_patch {b bs : List α} {off : ℕ} (h : off + bs.length ≤ b.length) :
    slice (patch b off bs) off bs.length = some bs := by
  have hdrop : (patch b off bs).drop off = patch (b.drop off) 0 bs := @drop_patch α b bs off 0 h
  rw [slice_eq (by rwa [length_patch]), hdrop, patch_zero (by rw [List.length_drop]; omega),
    List.take_left' rfl]

theorem patch_patch {b bs bs' : List α} {off : ℕ} (hle : off + bs.length ≤ b.length)
    (hlen : bs'.length = bs.length) : patch (patch b off bs') off bs = patch b off bs := by
  apply List.ext_getElem? fun j ↦ ?_
  rw [getElem?_patch (by rwa [length_patch]), getElem?_patch hle]
  split
  · rfl
  · exact getElem?_patch_of_ne (by omega)

/-- Two writes in a row are one write. -/
theorem patch_append {b bs bs' : List α} {off : ℕ} (hle : off + bs.length + bs'.length ≤ b.length) :
    patch (patch b off bs) (off + bs.length) bs' = patch b off (bs ++ bs') := by
  apply List.ext_getElem? fun j ↦ ?_
  have hboth := @getElem?_patch α b (bs ++ bs') off (by rw [List.length_append]; omega) j
  rw [List.length_append] at hboth
  rw [getElem?_patch (by rwa [length_patch]), hboth]
  by_cases hj : off + bs.length ≤ j ∧ j < off + bs.length + bs'.length
  · rw [if_pos hj, if_pos (by omega), List.getElem?_append_right (by omega)]
    congr 1
    omega
  · rw [if_neg hj, getElem?_patch (by omega)]
    by_cases hj' : off ≤ j ∧ j < off + bs.length
    · rw [if_pos hj', if_pos (by omega), List.getElem?_append_left (by omega)]
    · rw [if_neg hj', if_neg (by omega)]

theorem patch_eq_self {b bs : List α} {off : ℕ} (hle : off + bs.length ≤ b.length)
    (h : ∀ k < bs.length, bs[k]? = b[off + k]?) : patch b off bs = b := by
  apply List.ext_getElem? fun j ↦ ?_
  rw [getElem?_patch hle]
  split
  · rename_i hj
    rw [h _ (by omega), show off + (j - off) = j by omega]
  · rfl

/-- Consecutive pieces of `g` elements put a list back together. -/
theorem flatMap_pieces (l : List α) (g n : ℕ) :
    (List.range n).flatMap (fun i ↦ (l.drop (i * g)).take g) = l.take (n * g) := by
  induction n with
  | zero => simp
  | succ n ih => rw [List.range_succ, List.flatMap_append, ih, List.flatMap_singleton, Nat.succ_mul,
      List.take_add]

theorem zipIdx_piece (l : List α) (m g : ℕ) :
    ((l.drop m).take g).zipIdx m = (l.zipIdx.drop m).take g := by
  apply List.ext_getElem? fun j ↦ ?_
  rw [List.getElem?_zipIdx, List.getElem?_take, List.getElem?_take]
  by_cases hj : j < g
  · rw [if_pos hj, if_pos hj, List.getElem?_drop, List.getElem?_drop, List.getElem?_zipIdx,
      Nat.zero_add]
  · rw [if_neg hj, if_neg hj, Option.map_none]

end Gofra.Lib.Buffer
