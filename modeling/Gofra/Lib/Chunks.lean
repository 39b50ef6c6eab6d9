import Mathlib.Data.List.Range
import Mathlib.Tactic.Common

namespace Gofra.Lib.Chunks

variable {α : Type}

/-- Pieces of length `g`, of which only the last may be shorter, and none is empty. -/
inductive Pieces (g : ℕ) : List (List α) → Prop
  | nil : Pieces g []
  | last {l : List α} (hpos : 1 ≤ l.length) (hle : l.length ≤ g) : Pieces g [l]
  | cons {l : List α} {ls : List (List α)} (h : l.length = g) (hne : ls ≠ []) (hls : Pieces g ls) :
      Pieces g (l :: ls)

theorem Pieces.pos {g : ℕ} {ls : List (List α)} (h : Pieces g ls) (hne : ls ≠ []) : 1 ≤ g := by
  induction h with
  | nil => exact absurd rfl hne
  | last hpos hle => exact hpos.trans hle
  | cons _ hne' _ ih => exact ih hne'

theorem Pieces.length_pos {g : ℕ} {ls : List (List α)} (h : Pieces g ls) {l : List α} (hl : l ∈ ls) :
    1 ≤ l.length := by
  induction h with
  | nil => cases hl
  | last hpos _ => exact List.mem_singleton.mp hl ▸ hpos
  | cons h hne hls ih =>
    rcases List.mem_cons.mp hl with rfl | hl
    · exact h ▸ hls.pos hne
    · exact ih hl

theorem Pieces.length_le {g : ℕ} {ls : List (List α)} (h : Pieces g ls) {l : List α} (hl : l ∈ ls) :
    l.length ≤ g := by
  induction h with
  | nil => cases hl
  | last _ hle => exact List.mem_singleton.mp hl ▸ hle
  | cons h hne hls ih =>
    rcases List.mem_cons.mp hl with rfl | hl
    · exact h.le
    · exact ih hl

theorem pieces_range' {g : ℕ} {seg : ℕ → List α} {a n : ℕ}
    (hall : ∀ j, a ≤ j → j + 1 < a + n → (seg j).length = g)
    (hlast : ∀ j, a ≤ j → j + 1 = a + n → 1 ≤ (seg j).length ∧ (seg j).length ≤ g) :
    Pieces g ((List.range' a n).map seg) := by
  induction n generalizing a with
  | zero => exact .nil
  | succ n ih =>
    rw [List.range'_succ, List.map_cons]
    cases n with
    | zero =>
      obtain ⟨hpos, hle⟩ := hlast a le_rfl rfl
      exact .last hpos hle
    | succ n =>
      refine .cons (hall a le_rfl (by omega)) (by simp) (ih ?_ ?_)
      · intro j hj hlt
        exact hall j (by omega) (by omega)
      · intro j hj he
        exact hlast j (by omega) (by omega)

/-- The first `fuel` pieces of a list that is cut at the multiples of `g`. -/
def cutFrom (g : ℕ) : (fuel : ℕ) → List α → List (List α)
  | 0, _ => []
  | _ + 1, [] => []
  | fuel + 1, x :: l => (x :: l).take g :: cutFrom g fuel ((x :: l).drop g)

def cut (g : ℕ) (l : List α) : List (List α) := cutFrom g l.length l

theorem cutFrom_cons {g fuel : ℕ} {l : List α} (h : l ≠ []) :
    cutFrom g (fuel + 1) l = l.take g :: cutFrom g fuel (l.drop g) := by
  cases l with
  | nil => exact absurd rfl h
  | cons x l => rfl

theorem cutFrom_flatten {g fuel : ℕ} {ls : List (List α)} (h : Pieces g ls)
    (hfuel : ls.flatten.length ≤ fuel) : cutFrom g fuel ls.flatten = ls := by
  induction h generalizing fuel with
  | nil => cases fuel <;> rfl
  | @last l hpos hle =>
    rw [List.flatten_singleton] at hfuel ⊢
    obtain ⟨fuel, rfl⟩ : ∃ m, fuel = m + 1 := ⟨fuel - 1, by omega⟩
    rw [cutFrom_cons (List.length_pos_iff.mp hpos), List.take_of_length_le hle, List.drop_of_length_le hle]
    cases fuel <;> rfl
  | @cons l ls hl hne hls ih =>
    have hpos := hls.pos hne
    rw [List.flatten_cons] at hfuel ⊢
    rw [List.length_append] at hfuel
    obtain ⟨fuel, rfl⟩ : ∃ m, fuel = m + 1 := ⟨fuel - 1, by omega⟩
    have hnil : l ++ ls.flatten ≠ [] := List.length_pos_iff.mp (by rw [List.length_append]; omega)
    rw [cutFrom_cons hnil, List.take_left' hl, List.drop_left' hl, ih (by omega)]

theorem cut_flatten {g : ℕ} {ls : List (List α)} (h : Pieces g ls) : cut g ls.flatten = ls :=
  cutFrom_flatten h le_rfl

end Gofra.Lib.Chunks
