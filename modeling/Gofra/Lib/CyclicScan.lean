import Mathlib.Data.List.Nodup
import Mathlib.Data.List.Perm.Subperm
import Mathlib.Data.List.Range
import Mathlib.Data.Nat.Find
import Mathlib.Data.Nat.ModEq
import Mathlib.Tactic.Common

namespace Gofra.Lib.CyclicScan

variable {n : ℕ} {p : ℕ → Bool}

/-- The first of `n` places that `p` holds of, cyclically from `base` on, or
`base` itself. -/
def pick (n base : ℕ) (p : ℕ → Bool) : ℕ :=
  (((List.range n).map fun k ↦ (base + k) % n).find? p).getD base

/-- How many places in a row right before `i`, cyclically, `p` does not hold of. -/
def gapBefore (n i : ℕ) (p : ℕ → Bool) : ℕ := (List.range (n - 1)).findIdx fun e ↦ p ((i + (n - 1 - e)) % n)

/-- `i` is `(i + (n - base)) % n` places behind `base`. -/
theorem add_dist_mod {base i : ℕ} (hbase : base < n) (hi : i < n) : (base + (i + (n - base)) % n) % n = i := by
  rw [Nat.add_mod_mod, show base + (i + (n - base)) = i + n by omega, Nat.add_mod_right, Nat.mod_eq_of_lt hi]

/-- A place on the way from `base` to `i`, counted from either end. -/
theorem back_mod {base i e j : ℕ} (hreach : (base + e) % n = i) (hj : j ≤ e) (he : e - j ≤ n) :
    (i + (n - (e - j))) % n = (base + j) % n := by
  rw [← hreach, Nat.mod_add_mod, show base + e + (n - (e - j)) = base + j + n by omega, Nat.add_mod_right]

theorem add_mod_inj {base j k : ℕ} (hj : j < n) (hk : k < n) (h : (base + j) % n = (base + k) % n) : j = k := by
  have hmod : j ≡ k [MOD n] := Nat.ModEq.add_left_cancel' base h
  rwa [Nat.ModEq, Nat.mod_eq_of_lt hj, Nat.mod_eq_of_lt hk] at hmod

theorem perm_range {l : List ℕ} (hnodup : l.Nodup) (hlength : l.length = n) (hlt : ∀ x ∈ l, x < n) :
    l.Perm (List.range n) := by
  have hsub : l ⊆ List.range n := fun x hx ↦ List.mem_range.mpr (hlt x hx)
  exact (hnodup.subperm hsub).perm_of_length_le (by rw [List.length_range, hlength])

/-- Any `n` numbers in a row meet each residue once. -/
theorem perm_range'_mod (m n : ℕ) : ((List.range' m n).map (· % n)).Perm (List.range n) := by
  rcases Nat.eq_zero_or_pos n with rfl | hn
  · rfl
  · refine perm_range (List.Nodup.map_on (fun x hx y hy he ↦ ?_) List.nodup_range') (by simp) fun x hx ↦ ?_
    · rw [List.mem_range'_1] at hx hy
      rcases Nat.le_total x y with hle | hle
      · have hdvd := (Nat.modEq_iff_dvd' hle).mp he
        have hzero := Nat.eq_zero_of_dvd_of_lt hdvd (by omega)
        omega
      · have hdvd := (Nat.modEq_iff_dvd' hle).mp he.symm
        have hzero := Nat.eq_zero_of_dvd_of_lt hdvd (by omega)
        omega
    · obtain ⟨y, -, rfl⟩ := List.mem_map.mp hx
      exact Nat.mod_lt y hn

/-- Counting back from `i` meets each place once. -/
theorem perm_range_back {i : ℕ} (hi : i < n) : ((List.range n).map fun b ↦ (i + (n - b)) % n).Perm (List.range n) := by
  refine perm_range (List.nodup_range.map_on fun x hx y hy he ↦ ?_) (by simp) fun x hx ↦ ?_
  · rw [List.mem_range] at hx hy
    rw [show i + (n - x) = i + 1 + (n - 1 - x) by omega, show i + (n - y) = i + 1 + (n - 1 - y) by omega] at he
    have hxy := add_mod_inj (show n - 1 - x < n by omega) (show n - 1 - y < n by omega) he
    omega
  · obtain ⟨y, -, rfl⟩ := List.mem_map.mp hx
    exact Nat.mod_lt _ (by omega)

theorem pick_of_first {base k : ℕ} (hk : k < n) (hfirst : ∀ j < k, p ((base + j) % n) = false)
    (hp : p ((base + k) % n) = true) : pick n base p = (base + k) % n := by
  have hfind : (List.range n).find? (p ∘ fun k ↦ (base + k) % n) = some k := by
    rw [List.find?_range_eq_some]
    exact ⟨hp, List.mem_range.mpr hk, fun j hj ↦ by simp [hfirst j hj]⟩
  rw [pick, List.find?_map, hfind]
  rfl

theorem pick_of_none {base : ℕ} (h : ∀ k < n, p ((base + k) % n) = false) : pick n base p = base := by
  have hfind : (List.range n).find? (p ∘ fun k ↦ (base + k) % n) = none := by
    rw [List.find?_eq_none]
    intro k hk
    simp [h k (List.mem_range.mp hk)]
  rw [pick, List.find?_map, hfind]
  rfl

theorem pick_eq (base : ℕ) : (∃ k < n, pick n base p = (base + k) % n ∧ p ((base + k) % n) = true ∧
      ∀ j < k, p ((base + j) % n) = false) ∨
    pick n base p = base ∧ ∀ k < n, p ((base + k) % n) = false := by
  by_cases h : ∃ k < n, p ((base + k) % n) = true
  · have hfind := Nat.find_spec h
    have hmin : ∀ j < Nat.find h, p ((base + j) % n) = false := by
      intro j hj
      have hnot := Nat.find_min h hj
      simpa [show j < n by omega] using hnot
    exact .inl ⟨_, hfind.1, pick_of_first hfind.1 hmin hfind.2, hfind.2, hmin⟩
  · have hnone : ∀ k < n, p ((base + k) % n) = false := fun k hk ↦ by
      simpa using fun hp ↦ h ⟨k, hk, hp⟩
    exact .inr ⟨pick_of_none hnone, hnone⟩

theorem gapBefore_lt (i : ℕ) (hn : 0 < n) : gapBefore n i p < n := by
  have hle := @List.findIdx_le_length ℕ (fun e ↦ p ((i + (n - 1 - e)) % n)) (List.range (n - 1))
  rw [List.length_range] at hle
  rw [gapBefore]
  omega

theorem of_lt_gapBefore {i e : ℕ} (h : e < gapBefore n i p) : p ((i + (n - 1 - e)) % n) = false := by
  have hnot := List.not_of_lt_findIdx h
  simpa using hnot

theorem of_gapBefore {i : ℕ} (h : gapBefore n i p < n - 1) :
    p ((i + (n - 1 - gapBefore n i p)) % n) = true := by
  have hw : (List.range (n - 1)).findIdx (fun e ↦ p ((i + (n - 1 - e)) % n)) < (List.range (n - 1)).length := by
    rwa [List.length_range]
  have hp := @List.findIdx_getElem _ _ _ hw
  rwa [List.getElem_range] at hp

/-- A place that `p` holds of is picked from itself and from the gap before it. -/
theorem pick_eq_iff {base i : ℕ} (hbase : base < n) (hi : i < n) (hp : p i = true) :
    pick n base p = i ↔ (i + (n - base)) % n ≤ gapBefore n i p := by
  have hreach := add_dist_mod hbase hi
  have hlt : (i + (n - base)) % n < n := Nat.mod_lt _ (by omega)
  generalize (i + (n - base)) % n = e at hreach hlt ⊢
  constructor
  · intro hpick
    by_contra hgt
    -- the place that ends the gap comes before `i`, and the scan would stop there
    obtain ⟨j, hj⟩ : ∃ j, e = j + (gapBefore n i p + 1) := ⟨e - (gapBefore n i p + 1), by omega⟩
    have hgap := @of_gapBefore n p i (by omega)
    have hback := back_mod hreach (show j ≤ e by omega) (by omega)
    rw [show n - (e - j) = n - 1 - gapBefore n i p by omega] at hback
    rw [hback] at hgap
    rcases @pick_eq n p base with ⟨k, hk, hpk, -, hfirst⟩ | ⟨-, hnone⟩
    · have hke : k = e := add_mod_inj hk hlt (hpk.symm.trans (hpick.trans hreach.symm))
      have hdead := hfirst j (by omega)
      rw [hgap] at hdead
      cases hdead
    · have hdead := hnone e hlt
      rw [hreach, hp] at hdead
      cases hdead
  · intro hle
    rw [← hreach]
    refine pick_of_first hlt (fun j hj ↦ ?_) (by rwa [hreach])
    have hdead := @of_lt_gapBefore n p i (e - j - 1) (by omega)
    rwa [show n - 1 - (e - j - 1) = n - (e - j) by omega, back_mod hreach hj.le (by omega)] at hdead

theorem countP_range_le {g : ℕ} (h : g < n) : (List.range n).countP (fun e ↦ decide (e ≤ g)) = 1 + g := by
  obtain ⟨k, rfl⟩ := Nat.exists_eq_add_of_le (show 1 + g ≤ n by omega)
  have hlow : (List.range (1 + g)).countP (fun e ↦ decide (e ≤ g)) = 1 + g := by
    rw [List.countP_eq_length.mpr, List.length_range]
    intro e he
    have hlt := List.mem_range.mp he
    exact decide_eq_true (by omega)
  have hhigh : ((List.range k).map (1 + g + ·)).countP (fun e ↦ decide (e ≤ g)) = 0 := by
    rw [List.countP_eq_zero]
    intro e he
    obtain ⟨j, -, rfl⟩ := List.mem_map.mp he
    simp
    omega
  rw [List.range_add, List.countP_append, hlow, hhigh, Nat.add_zero]

/-- Over all `n` places to start from, a place that `p` holds of is picked once,
and once more for each place in the gap before it. -/
theorem count_pick {i : ℕ} (hi : i < n) (hp : p i = true) :
    ((List.range n).map fun base ↦ pick n base p).count i = 1 + gapBefore n i p := by
  have hgap := @gapBefore_lt n p i (by omega)
  have hback := (perm_range_back hi).countP_eq fun e ↦ decide (e ≤ gapBefore n i p)
  rw [List.count, List.countP_map, ← countP_range_le hgap, ← hback, List.countP_map]
  refine List.countP_congr fun base hbase ↦ ?_
  simp [pick_eq_iff (List.mem_range.mp hbase) hi hp]

theorem count_pick_of_not {i j : ℕ} (hi : p i = false) (hj : j < n) (hp : p j = true) :
    ((List.range n).map fun base ↦ pick n base p).count i = 0 := by
  rw [List.count_eq_zero, List.mem_map]
  rintro ⟨base, hbase, rfl⟩
  have hlt := List.mem_range.mp hbase
  rcases @pick_eq n p base with ⟨k, -, hpk, hk, -⟩ | ⟨-, hnone⟩
  · rw [hpk, hk] at hi
    cases hi
  · have hdead := hnone ((j + (n - base)) % n) (Nat.mod_lt _ (by omega))
    rw [add_dist_mod hlt hj, hp] at hdead
    cases hdead

theorem count_pick_of_none {i : ℕ} (hi : i < n) (h : ∀ j < n, p j = false) :
    ((List.range n).map fun base ↦ pick n base p).count i = 1 := by
  have hself : (List.range n).map (fun base ↦ pick n base p) = List.range n := by
    conv_rhs => rw [← List.map_id (List.range n)]
    refine List.map_congr_left fun base _ ↦ ?_
    exact pick_of_none fun k hk ↦ h _ (Nat.mod_lt _ (by omega))
  rw [hself]
  exact List.count_eq_one_of_mem List.nodup_range (List.mem_range.mpr hi)

/-- Starting from any `n` numbers in a row is starting from each place once. -/
theorem perm_pick (m n : ℕ) (p : ℕ → Bool) : ((List.range' m n).map fun c ↦ pick n (c % n) p).Perm
    ((List.range n).map fun base ↦ pick n base p) := by
  have hperm := (perm_range'_mod m n).map fun base ↦ pick n base p
  rwa [List.map_map] at hperm

end Gofra.Lib.CyclicScan
