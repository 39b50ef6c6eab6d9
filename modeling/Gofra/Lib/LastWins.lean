import Mathlib.Data.List.AList
import Mathlib.Data.List.Nodup

namespace Gofra.Lib.LastWins

variable {κ ν : Type} [DecidableEq κ]

/-- A finite map after a list of insertions, later ones overwriting earlier ones. -/
def insertAll (m : AList fun _ : κ ↦ ν) (l : List (κ × ν)) : AList fun _ : κ ↦ ν :=
  l.foldl (fun m e ↦ m.insert e.1 e.2) m

theorem insertAll_append (m : AList fun _ : κ ↦ ν) (l l' : List (κ × ν)) :
    insertAll m (l ++ l') = insertAll (insertAll m l) l' := List.foldl_append

theorem insertAll_cons (m : AList fun _ : κ ↦ ν) (e : κ × ν) (l : List (κ × ν)) :
    insertAll m (e :: l) = insertAll (m.insert e.1 e.2) l := rfl

theorem lookup_insertAll_of_notMem {k : κ} {l : List (κ × ν)} (h : k ∉ l.map Prod.fst)
    (m : AList fun _ : κ ↦ ν) : (insertAll m l).lookup k = m.lookup k := by
  induction l generalizing m with
  | nil => rfl
  | cons e l ih =>
    rw [List.map_cons, List.mem_cons, not_or] at h
    rw [insertAll_cons, ih h.2, AList.lookup_insert_ne h.1]

theorem mem_of_lookup_insertAll {k : κ} {v : ν} {l : List (κ × ν)} {m : AList fun _ : κ ↦ ν}
    (h : (insertAll m l).lookup k = some v) : (k, v) ∈ l ∨ m.lookup k = some v := by
  induction l generalizing m with
  | nil => exact .inr h
  | cons e l ih =>
    rw [insertAll_cons] at h
    rcases ih h with hl | hm
    · exact .inl (List.mem_cons_of_mem _ hl)
    · by_cases hk : k = e.1
      · subst hk
        rw [AList.lookup_insert, Option.some_inj] at hm
        subst hm
        exact .inl List.mem_cons_self
      · rw [AList.lookup_insert_ne hk] at hm
        exact .inr hm

theorem lookup_insertAll_isSome {k : κ} {l : List (κ × ν)} (h : k ∈ l.map Prod.fst)
    (m : AList fun _ : κ ↦ ν) : ((insertAll m l).lookup k).isSome := by
  induction l generalizing m with
  | nil => simp at h
  | cons e l ih =>
    rw [insertAll_cons]
    by_cases hl : k ∈ l.map Prod.fst
    · exact ih hl _
    · rw [lookup_insertAll_of_notMem hl]
      rw [List.map_cons, List.mem_cons] at h
      rw [h.resolve_right hl, AList.lookup_insert, Option.isSome_some]

theorem lookup_insertAll_of_nodup {k : κ} {v : ν} {l : List (κ × ν)} (hl : (l.map Prod.fst).Nodup)
    (h : (k, v) ∈ l) (m : AList fun _ : κ ↦ ν) : (insertAll m l).lookup k = some v := by
  induction l generalizing m with
  | nil => simp at h
  | cons e l ih =>
    rw [List.map_cons, List.nodup_cons] at hl
    rw [insertAll_cons]
    rcases List.mem_cons.mp h with rfl | h
    · rw [lookup_insertAll_of_notMem hl.1, AList.lookup_insert]
    · exact ih hl.2 h _

theorem lookup_insertAll_of_unique {k : κ} {v : ν} {l : List (κ × ν)} (h : (k, v) ∈ l)
    (hu : ∀ v', (k, v') ∈ l → v' = v) : (insertAll ∅ l).lookup k = some v := by
  obtain ⟨v', hv'⟩ := Option.isSome_iff_exists.mp
    (lookup_insertAll_isSome (List.mem_map.mpr ⟨_, h, rfl⟩) (∅ : AList fun _ : κ ↦ ν))
  obtain hmem | hnone := mem_of_lookup_insertAll hv'
  · rw [hv', hu v' hmem]
  · rw [AList.lookup_empty] at hnone
    cases hnone

/-- With distinct values, every insertion survives exactly when no key repeats. -/
theorem lookup_insertAll_self_iff {l : List (κ × ν)} (hl : (l.map Prod.snd).Nodup) :
    (∀ e ∈ l, (insertAll ∅ l).lookup e.1 = some e.2) ↔ (l.map Prod.fst).Nodup := by
  constructor
  · intro h
    refine List.Nodup.map_on (fun e he e' he' hk ↦ ?_) hl.of_map
    have hv := h e he
    rw [hk, h e' he', Option.some_inj] at hv
    exact Prod.ext hk hv.symm
  · intro h e he
    exact lookup_insertAll_of_nodup h he _

end Gofra.Lib.LastWins
