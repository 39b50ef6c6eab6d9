import Mathlib.Data.List.DropRight

namespace Gofra.Lib.Trim

variable {α : Type} (p : α → Bool)

/-- A list without the elements of `p` at its two ends. -/
def trim (l : List α) : List α := (l.dropWhile p).rdropWhile p

structure Clean (l : List α) : Prop where
  head : ∀ x ∈ l.head?, p x = false
  last : ∀ x ∈ l.getLast?, p x = false

variable {p}

theorem clean_nil : Clean p [] := ⟨nofun, nofun⟩

theorem clean_of_forall {l : List α} (h : ∀ x ∈ l, p x = false) : Clean p l where
  head x hx := h x (List.mem_of_mem_head? hx)
  last x hx := h x (List.mem_of_mem_getLast? hx)

theorem dropWhile_eq_self {l : List α} (h : ∀ x ∈ l.head?, p x = false) : l.dropWhile p = l := by
  cases l with
  | nil => rfl
  | cons x l => exact List.dropWhile_cons_of_neg (by simp [h x rfl])

theorem rdropWhile_eq_self {l : List α} (h : ∀ x ∈ l.getLast?, p x = false) : l.rdropWhile p = l := by
  rw [List.rdropWhile_eq_self_iff]
  intro hl
  simp [h _ (List.getLast?_eq_some_getLast hl)]

theorem rdropWhile_append_right {l b : List α} (h : ∀ x ∈ b, p x = true) :
    (l ++ b).rdropWhile p = l.rdropWhile p := by
  rw [List.rdropWhile, List.reverse_append, List.dropWhile_append_of_pos (by simpa using h), List.rdropWhile]

theorem rdropWhile_append_cons {x : α} (hx : p x = false) (a b : List α) :
    (a ++ x :: b).rdropWhile p = a ++ x :: b.rdropWhile p := by
  induction b using List.reverseRecOn with
  | nil => rw [List.rdropWhile_nil, List.rdropWhile_concat_neg p a x (by simp [hx])]
  | append_singleton b y ih =>
    have hcons : a ++ x :: (b ++ [y]) = a ++ x :: b ++ [y] := by simp
    rw [hcons]
    by_cases hy : p y = true
    · rw [List.rdropWhile_concat_pos p _ y hy, ih, List.rdropWhile_concat_pos p _ y hy]
    · rw [List.rdropWhile_concat_neg p _ y hy, List.rdropWhile_concat_neg p _ y hy, ← hcons]

theorem trim_of_clean {l : List α} (h : Clean p l) : trim p l = l := by
  rw [trim, dropWhile_eq_self h.head, rdropWhile_eq_self h.last]

theorem trim_append_left {a : List α} (h : ∀ x ∈ a, p x = true) (l : List α) :
    trim p (a ++ l) = trim p l := by
  rw [trim, List.dropWhile_append_of_pos h, trim]

theorem trim_append_right {b : List α} (h : ∀ x ∈ b, p x = true) (l : List α) :
    trim p (l ++ b) = trim p l := by
  rw [trim, List.dropWhile_append, trim]
  split
  · rename_i hnil
    rw [List.isEmpty_iff.mp hnil, List.dropWhile_eq_nil_iff.mpr h]
  · exact rdropWhile_append_right h

theorem trim_pad {a b l : List α} (ha : ∀ x ∈ a, p x = true) (hb : ∀ x ∈ b, p x = true)
    (hl : Clean p l) : trim p (a ++ l ++ b) = l := by
  rw [trim_append_right hb, trim_append_left ha, trim_of_clean hl]

theorem trim_of_forall {a : List α} (h : ∀ x ∈ a, p x = true) : trim p a = [] := by
  have hpad := trim_append_left h []
  rwa [List.append_nil, trim_of_clean clean_nil] at hpad

theorem trim_rdropWhile (l : List α) : trim p (l.rdropWhile p) = trim p l := by
  conv_rhs => rw [← List.rdropWhile_append_rtakeWhile (p := p) (l := l)]
  exact (trim_append_right (fun x hx ↦ List.mem_rtakeWhile_imp hx) _).symm

theorem trim_dropWhile (l : List α) : trim p (l.dropWhile p) = trim p l := by
  rw [trim, List.dropWhile_idempotent, trim]

/-- Trimming on both sides of an element that stays. -/
theorem trim_append_cons {x : α} (hx : p x = false) (a b : List α) :
    trim p (a ++ x :: b) = a.dropWhile p ++ x :: b.rdropWhile p := by
  have hdrop : (a ++ x :: b).dropWhile p = a.dropWhile p ++ x :: b := by
    rw [List.dropWhile_append]
    split
    · rename_i hnil
      rw [List.isEmpty_iff.mp hnil, List.nil_append, List.dropWhile_cons_of_neg (by simp [hx])]
    · rfl
  rw [trim, hdrop, rdropWhile_append_cons hx]

/-- Trimming a list whose first element that counts is known leaves that part alone. -/
theorem trim_cons_append {a b c : List α} {x y : α} (ha : ∀ z ∈ a, p z = true) (hx : p x = false)
    (hy : p y = false) : trim p (a ++ x :: b ++ y :: c) = x :: b ++ y :: c.rdropWhile p := by
  rw [trim_append_cons hy, List.dropWhile_append_of_pos ha, dropWhile_eq_self]
  intro z hz
  obtain rfl : x = z := Option.some.inj hz
  exact hx

end Gofra.Lib.Trim
