import Mathlib.Algebra.BigOperators.Group.Finset.Basic
import Mathlib.Algebra.Order.Group.Multiset
import Mathlib.Logic.Relation
import Gofra.Lib.Calls

namespace Gofra.Lib.Interleaving

open Calls

variable {ι C : Type} {R : C → Type} {E S W α β ν κ A : Type}

/-- Threads, each with what is left of the present turn of its loop, and what
they share. -/
structure State (ι C : Type) (R : C → Type) (E S W : Type) where
  rest : ι → Prog C R E S
  world : W

/-- Loops that run side by side: the turn of each of them, how the world answers
its calls, and what happens in the world besides. -/
structure System (ι C : Type) (R : C → Type) (E S W : Type) where
  body : ι → S → Prog C R E S
  answer : ι → W → (c : C) → R c → W → Prop
  env : W → W → Prop

section Steps

variable [DecidableEq ι]

/-- One call of one thread, the end of a turn, or a change of the world. -/
inductive Step (sys : System ι C R E S W) : State ι C R E S W → State ι C R E S W → Prop
  | call {st : State ι C R E S W} {i : ι} {c : C} {k : R c → Prog C R E S} {r : R c} {w : W}
      (h : st.rest i = .call c k) (hr : sys.answer i st.world c r w) :
      Step sys st ⟨Function.update st.rest i (k r), w⟩
  | again {st : State ι C R E S W} {i : ι} {s : S} (h : st.rest i = .ret s) :
      Step sys st ⟨Function.update st.rest i (sys.body i s), st.world⟩
  | env {st : State ι C R E S W} {w : W} (h : sys.env st.world w) : Step sys st ⟨st.rest, w⟩

abbrev Steps (sys : System ι C R E S W) : State ι C R E S W → State ι C R E S W → Prop :=
  Relation.ReflTransGen (Step sys)

end Steps

/-- What the calls of a thread mean for what it owes to others. -/
structure Ledger (C : Type) (R : C → Type) (ν : Type) where
  pays : C → Multiset ν
  incurs : (c : C) → R c → Multiset ν → Prop

/-- However its calls are answered, `p` pays what it owes, then and later on,
does not fail, and leaves nothing unpaid. -/
def Owes (l : Ledger C R ν) (Q : α → Prop) : Prog C R E α → Multiset ν → Prop
  | .ret a, owed => owed = 0 ∧ Q a
  | .fail _, _ => False
  | .call c k, owed => ∃ rest, owed = l.pays c + rest ∧ ∀ r new, l.incurs c r new → Owes l Q (k r) (rest + new)

section Owes

variable {l : Ledger C R ν} {Q Q' : α → Prop} {owed : Multiset ν}

theorem owes_pure {a : α} (h : Q a) : Owes l Q (pure a : Prog C R E α) 0 := ⟨rfl, h⟩

theorem owes_bind {p : Prog C R E α} {f : α → Prog C R E β} {Q' : β → Prop} {later : Multiset ν}
    (hp : Owes l Q p owed) (hf : ∀ a, Q a → Owes l Q' (f a) later) : Owes l Q' (p >>= f) (owed + later) := by
  induction p generalizing owed with
  | ret a =>
    obtain ⟨rfl, ha⟩ := hp
    rw [zero_add]
    exact hf a ha
  | fail e => exact hp.elim
  | call c k ih =>
    obtain ⟨rest, rfl, hk⟩ := hp
    refine ⟨rest + later, add_assoc .., fun r new hnew ↦ ?_⟩
    rw [add_right_comm]
    exact ih r (hk r new hnew)

/-- The first part of a program that incurs what the second part pays. -/
theorem owes_seq {p : Prog C R E α} {f : α → Prog C R E β} {Q' : β → Prop} (hp : Owes l Q p owed)
    (hf : ∀ a, Q a → Owes l Q' (f a) 0) : Owes l Q' (p >>= f) owed := by
  rw [← add_zero owed]
  exact owes_bind hp hf

theorem owes_perform {c : C} {f : R c → Prog C R E α}
    (h : ∀ r new, l.incurs c r new → Owes l Q (f r) (owed + new)) :
    Owes l Q (perform c >>= f) (l.pays c + owed) := ⟨owed, rfl, h⟩

theorem owes_mono {p : Prog C R E α} (hQ : ∀ a, Q a → Q' a) (h : Owes l Q p owed) : Owes l Q' p owed := by
  rw [← bind_pure p]
  exact owes_seq h fun a ha ↦ owes_pure (hQ a ha)

/-- A loop over a list whose turns pay what they owe one after another. -/
theorem owes_mapM {f : β → Prog C R E α} {owes : β → Multiset ν} {xs : List β}
    (h : ∀ x ∈ xs, Owes l Q (f x) (owes x)) :
    Owes l (fun as ↦ ∀ a ∈ as, Q a) (xs.mapM f) (xs.map owes).sum := by
  induction xs with
  | nil => exact owes_pure fun a ha ↦ absurd ha List.not_mem_nil
  | cons x xs ih =>
    obtain ⟨hx, hxs⟩ := List.forall_mem_cons.mp h
    rw [List.mapM_cons, List.map_cons, List.sum_cons]
    refine owes_bind hx fun a ha ↦ owes_seq (ih hxs) fun as has ↦ owes_pure ?_
    exact List.forall_mem_cons.mpr ⟨ha, has⟩

end Owes

section Debt

variable [Fintype ι]

/-- What all threads together owe. -/
def Debt (l : ι → Ledger C R ν) (Q : ι → S → Prop) (rest : ι → Prog C R E S) (total : Multiset ν) : Prop :=
  ∃ owed : ι → Multiset ν, (∀ i, Owes (l i) (Q i) (rest i) (owed i)) ∧ ∑ i, owed i = total

variable {l : ι → Ledger C R ν} {Q : ι → S → Prop} {rest : ι → Prog C R E S} {total : Multiset ν}

theorem debt_start (h : ∀ i, Owes (l i) (Q i) (rest i) 0) : Debt l Q rest 0 :=
  ⟨fun _ ↦ 0, h, Finset.sum_const_zero⟩

theorem Debt.not_fail (h : Debt l Q rest total) (i : ι) (e : E) : rest i ≠ .fail e := by
  obtain ⟨owed, howes, -⟩ := h
  intro he
  have hi := howes i
  rw [he] at hi
  exact hi

variable [DecidableEq ι]

/-- What one thread owes, beside the others. -/
theorem Debt.split (h : Debt l Q rest total) (i : ι) : ∃ own others, total = own + others ∧
    Owes (l i) (Q i) (rest i) own ∧
      ∀ p own', Owes (l i) (Q i) p own' → Debt l Q (Function.update rest i p) (own' + others) := by
  obtain ⟨owed, howes, rfl⟩ := h
  refine ⟨owed i, ∑ j ∈ Finset.univ.erase i, owed j, (Finset.add_sum_erase _ _ (Finset.mem_univ i)).symm, howes i,
    fun p own' hp ↦ ⟨Function.update owed i own', fun j ↦ ?_, ?_⟩⟩
  · by_cases hj : j = i
    · subst hj
      rw [Function.update_self, Function.update_self]
      exact hp
    · rw [Function.update_of_ne hj, Function.update_of_ne hj]
      exact howes j
  · rw [← Finset.add_sum_erase _ _ (Finset.mem_univ i), Function.update_self]
    refine congrArg _ (Finset.sum_congr rfl fun j hj ↦ ?_)
    exact Function.update_of_ne (Finset.ne_of_mem_erase hj) _ _

/-- A call pays, and its answer brings something new. -/
theorem Debt.call (h : Debt l Q rest total) {i : ι} {c : C} {k : R c → Prog C R E S} (hi : rest i = .call c k) :
    ∃ others, total = (l i).pays c + others ∧
      ∀ r new, (l i).incurs c r new → Debt l Q (Function.update rest i (k r)) (others + new) := by
  obtain ⟨own, others, rfl, howes, hput⟩ := h.split i
  rw [hi] at howes
  obtain ⟨left, rfl, hk⟩ := howes
  refine ⟨left + others, add_assoc .., fun r new hnew ↦ ?_⟩
  rw [add_right_comm]
  exact hput _ _ (hk r new hnew)

theorem Debt.again (h : Debt l Q rest total) {i : ι} {s : S} (hi : rest i = .ret s) {p : Prog C R E S}
    (hp : Q i s → Owes (l i) (Q i) p 0) : Debt l Q (Function.update rest i p) total := by
  obtain ⟨own, others, rfl, howes, hput⟩ := h.split i
  rw [hi] at howes
  obtain ⟨rfl, hs⟩ := howes
  exact hput _ _ (hp hs)

end Debt

/-- How an automaton moves: on its own, and with the calls that it watches. -/
structure Moves (C : Type) (R : C → Type) (κ : Type) where
  silent : κ → κ → Prop
  visible : (c : C) → R c → κ → κ → Prop

/-- However its calls are answered, the automaton can move along with `p` for as
long as `p` does not fail. -/
def Accompanies (m : Moves C R κ) (Q : α → κ → Prop) : Prog C R E α → κ → Prop
  | .ret a, s => ∃ s', Relation.ReflTransGen m.silent s s' ∧ Q a s'
  | .fail _, _ => True
  | .call c k, s => ∃ s₁, Relation.ReflTransGen m.silent s s₁ ∧
      ∀ r, ∃ s', m.visible c r s₁ s' ∧ Accompanies m Q (k r) s'

section Accompanies

variable {m : Moves C R κ} {Q : α → κ → Prop} {s s' : κ}

theorem accompanies_pure {a : α} (h : Q a s) : Accompanies m Q (pure a : Prog C R E α) s := ⟨s, .refl, h⟩

theorem accompanies_silent {p : Prog C R E α} (hs : Relation.ReflTransGen m.silent s s') (h : Accompanies m Q p s') :
    Accompanies m Q p s := by
  cases p with
  | ret a =>
    obtain ⟨s₁, hs₁, ha⟩ := h
    exact ⟨s₁, hs.trans hs₁, ha⟩
  | fail e => trivial
  | call c k =>
    obtain ⟨s₁, hs₁, hk⟩ := h
    exact ⟨s₁, hs.trans hs₁, hk⟩

theorem accompanies_bind {p : Prog C R E α} {f : α → Prog C R E β} {Q' : β → κ → Prop} (hp : Accompanies m Q p s)
    (hf : ∀ a s, Q a s → Accompanies m Q' (f a) s) : Accompanies m Q' (p >>= f) s := by
  induction p generalizing s with
  | ret a =>
    obtain ⟨s₁, hs₁, ha⟩ := hp
    exact accompanies_silent hs₁ (hf a s₁ ha)
  | fail e => trivial
  | call c k ih =>
    obtain ⟨s₁, hs₁, hk⟩ := hp
    refine ⟨s₁, hs₁, fun r ↦ ?_⟩
    obtain ⟨s', hmove, hrest⟩ := hk r
    exact ⟨s', hmove, ih r hrest⟩

theorem accompanies_perform {c : C} {f : R c → Prog C R E α}
    (h : ∀ r, ∃ s', m.visible c r s s' ∧ Accompanies m Q (f r) s') :
    Accompanies m Q (perform c >>= f) s := ⟨s, .refl, h⟩

theorem accompanies_mapM {f : β → Prog C R E α} {xs : List β} {I : κ → Prop}
    (h : ∀ x ∈ xs, ∀ s, I s → Accompanies m (fun _ ↦ I) (f x) s) (hs : I s) :
    Accompanies m (fun _ ↦ I) (xs.mapM f) s := by
  induction xs generalizing s with
  | nil => exact accompanies_pure hs
  | cons x xs ih =>
    obtain ⟨hx, hxs⟩ := List.forall_mem_cons.mp h
    rw [List.mapM_cons]
    refine accompanies_bind (hx s hs) fun a s₁ hs₁ ↦ ?_
    exact accompanies_bind (ih hxs hs₁) fun as s₂ hs₂ ↦ accompanies_pure hs₂

end Accompanies

/-- Whichever of the possible answers its calls get, `p` does not fail, and the
automaton can move along with it. -/
def Follows (m : Moves C R κ) (possible : (c : C) → R c → Prop) (Q : α → κ → Prop) : Prog C R E α → κ → Prop
  | .ret a, s => ∃ s', Relation.ReflTransGen m.silent s s' ∧ Q a s'
  | .fail _, _ => False
  | .call c k, s => ∃ s₁, Relation.ReflTransGen m.silent s s₁ ∧
      ∀ r, possible c r → ∃ s', m.visible c r s₁ s' ∧ Follows m possible Q (k r) s'

/-- A program that keeps a ledger does not fail. -/
theorem Accompanies.follows {m : Moves C R κ} {possible : (c : C) → R c → Prop} {l : Ledger C R ν}
    {Q : α → κ → Prop} {Q' : α → Prop} (hpossible : ∀ c r, possible c r → ∃ new, l.incurs c r new)
    {p : Prog C R E α} {s : κ} (h : Accompanies m Q p s) {owed : Multiset ν} (howes : Owes l Q' p owed) :
    Follows m possible (fun a s ↦ Q a s ∧ Q' a) p s := by
  induction p generalizing s owed with
  | ret a =>
    obtain ⟨s', hs', ha⟩ := h
    exact ⟨s', hs', ha, howes.2⟩
  | fail e => exact howes.elim
  | call c k ih =>
    obtain ⟨s₁, hs₁, hk⟩ := h
    obtain ⟨rest, -, hrest⟩ := howes
    refine ⟨s₁, hs₁, fun r hr ↦ ?_⟩
    obtain ⟨s', hmove, hnext⟩ := hk r
    obtain ⟨new, hnew⟩ := hpossible c r hr
    exact ⟨s', hmove, ih r hnext (hrest r new hnew)⟩

/-- The answers that the calls of a thread can get in some state of the world. -/
def System.Possible (sys : System ι C R E S W) (i : ι) (c : C) (r : R c) : Prop := ∃ w w', sys.answer i w c r w'

/-- What makes automata simulate the threads of a system: what the automata
share moves along with the world, and a move of one leaves the others alone. -/
structure Simulation (sys : System ι C R E S W) (m : ι → Moves C R κ) (control : ι → A → κ)
    (Q : ι → S → κ → Prop) (Rel : W → A → Prop) : Prop where
  silent : ∀ {i w t s}, Rel w t → (m i).silent (control i t) s →
    ∃ t', Rel w t' ∧ control i t' = s ∧ ∀ j, j ≠ i → control j t' = control j t
  visible : ∀ {i w t c r w' s}, Rel w t → sys.answer i w c r w' → (m i).visible c r (control i t) s →
    ∃ t', Rel w' t' ∧ control i t' = s ∧ ∀ j, j ≠ i → control j t' = control j t
  env : ∀ {w t w'}, Rel w t → sys.env w w' → ∃ t', Rel w' t' ∧ ∀ j, control j t' = control j t
  turn : ∀ {i x s}, Q i x s → Follows (m i) (sys.Possible i) (Q i) (sys.body i x) s

/-- The automata in `t` are where the threads are. -/
structure Tracks (sys : System ι C R E S W) (m : ι → Moves C R κ) (control : ι → A → κ) (Q : ι → S → κ → Prop)
    (Rel : W → A → Prop) (st : State ι C R E S W) (t : A) : Prop where
  rel : Rel st.world t
  follows : ∀ i, Follows (m i) (sys.Possible i) (Q i) (st.rest i) (control i t)

section Simulation

variable {sys : System ι C R E S W} {m : ι → Moves C R κ} {control : ι → A → κ}
variable {Q : ι → S → κ → Prop} {Rel : W → A → Prop}

/-- No thread whose automaton is known has failed. -/
theorem Tracks.not_fail {st : State ι C R E S W} {t : A} (h : Tracks sys m control Q Rel st t) (i : ι) (e : E) :
    st.rest i ≠ .fail e := by
  intro he
  have hi := h.follows i
  rw [he] at hi
  exact hi

namespace Simulation

theorem silents (sim : Simulation sys m control Q Rel) {i : ι} {w : W} {t : A} {s : κ} (hrel : Rel w t)
    (hs : Relation.ReflTransGen (m i).silent (control i t) s) :
    ∃ t', Rel w t' ∧ control i t' = s ∧ ∀ j, j ≠ i → control j t' = control j t := by
  induction hs with
  | refl => exact ⟨t, hrel, rfl, fun _ _ ↦ rfl⟩
  | tail _ hs ih =>
    obtain ⟨t₁, hrel₁, rfl, hframe₁⟩ := ih
    obtain ⟨t₂, hrel₂, hat, hframe₂⟩ := sim.silent hrel₁ hs
    exact ⟨t₂, hrel₂, hat, fun j hj ↦ (hframe₂ j hj).trans (hframe₁ j hj)⟩

variable [DecidableEq ι]

theorem follows_update {rest : ι → Prog C R E S} {t t' : A} {i : ι} {p : Prog C R E S}
    (h : ∀ j, Follows (m j) (sys.Possible j) (Q j) (rest j) (control j t))
    (hframe : ∀ j, j ≠ i → control j t' = control j t)
    (hp : Follows (m i) (sys.Possible i) (Q i) p (control i t')) :
    ∀ j, Follows (m j) (sys.Possible j) (Q j) (Function.update rest i p j) (control j t') := by
  intro j
  by_cases hj : j = i
  · subst hj
    rw [Function.update_self]
    exact hp
  · rw [Function.update_of_ne hj, hframe j hj]
    exact h j

theorem step (sim : Simulation sys m control Q Rel) {st st' : State ι C R E S W} {t : A}
    (h : Tracks sys m control Q Rel st t) (hstep : Step sys st st') : ∃ t', Tracks sys m control Q Rel st' t' := by
  cases hstep with
  | @call i c k r w hi hr =>
    have hfollows := h.follows i
    rw [hi] at hfollows
    obtain ⟨s₁, hs₁, hk⟩ := hfollows
    obtain ⟨t₁, hrel₁, rfl, hframe₁⟩ := sim.silents h.rel hs₁
    obtain ⟨s', hmove, hrest⟩ := hk r ⟨_, _, hr⟩
    obtain ⟨t₂, hrel₂, rfl, hframe₂⟩ := sim.visible hrel₁ hr hmove
    exact ⟨t₂, hrel₂, follows_update h.follows (fun j hj ↦ (hframe₂ j hj).trans (hframe₁ j hj)) hrest⟩
  | @again i x hi =>
    have hfollows := h.follows i
    rw [hi] at hfollows
    obtain ⟨s₁, hs₁, hx⟩ := hfollows
    obtain ⟨t₁, hrel₁, rfl, hframe₁⟩ := sim.silents h.rel hs₁
    exact ⟨t₁, hrel₁, follows_update h.follows hframe₁ (sim.turn hx)⟩
  | env hw =>
    obtain ⟨t', hrel, hframe⟩ := sim.env h.rel hw
    refine ⟨t', hrel, fun i ↦ ?_⟩
    rw [hframe i]
    exact h.follows i

/-- What holds of the threads at the start holds along every run. -/
theorem steps (sim : Simulation sys m control Q Rel) {st st' : State ι C R E S W} {t : A}
    (h : Tracks sys m control Q Rel st t) (hsteps : Steps sys st st') : ∃ t', Tracks sys m control Q Rel st' t' := by
  induction hsteps with
  | refl => exact ⟨t, h⟩
  | tail _ hstep ih =>
    obtain ⟨t₁, h₁⟩ := ih
    exact sim.step h₁ hstep

end Simulation

end Simulation

end Gofra.Lib.Interleaving
