import Mathlib.Data.List.Forall2

namespace Gofra.Lib.Calls

/-- A program that makes calls to its surroundings, which answer a call `c` with
an `R c`, and that ends with a value or an error. -/
inductive Prog (C : Type) (R : C → Type) (E α : Type) where
  | ret (a : α)
  | fail (e : E)
  | call (c : C) (k : R c → Prog C R E α)

/-- A call and the answer to it. -/
abbrev Event {C : Type} (R : C → Type) : Type := (c : C) × R c

variable {C : Type} {R : C → Type} {E E' α β σ τ : Type}

namespace Prog

def bind : Prog C R E α → (α → Prog C R E β) → Prog C R E β
  | ret a, f => f a
  | fail e, _ => fail e
  | call c k, f => call c fun r ↦ (k r).bind f

/-- `p`, and then `cleanup`, whether `p` has failed or not. -/
def ensuring : Prog C R E α → Prog C R E Unit → Prog C R E α
  | ret a, cleanup => cleanup.bind fun _ ↦ ret a
  | fail e, cleanup => cleanup.bind fun _ ↦ fail e
  | call c k, cleanup => call c fun r ↦ (k r).ensuring cleanup

/-- `p`, and then, whether `p` has failed or not, the `cleanup` of what `note`
has found in its calls. -/
def inScope (note : τ → Event R → τ) (cleanup : τ → Prog C R E Unit) : Prog C R E α → τ → Prog C R E α
  | ret a, n => (cleanup n).bind fun _ ↦ ret a
  | fail e, n => (cleanup n).bind fun _ ↦ fail e
  | call c k, n => call c fun r ↦ (k r).inScope note cleanup (note n ⟨c, r⟩)

def handle (handler : E → Prog C R E' α) : Prog C R E α → Prog C R E' α
  | ret a => ret a
  | fail e => handler e
  | call c k => call c fun r ↦ (k r).handle handler

end Prog

def perform (c : C) : Prog C R E (R c) := .call c .ret

instance : Monad (Prog C R E) where
  pure := .ret
  bind := .bind

theorem Prog.bind_ret (p : Prog C R E α) : p.bind .ret = p := by
  induction p with
  | ret a => rfl
  | fail e => rfl
  | call c k ih => exact congrArg _ (funext ih)

theorem Prog.bind_bind {γ : Type} (p : Prog C R E α) (f : α → Prog C R E β) (g : β → Prog C R E γ) :
    (p.bind f).bind g = p.bind fun a ↦ (f a).bind g := by
  induction p with
  | ret a => rfl
  | fail e => rfl
  | call c k ih => exact congrArg _ (funext ih)

instance : LawfulMonad (Prog C R E) := LawfulMonad.mk' _ Prog.bind_ret (fun _ _ ↦ rfl) Prog.bind_bind

/-- Where a run has come to. -/
inductive Outcome (E α : Type) where
  | running
  | failed (e : E)
  | done (a : α)

/-- The calls of a run, up to its end or to any moment before. -/
inductive Runs : Prog C R E α → List (Event R) → Outcome E α → Prop
  | pause (p : Prog C R E α) : Runs p [] .running
  | failed (e : E) : Runs (.fail e) [] (.failed e)
  | done (a : α) : Runs (.ret a) [] (.done a)
  | call {c : C} {k : R c → Prog C R E α} {tr : List (Event R)} {o : Outcome E α} (r : R c) (h : Runs (k r) tr o) :
      Runs (.call c k) (⟨c, r⟩ :: tr) o

def Outcome.ofExcept : Except E α → Outcome E α
  | .error e => .failed e
  | .ok a => .done a

/-- The run in which calls are answered by `answer`, which knows the calls before. -/
def exec (answer : List (Event R) → (c : C) → R c) : Prog C R E α → List (Event R) → List (Event R) × Except E α
  | .ret a, _ => ([], .ok a)
  | .fail e, _ => ([], .error e)
  | .call c k, past =>
    let r := answer past c
    let (tr, o) := exec answer (k r) (past ++ [⟨c, r⟩])
    (⟨c, r⟩ :: tr, o)

theorem runs_exec (answer : List (Event R) → (c : C) → R c) (p : Prog C R E α) (past : List (Event R)) :
    Runs p (exec answer p past).1 (.ofExcept (exec answer p past).2) := by
  induction p generalizing past with
  | ret a => exact .done a
  | fail e => exact .failed e
  | call c k ih => exact .call _ (ih _ _)

/-- Something that follows a run from call to call: what it knows, what it takes
for granted of an answer and what it asks of a call. -/
structure Monitor (R : C → Type) (σ : Type) where
  next : σ → Event R → σ
  assumes : σ → Event R → Prop
  asks : σ → Event R → Prop

namespace Monitor

def after (m : Monitor R σ) (s : σ) (tr : List (Event R)) : σ := tr.foldl m.next s

/-- A property of every event of a run, in view of what is known before it. -/
def Along (m : Monitor R σ) (P : σ → Event R → Prop) : σ → List (Event R) → Prop
  | _, [] => True
  | s, e :: tr => P s e ∧ m.Along P (m.next s e) tr

instance (m : Monitor R σ) (P : σ → Event R → Prop) [∀ s e, Decidable (P s e)] :
    (s : σ) → (tr : List (Event R)) → Decidable (m.Along P s tr)
  | _, [] => isTrue trivial
  | s, e :: tr => @instDecidableAnd _ _ _ (instDecidableAlong m P (m.next s e) tr)

theorem along_append (m : Monitor R σ) {P : σ → Event R → Prop} {s : σ} {tr tr' : List (Event R)} :
    m.Along P s (tr ++ tr') ↔ m.Along P s tr ∧ m.Along P (m.after s tr) tr' := by
  induction tr generalizing s with
  | nil => simp [Along, after]
  | cons e tr ih => simp only [List.cons_append, Along, ih, and_assoc, after, List.foldl_cons]

theorem along_iff (m : Monitor R σ) {P : σ → Event R → Prop} {s : σ} {tr : List (Event R)} :
    m.Along P s tr ↔ ∀ pre e post, tr = pre ++ e :: post → P (m.after s pre) e := by
  constructor
  · rintro h pre e post rfl
    exact (m.along_append.mp h).2.1
  · intro h
    induction tr generalizing s with
    | nil => trivial
    | cons e tr ih =>
      refine ⟨h [] e tr rfl, ih fun pre e' post htr ↦ ?_⟩
      exact h (e :: pre) e' post (congrArg (e :: ·) htr)

theorem along_of_forall (m : Monitor R σ) {P : σ → Event R → Prop} (h : ∀ s e, P s e) (s : σ)
    (tr : List (Event R)) : m.Along P s tr := by
  induction tr generalizing s with
  | nil => trivial
  | cons e tr ih => exact ⟨h s e, ih _⟩

end Monitor

/-- What must be known before `p` for every call of `p` to be as asked, and for
`Q` to hold where it returns and `X` where it fails. -/
def wp (m : Monitor R σ) : Prog C R E α → (α → σ → Prop) → (E → σ → Prop) → σ → Prop
  | .ret a, Q, _, s => Q a s
  | .fail e, _, X, s => X e s
  | .call c k, Q, X, s => ∀ r, m.assumes s ⟨c, r⟩ → m.asks s ⟨c, r⟩ ∧ wp m (k r) Q X (m.next s ⟨c, r⟩)

variable {m : Monitor R σ} {Q Q' : α → σ → Prop} {X X' : E → σ → Prop} {s : σ}

/-- What holds of a run at its end, if it has come to one. -/
def Outcome.Ends (Q : α → σ → Prop) (X : E → σ → Prop) (s : σ) : Outcome E α → Prop
  | .running => True
  | .failed e => X e s
  | .done a => Q a s

theorem wp_sound {p : Prog C R E α} (h : wp m p Q X s) {tr : List (Event R)} {o : Outcome E α} (hr : Runs p tr o)
    (ha : m.Along m.assumes s tr) : m.Along m.asks s tr ∧ o.Ends Q X (m.after s tr) := by
  induction hr generalizing s with
  | pause p => exact ⟨trivial, trivial⟩
  | failed e => exact ⟨trivial, h⟩
  | done a => exact ⟨trivial, h⟩
  | call r _ ih =>
    obtain ⟨hask, hrest⟩ := h r ha.1
    obtain ⟨hasks, hends⟩ := ih hrest ha.2
    exact ⟨⟨hask, hasks⟩, hends⟩

theorem wp_mono {p : Prog C R E α} (hQ : ∀ a s, Q a s → Q' a s) (hX : ∀ e s, X e s → X' e s) (h : wp m p Q X s) :
    wp m p Q' X' s := by
  induction p generalizing s with
  | ret a => exact hQ a s h
  | fail e => exact hX e s h
  | call c k ih => exact fun r ha ↦ ⟨(h r ha).1, ih r (h r ha).2⟩

@[simp] theorem wp_pure (a : α) : wp m (pure a : Prog C R E α) Q X s ↔ Q a s := Iff.rfl

@[simp] theorem wp_fail (e : E) : wp m (.fail e : Prog C R E α) Q X s ↔ X e s := Iff.rfl

@[simp] theorem wp_perform {c : C} {Q : R c → σ → Prop} : wp m (perform c : Prog C R E (R c)) Q X s ↔
    ∀ r, m.assumes s ⟨c, r⟩ → m.asks s ⟨c, r⟩ ∧ Q r (m.next s ⟨c, r⟩) := Iff.rfl

@[simp] theorem wp_bind {p : Prog C R E α} {f : α → Prog C R E β} {Q : β → σ → Prop} :
    wp m (p >>= f) Q X s ↔ wp m p (fun a s ↦ wp m (f a) Q X s) X s := by
  induction p generalizing s with
  | ret a => rfl
  | fail e => rfl
  | call c k ih => exact forall_congr' fun r ↦ imp_congr_right fun _ ↦ and_congr_right fun _ ↦ ih r

theorem wp_perform_bind {c : C} {f : R c → Prog C R E α} : wp m (perform c >>= f) Q X s ↔
    ∀ r, m.assumes s ⟨c, r⟩ → m.asks s ⟨c, r⟩ ∧ wp m (f r) Q X (m.next s ⟨c, r⟩) := Iff.rfl

theorem wp_ensuring {p : Prog C R E α} {cleanup : Prog C R E Unit} : wp m (p.ensuring cleanup) Q X s ↔
    wp m p (fun a s ↦ wp m cleanup (fun _ s ↦ Q a s) X s) (fun e s ↦ wp m cleanup (fun _ s ↦ X e s) X s) s := by
  induction p generalizing s with
  | ret a => exact wp_bind
  | fail e => exact wp_bind
  | call c k ih => exact forall_congr' fun r ↦ imp_congr_right fun _ ↦ and_congr_right fun _ ↦ ih r

/-- The rule for a scope. `I` is about what has been noted so far. -/
theorem wp_inScope {note : τ → Event R → τ} {cleanup : τ → Prog C R E Unit} {I : σ → τ → Prop} {n : τ}
    {p : Prog C R E α} (hnote : ∀ s n e, I s n → m.asks s e → I (m.next s e) (note n e))
    (hret : ∀ a s n, Q a s → I s n → wp m (cleanup n) (fun _ s ↦ Q' a s) X' s)
    (hfail : ∀ e s n, X e s → I s n → wp m (cleanup n) (fun _ s ↦ X' e s) X' s) (h : wp m p Q X s) (hn : I s n) :
    wp m (p.inScope note cleanup n) Q' X' s := by
  induction p generalizing s n with
  | ret a => exact wp_bind.mpr (hret a s n h hn)
  | fail e => exact wp_bind.mpr (hfail e s n h hn)
  | call c k ih =>
    intro r ha
    obtain ⟨hask, hrest⟩ := h r ha
    exact ⟨hask, ih r hrest (hnote s n _ hn hask)⟩

theorem wp_handle {p : Prog C R E α} {handler : E → Prog C R E' α} {X : E' → σ → Prop} :
    wp m (p.handle handler) Q X s ↔ wp m p Q (fun e s ↦ wp m (handler e) Q X s) s := by
  induction p generalizing s with
  | ret a => rfl
  | fail e => rfl
  | call c k ih => exact forall_congr' fun r ↦ imp_congr_right fun _ ↦ and_congr_right fun _ ↦ ih r

/-- The rule for a loop over a list. `I` is about the elements that the loop has
been through and the values that it has got. -/
theorem wp_mapM {f : α → Prog C R E β} {I : List α → List β → σ → Prop} (l : List α)
    (hstep : ∀ as a bs s, as ++ [a] <+: l → I as bs s → wp m (f a) (fun b s ↦ I (as ++ [a]) (bs ++ [b]) s) X s)
    (h₀ : I [] [] s) : wp m (l.mapM f) (fun bs s ↦ I l bs s) X s := by
  have hrun : ∀ as as' bs s, as ++ as' = l → I as bs s → wp m (as'.mapM f) (fun bs' s ↦ I l (bs ++ bs') s) X s := by
    intro as as'
    induction as' generalizing as with
    | nil =>
      intro bs s hl hi
      rw [List.append_nil] at hl
      simpa [hl] using hi
    | cons a as' ih =>
      intro bs s hl hi
      have hpre : as ++ [a] <+: l := ⟨as', by rw [List.append_assoc]; exact hl⟩
      rw [List.mapM_cons, wp_bind]
      refine wp_mono (fun b s hb ↦ ?_) (fun _ _ hx ↦ hx) (hstep as a bs s hpre hi)
      rw [wp_bind]
      refine wp_mono (fun bs' s hbs ↦ ?_) (fun _ _ hx ↦ hx) (ih (as ++ [a]) (bs ++ [b]) s (by simpa using hl) hb)
      simpa using hbs
  exact hrun [] l [] s rfl h₀

/-- Once an event has been `bad`, only `allowed` ones may follow. -/
def latch (bad : Event R → Bool) (allowed : Event R → Prop) : Monitor R Bool where
  next s e := s || bad e
  assumes _ _ := True
  asks s e := s = true → allowed e

theorem after_latch (bad : Event R → Bool) (allowed : Event R → Prop) (s : Bool) (tr : List (Event R)) :
    (latch bad allowed).after s tr = (s || tr.any bad) := by
  induction tr generalizing s with
  | nil => simp [Monitor.after]
  | cons e tr ih =>
    rw [Monitor.after, List.foldl_cons, ← Monitor.after, ih, List.any_cons, ← Bool.or_assoc]
    rfl

theorem along_latch {bad : Event R → Bool} {allowed : Event R → Prop} {tr : List (Event R)}
    (h : (latch bad allowed).Along (latch bad allowed).asks false tr) {pre post : List (Event R)} {e : Event R}
    (htr : tr = pre ++ e :: post) (hbad : bad e = true) : ∀ e' ∈ post, allowed e' := by
  have hall : ∀ tr, (latch bad allowed).Along (latch bad allowed).asks true tr → ∀ e' ∈ tr, allowed e' := by
    intro tr
    induction tr with
    | nil => exact fun _ _ h ↦ absurd h List.not_mem_nil
    | cons e tr ih =>
      rintro ⟨hask, hrest⟩ e' he'
      rcases List.mem_cons.mp he' with rfl | he'
      · exact hask rfl
      · exact ih hrest e' he'
  rw [htr, Monitor.along_append] at h
  obtain ⟨-, -, hrest⟩ := h
  refine hall post ?_
  simpa [latch, hbad] using hrest

/-- A run of a sequence is one of its first part that has not returned, or goes
through it. -/
theorem runs_bind {p : Prog C R E α} {f : α → Prog C R E β} {tr : List (Event R)} {o : Outcome E β}
    (h : Runs (p >>= f) tr o) : (∃ o', Runs p tr o' ∧ (∀ a, o' ≠ .done a) ∧ ∀ b, o ≠ .done b) ∨
      ∃ a tr₁ tr₂, Runs p tr₁ (.done a) ∧ Runs (f a) tr₂ o ∧ tr = tr₁ ++ tr₂ := by
  induction p generalizing tr with
  | ret a => exact .inr ⟨a, [], tr, .done a, h, rfl⟩
  | fail e =>
    cases h with
    | pause => exact .inl ⟨.running, .pause _, nofun, nofun⟩
    | failed => exact .inl ⟨.failed e, .failed e, nofun, nofun⟩
  | call c k ih =>
    cases h with
    | pause => exact .inl ⟨.running, .pause _, nofun, nofun⟩
    | @call _ _ tr _ r h =>
      rcases ih r h with ⟨o', hrun, hne, hne'⟩ | ⟨a, tr₁, tr₂, h₁, h₂, rfl⟩
      · exact .inl ⟨o', .call r hrun, hne, hne'⟩
      · exact .inr ⟨a, ⟨c, r⟩ :: tr₁, tr₂, .call r h₁, h₂, rfl⟩

theorem runs_bind_done {p : Prog C R E α} {f : α → Prog C R E β} {tr : List (Event R)} {b : β}
    (h : Runs (p >>= f) tr (.done b)) :
    ∃ a tr₁ tr₂, Runs p tr₁ (.done a) ∧ Runs (f a) tr₂ (.done b) ∧ tr = tr₁ ++ tr₂ :=
  (runs_bind h).resolve_left fun ⟨_, _, _, hne⟩ ↦ hne b rfl

/-- A run of `p` with a handler: of `p` alone, or of `p` up to an error and then of the handler. -/
theorem runs_handle {p : Prog C R E α} {handler : E → Prog C R E' α} {tr : List (Event R)} {o : Outcome E' α}
    (h : Runs (p.handle handler) tr o) : ∃ tr₁ tr₂ o', Runs p tr₁ o' ∧ tr = tr₁ ++ tr₂ ∧
      (tr₂ = [] ∨ ∃ e, o' = .failed e ∧ Runs (handler e) tr₂ o) := by
  induction p generalizing tr with
  | ret a =>
    cases h with
    | pause => exact ⟨[], [], .running, .pause _, rfl, .inl rfl⟩
    | done => exact ⟨[], [], .done a, .done a, rfl, .inl rfl⟩
  | fail e => exact ⟨[], tr, .failed e, .failed e, rfl, .inr ⟨e, rfl, h⟩⟩
  | call c k ih =>
    cases h with
    | pause => exact ⟨[], [], .running, .pause _, rfl, .inl rfl⟩
    | @call _ _ tr _ r h =>
      obtain ⟨tr₁, tr₂, o', hrun, rfl, htail⟩ := ih r h
      exact ⟨⟨c, r⟩ :: tr₁, tr₂, o', .call r hrun, rfl, htail⟩

/-- A run of a scope: of `p` alone, or of `p` to its end and then of the cleanup. -/
theorem runs_inScope {note : τ → Event R → τ} {cleanup : τ → Prog C R E Unit} {n : τ} {p : Prog C R E α}
    {tr : List (Event R)} {o : Outcome E α} (h : Runs (p.inScope note cleanup n) tr o) :
    ∃ tr₁ tr₂ o', Runs p tr₁ o' ∧ tr = tr₁ ++ tr₂ ∧
      (tr₂ = [] ∨ ∃ o'', Runs (cleanup (tr₁.foldl note n)) tr₂ o'') := by
  induction p generalizing n tr with
  | ret a =>
    refine ⟨[], tr, .done a, .done a, rfl, ?_⟩
    rcases runs_bind h with ⟨o', hrun, -⟩ | ⟨u, tr₁, tr₂, hrun, hret, rfl⟩
    · exact .inr ⟨o', hrun⟩
    · cases hret <;> exact .inr ⟨_, (List.append_nil tr₁).symm ▸ hrun⟩
  | fail e =>
    refine ⟨[], tr, .failed e, .failed e, rfl, ?_⟩
    rcases runs_bind h with ⟨o', hrun, -⟩ | ⟨u, tr₁, tr₂, hrun, hret, rfl⟩
    · exact .inr ⟨o', hrun⟩
    · cases hret <;> exact .inr ⟨_, (List.append_nil tr₁).symm ▸ hrun⟩
  | call c k ih =>
    cases h with
    | pause => exact ⟨[], [], .running, .pause _, rfl, .inl rfl⟩
    | @call _ _ tr _ r h =>
      obtain ⟨tr₁, tr₂, o', hrun, rfl, htail⟩ := ih r h
      exact ⟨⟨c, r⟩ :: tr₁, tr₂, o', .call r hrun, rfl, htail⟩

/-- All calls of `p`, whatever the answers, satisfy `P`. -/
def Prog.Uses (P : C → Prop) : Prog C R E α → Prop
  | .ret _ | .fail _ => True
  | .call c k => P c ∧ ∀ r, (k r).Uses P

section Uses

variable {P : C → Prop}

theorem uses_runs {p : Prog C R E α} (hp : p.Uses P) {tr : List (Event R)} {o : Outcome E α} (h : Runs p tr o) :
    ∀ e ∈ tr, P e.1 := by
  induction h with
  | pause | failed | done => exact fun _ h ↦ absurd h List.not_mem_nil
  | call r _ ih => exact List.forall_mem_cons.mpr ⟨hp.1, ih (hp.2 r)⟩

/-- A program of calls that a monitor lets pass leaves what it knows as it was. -/
theorem wp_of_uses {p : Prog C R E α} (hp : p.Uses P)
    (hcall : ∀ c r, P c → m.asks s ⟨c, r⟩ ∧ m.next s ⟨c, r⟩ = s) :
    wp m p (fun _ s' ↦ s' = s) (fun _ s' ↦ s' = s) s := by
  induction p with
  | ret a => exact rfl
  | fail e => exact rfl
  | call c k ih =>
    intro r _
    obtain ⟨hask, hnext⟩ := hcall c r hp.1
    rw [hnext]
    exact ⟨hask, ih r (hp.2 r)⟩

theorem uses_bind {p : Prog C R E α} {f : α → Prog C R E β} (hp : p.Uses P) (hf : ∀ a, (f a).Uses P) :
    (p >>= f).Uses P := by
  induction p with
  | ret a => exact hf a
  | fail e => trivial
  | call c k ih => exact ⟨hp.1, fun r ↦ ih r (hp.2 r)⟩

theorem uses_perform {c : C} (h : P c) : (perform c : Prog C R E (R c)).Uses P := ⟨h, fun _ ↦ trivial⟩

theorem uses_ensuring {p : Prog C R E α} {cleanup : Prog C R E Unit} (hp : p.Uses P) (hc : cleanup.Uses P) :
    (p.ensuring cleanup).Uses P := by
  induction p with
  | ret a => exact uses_bind hc fun _ ↦ trivial
  | fail e => exact uses_bind hc fun _ ↦ trivial
  | call c k ih => exact ⟨hp.1, fun r ↦ ih r (hp.2 r)⟩

theorem uses_mapM {f : α → Prog C R E β} (hf : ∀ a, (f a).Uses P) (l : List α) : (l.mapM f).Uses P := by
  induction l with
  | nil => trivial
  | cons a l ih =>
    rw [List.mapM_cons]
    exact uses_bind (hf a) fun _ ↦ uses_bind ih fun _ ↦ trivial

end Uses

/-- `p` returns, whatever the answers to its calls. -/
def Prog.Returns : Prog C R E α → Prop
  | .ret _ => True
  | .fail _ => False
  | .call _ k => ∀ r, (k r).Returns

section Returns

theorem returns_bind {p : Prog C R E α} {f : α → Prog C R E β} (hp : p.Returns) (hf : ∀ a, (f a).Returns) :
    (p >>= f).Returns := by
  induction p with
  | ret a => exact hf a
  | fail e => exact hp.elim
  | call c k ih => exact fun r ↦ ih r (hp r)

theorem returns_not_failed {p : Prog C R E α} (hp : p.Returns) {tr : List (Event R)} {e : E} :
    ¬ Runs p tr (.failed e) := by
  induction p generalizing tr with
  | ret a => exact nofun
  | fail e => exact hp.elim
  | call c k ih =>
    rintro (_ | _ | _ | ⟨r, hrun⟩)
    exact ih r (hp r) hrun

end Returns

end Gofra.Lib.Calls
