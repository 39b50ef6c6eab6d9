import Mathlib.Algebra.Order.Group.Multiset
import Mathlib.Tactic.Abel

namespace Gofra.Lib.Network

variable {μ ν : Type}

/-- A network that may lose, copy and reorder what it carries, with what has
happened to its messages so far. -/
structure Net (μ : Type) where
  inFlight : Multiset μ
  sent : Multiset μ
  lost : Multiset μ
  copied : Multiset μ
  delivered : Multiset μ

def Net.empty : Net μ := ⟨0, 0, 0, 0, 0⟩

def Net.send (n : Net μ) (ms : List μ) : Net μ := { n with inFlight := n.inFlight + ms, sent := n.sent + ms }

/-- What the network does to its messages on its own. -/
inductive Fault : Net μ → Net μ → Prop
  | lose {n : Net μ} {m : μ} {rest : Multiset μ} (h : n.inFlight = m ::ₘ rest) :
      Fault n { n with inFlight := rest, lost := m ::ₘ n.lost }
  | copy {n : Net μ} {m : μ} (h : m ∈ n.inFlight) :
      Fault n { n with inFlight := m ::ₘ n.inFlight, copied := m ::ₘ n.copied }

/-- A receiver takes `ms`, in this order. -/
structure Delivery (n : Net μ) (ms : List μ) (n' : Net μ) : Prop where
  inFlight : n.inFlight = n'.inFlight + ms
  sent : n'.sent = n.sent
  lost : n'.lost = n.lost
  copied : n'.copied = n.copied
  delivered : n'.delivered = n.delivered + ms

/-- Nothing comes from nowhere, and nothing goes unaccounted for. -/
structure Conserved (n : Net μ) : Prop where
  balance : n.delivered + n.inFlight + n.lost = n.sent + n.copied
  copied_mem : ∀ m ∈ n.copied, m ∈ n.sent

theorem conserved_empty : Conserved (Net.empty : Net μ) := ⟨rfl, fun _ h ↦ absurd h (Multiset.notMem_zero _)⟩

theorem Conserved.send {n : Net μ} (h : Conserved n) (ms : List μ) : Conserved (n.send ms) where
  balance := by
    change n.delivered + (n.inFlight + ms) + n.lost = n.sent + ms + n.copied
    rw [add_right_comm n.sent, ← h.balance]
    abel
  copied_mem m hm := Multiset.mem_add.mpr (.inl (h.copied_mem m hm))

theorem Conserved.mem_sent {n : Net μ} (h : Conserved n) {m : μ} (hm : m ∈ n.delivered + n.inFlight + n.lost) :
    m ∈ n.sent := by
  rw [h.balance] at hm
  rcases Multiset.mem_add.mp hm with hm | hm
  · exact hm
  · exact h.copied_mem m hm

theorem Conserved.inFlight_mem {n : Net μ} (h : Conserved n) {m : μ} (hm : m ∈ n.inFlight) : m ∈ n.sent :=
  h.mem_sent (Multiset.mem_add.mpr (.inl (Multiset.mem_add.mpr (.inr hm))))

theorem Conserved.fault {n n' : Net μ} (h : Conserved n) (hf : Fault n n') : Conserved n' := by
  cases hf with
  | @lose m rest hm =>
    refine ⟨?_, h.copied_mem⟩
    change n.delivered + rest + (m ::ₘ n.lost) = n.sent + n.copied
    rw [← h.balance, hm, Multiset.add_cons, Multiset.add_cons, Multiset.cons_add]
  | @copy m hm =>
    refine ⟨?_, fun m' hm' ↦ ?_⟩
    · change n.delivered + (m ::ₘ n.inFlight) + n.lost = n.sent + (m ::ₘ n.copied)
      rw [Multiset.add_cons, Multiset.cons_add, Multiset.add_cons, h.balance]
    · rcases Multiset.mem_cons.mp hm' with rfl | hm'
      · exact h.inFlight_mem hm
      · exact h.copied_mem m' hm'

theorem Conserved.deliver {n n' : Net μ} {ms : List μ} (h : Conserved n) (hd : Delivery n ms n') :
    Conserved n' where
  balance := by
    rw [hd.delivered, hd.lost, hd.sent, hd.copied, ← h.balance, hd.inFlight]
    abel
  copied_mem m hm := by
    rw [hd.sent]
    exact h.copied_mem m (hd.copied ▸ hm)

/-- What holds of every message sent holds of every message delivered. -/
theorem Delivery.forall_mem {n n' : Net μ} {ms : List μ} (hd : Delivery n ms n') (h : Conserved n)
    {P : μ → Prop} (hP : ∀ m ∈ n.sent, P m) : ∀ m ∈ ms, P m := by
  intro m hm
  refine hP m (h.inFlight_mem ?_)
  rw [hd.inFlight]
  exact Multiset.mem_add.mpr (.inr (Multiset.mem_coe.mpr hm))

/-- The account holds for the part of the traffic that `f` selects. -/
theorem Conserved.filterMap {n : Net μ} (h : Conserved n) (f : μ → Option ν) :
    n.delivered.filterMap f + n.inFlight.filterMap f + n.lost.filterMap f =
      n.sent.filterMap f + n.copied.filterMap f := by
  rw [← Multiset.filterMap_add, ← Multiset.filterMap_add, ← Multiset.filterMap_add, h.balance]

/-- What is seen of a network from outside. -/
inductive Obs (μ : Type) where
  | sent (ms : List μ)
  | delivered (m : μ)

/-- The runs of a network, with what is seen of them. -/
inductive Net.Run : List (Obs μ) → Net μ → Prop
  | start : Run [] Net.empty
  | send {tr : List (Obs μ)} {n : Net μ} (ms : List μ) (h : Run tr n) : Run (tr ++ [.sent ms]) (n.send ms)
  | fault {tr : List (Obs μ)} {n n' : Net μ} (hf : Fault n n') (h : Run tr n) : Run tr n'
  | deliver {tr : List (Obs μ)} {n n' : Net μ} {m : μ} (hd : Delivery n [m] n') (h : Run tr n) :
      Run (tr ++ [.delivered m]) n'

theorem Net.Run.conserved {tr : List (Obs μ)} {n : Net μ} (h : Net.Run tr n) : Conserved n := by
  induction h with
  | start => exact conserved_empty
  | send ms _ ih => exact ih.send ms
  | fault hf _ ih => exact ih.fault hf
  | deliver hd _ ih => exact ih.deliver hd

def Obs.sentOf : Obs μ → List μ
  | .sent ms => ms
  | .delivered _ => []

def Obs.deliveredOf : Obs μ → List μ
  | .sent _ => []
  | .delivered m => [m]

/-- What a network has sent and delivered is what has been seen of it. -/
theorem Net.Run.seen {tr : List (Obs μ)} {n : Net μ} (h : Net.Run tr n) :
    n.sent = tr.flatMap Obs.sentOf ∧ n.delivered = tr.flatMap Obs.deliveredOf := by
  induction h with
  | start => exact ⟨rfl, rfl⟩
  | send ms _ ih =>
    simp only [List.flatMap_append, List.flatMap_singleton, Obs.sentOf, Obs.deliveredOf, List.append_nil]
    exact ⟨congrArg (· + (ms : Multiset μ)) ih.1, ih.2⟩
  | fault hf _ ih => cases hf <;> exact ih
  | @deliver tr n n' m hd _ ih =>
    simp only [List.flatMap_append, List.flatMap_singleton, Obs.sentOf, Obs.deliveredOf, List.append_nil]
    refine ⟨hd.sent.trans ih.1, hd.delivered.trans ?_⟩
    exact congrArg (· + ([m] : Multiset μ)) ih.2

theorem Net.Run.lose {tr : List (Obs μ)} {n : Net μ} (h : Net.Run tr n) {ms rest : Multiset μ}
    (hn : n.inFlight = ms + rest) : ∃ n', Net.Run tr n' ∧ n'.inFlight = rest ∧ n'.copied = n.copied := by
  induction ms using Multiset.induction generalizing n with
  | empty => exact ⟨n, h, hn.trans (zero_add _), rfl⟩
  | cons m ms ih =>
    rw [Multiset.cons_add] at hn
    obtain ⟨n', hrun, hflight, hcopied⟩ := ih (h.fault (.lose hn)) rfl
    exact ⟨n', hrun, hflight, hcopied⟩

theorem Net.Run.copy {tr : List (Obs μ)} {n : Net μ} (h : Net.Run tr n) {m : μ} (hm : m ∈ n.inFlight) :
    ∃ n', Net.Run tr n' ∧ n'.inFlight = m ::ₘ n.inFlight ∧ n'.copied = m ::ₘ n.copied :=
  ⟨_, h.fault (.copy hm), rfl, rfl⟩

theorem Net.Run.receive {tr : List (Obs μ)} {n : Net μ} (h : Net.Run tr n) {m : μ} {rest : Multiset μ}
    (hn : n.inFlight = m ::ₘ rest) :
    ∃ n', Net.Run (tr ++ [.delivered m]) n' ∧ n'.inFlight = rest ∧ n'.copied = n.copied := by
  have hd : Delivery n [m] { n with inFlight := rest, delivered := n.delivered + [m] } := by
    refine ⟨?_, rfl, rfl, rfl, rfl⟩
    rw [hn, ← Multiset.singleton_add, add_comm]
    rfl
  exact ⟨_, h.deliver hd, rfl, rfl⟩

end Gofra.Lib.Network
