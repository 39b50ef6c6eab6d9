import Gofra.LoadShare

namespace Gofra.Liveness

open Addr Peers Conns Threads LastSeen

/-- The slot was heard within the timeout before the clock was read, or since. -/
def Heard (test : Test) : Prop := test.now.toNat ≤ test.lastSeen.toNat + test.timeoutMs.toNat

/-- The slot was not heard since the clock was read, or the difference of the
two clock values is out of the timeout's reach even when it wraps around. -/
def InOrder (test : Test) : Prop := test.lastSeen ≤ test.now ∨
  2 ^ 64 ≤ test.timeoutMs.toNat + (test.lastSeen.toNat - test.now.toNat)

theorem alive_iff (now ls timeoutMs : UInt64) : alive now ls timeoutMs = true ↔
    if ls ≤ now then now.toNat ≤ ls.toNat + timeoutMs.toNat
    else 2 ^ 64 ≤ timeoutMs.toNat + (ls.toNat - now.toNat) := by
  have hnow := now.toNat_lt
  have hls := ls.toNat_lt
  rw [alive, decide_eq_true_eq, UInt64.le_iff_toNat_le]
  split
  · rename_i hle
    rw [UInt64.toNat_sub_of_le _ _ hle]
    rw [UInt64.le_iff_toNat_le] at hle
    omega
  · rename_i hlt
    rw [UInt64.le_iff_toNat_le] at hlt
    rw [UInt64.toNat_sub]
    omega

/-- The subtraction in `u64` gives the right answer exactly when it does not wrap
to something too large. -/
theorem heard_alive_iff {test : Test} (h : test.passed = alive test.now test.lastSeen test.timeoutMs) :
    (Heard test → test.passed = true) ↔ InOrder test := by
  rw [h, alive_iff, Heard, InOrder]
  split
  · rename_i hle
    exact ⟨fun _ ↦ .inl hle, fun _ hheard ↦ hheard⟩
  · rename_i hlt
    have hlate : test.now.toNat < test.lastSeen.toNat := by
      rw [UInt64.le_iff_toNat_le] at hlt
      omega
    constructor
    · intro hdead
      exact .inr (hdead (by omega))
    · rintro (hle | hfar) -
      · exact absurd hle hlt
      · exact hfar

/-- What a step tests: the thread's clock value against the `lastSeen` of a slot
as it is in the table then. -/
inductive TestStep (st st' : State) : Prop
  | none (tests : st'.tests = st.tests)
  | next {i conn calls turn slot : ℕ} {now ticket : UInt64} {loads : List UInt64} {c : Conn} {s : ConnSlot}
      (sender : st.senders[i]? = some (.scanning conn now calls turn ticket loads))
      (conns : st.table.conns[conn]? = some c)
      (looked : c.slots[position c ticket loads.length]? = some slot)
      (slots : st.table.allSlots[slot]? = some s)
      (tests : st'.tests = st.tests ++ [⟨now, s.lastSeen, c.timeoutMs, alive now s.lastSeen c.timeoutMs⟩])
      (returned : alive now s.lastSeen c.timeoutMs = true →
        st'.returns = st.returns ++ [⟨conn, turn, ticket, now, loads ++ [s.lastSeen], slot⟩])
  | stats {i aliveCount deadCount : ℕ} {now : UInt64} {s : ConnSlot}
      (stats : st.stats = .counting now i aliveCount deadCount)
      (slots : st.table.allSlots[i]? = some s)
      (tests : st'.tests = st.tests ++
        [⟨now, s.lastSeen, st.table.timeoutMs, alive now s.lastSeen st.table.timeoutMs⟩])
      (counted : alive now s.lastSeen st.table.timeoutMs = true →
        st'.stats = .counting now (i + 1) (aliveCount + 1) deadCount)

theorem step_tests {st st' : State} (h : Step st st') : TestStep st st' := by
  cases h with
  | takeSlot h hc hslot hs halive =>
    refine .next h hc hslot hs ?_ fun _ ↦ rfl
    rw [halive]
  | skipSlot h hc hslot hs hdead _ =>
    refine .next h hc hslot hs ?_ fun halive ↦ ?_
    · rw [hdead]
    · rw [hdead] at halive
      cases halive
  | allDead h hc hslot hs hdead _ _ =>
    refine .next h hc hslot hs ?_ fun halive ↦ ?_
    · rw [hdead]
    · rw [hdead] at halive
      cases halive
  | count h hs => exact .stats h hs rfl fun halive ↦ if_pos halive
  | _ => exact .none rfl

theorem tests_passed {startMs : UInt64} {t : ConnTable} {st : State} (hst : Reachable startMs t st) :
    ∀ test ∈ st.tests, test.passed = alive test.now test.lastSeen test.timeoutMs := by
  refine @Reachable.invariant _ _ (fun st ↦ ∀ test ∈ st.tests,
    test.passed = alive test.now test.lastSeen test.timeoutMs) (fun st hst test htest ↦ ?_)
    (fun st st' _ hi hstep test htest ↦ ?_) _ hst
  · rw [hst.tests] at htest
    cases htest
  · cases step_tests hstep with
    | none tests => exact hi test (tests ▸ htest)
    | next _ _ _ _ tests _ =>
      rw [tests, List.mem_append, List.mem_singleton] at htest
      rcases htest with htest | rfl
      · exact hi test htest
      · rfl
    | stats _ _ tests _ =>
      rw [tests, List.mem_append, List.mem_singleton] at htest
      rcases htest with htest | rfl
      · exact hi test htest
      · rfl

/-- In any run, no slot that was heard in time is taken for dead exactly when no
test meets a slot that was heard after the tester read the clock. -/
theorem reachable_heard_alive_iff {startMs : UInt64} {t : ConnTable} {st : State}
    (hst : Reachable startMs t st) :
    (∀ test ∈ st.tests, Heard test → test.passed = true) ↔ ∀ test ∈ st.tests, InOrder test := by
  have hpassed := tests_passed hst
  constructor
  · intro hall test htest
    exact (heard_alive_iff (hpassed test htest)).mp (hall test htest)
  · intro hall test htest
    exact (heard_alive_iff (hpassed test htest)).mpr (hall test htest)

/-- The slot that was heard last is passed over for one that has been silent for
a second. -/
theorem heard_slot_skipped : ∃ st, Reachable 0 sampleTable st ∧
    st.tests = [⟨1000, 1001, 1000, false⟩, ⟨1000, 0, 1000, true⟩] ∧ Heard ⟨1000, 1001, 1000, false⟩ ∧
    st.returns = [⟨0, 0, 0, 1000, [1001, 0], 1⟩] := by
  have h₁ : Step sampleHeard _ := .drawTicket (i := 0) rfl rfl (List.cons_ne_nil _ _)
  have h₂ : Step { sampleHeard with
      senders := [.scanning 0 1000 0 0 0 []]
      table := draw sampleHeard.table 0
      drawn := Function.update sampleHeard.drawn 0 1 } _ :=
    .skipSlot (i := 0) rfl rfl rfl rfl (by decide) (by decide)
  have h₃ : Step { sampleHeard with
      senders := [.scanning 0 1000 0 0 0 [1001]]
      table := draw sampleHeard.table 0
      drawn := Function.update sampleHeard.drawn 0 1
      tests := [⟨1000, 1001, 1000, false⟩] } _ :=
    .takeSlot (i := 0) rfl rfl rfl rfl (by decide)
  have hsteps := ((sample_heard.tail h₁).tail h₂).tail h₃
  exact ⟨_, ⟨sampleStart, start_sample, hsteps⟩, rfl, by unfold Heard; decide, rfl⟩

/-- One slot is too old, the other one is found alive by two threads. -/
theorem reachable_heard_alive_iff_sample : ∃ st, Reachable 0 sampleTable st ∧
    st.tests = [⟨2000, 0, 1000, false⟩, ⟨2000, 1500, 1000, true⟩, ⟨2000, 1500, 1000, true⟩] ∧
    ∀ test ∈ st.tests, Heard test → test.passed = true := by
  obtain ⟨st, hsteps, -, htests⟩ := LoadShare.sample_sent
  have hst : Reachable 0 sampleTable st :=
    ⟨_, LoadShare.start_twoSenders, LoadShare.sample_otherHeard.trans hsteps⟩
  refine ⟨st, hst, htests, (reachable_heard_alive_iff hst).mpr fun test htest ↦ .inl ?_⟩
  rw [htests] at htest
  simp only [List.mem_cons, List.not_mem_nil, or_false, or_self] at htest
  rcases htest with rfl | rfl
  · exact (by decide : (0 : UInt64) ≤ 2000)
  · exact (by decide : (1500 : UInt64) ≤ 2000)

end Gofra.Liveness
