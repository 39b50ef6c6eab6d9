import Gofra.Liveness

namespace Gofra.Failover

open Addr Peers Conns Threads LastSeen LoadShare Liveness

/-- A call of `Conn::next`, under way or returned, has loaded `loads`. -/
def Loading (st : State) (conn turn : ℕ) (ticket : UInt64) (loads : List UInt64) : Prop :=
  (∃ now calls, Sender.scanning conn now calls turn ticket loads ∈ st.senders) ∨
    ∃ now slot, (⟨conn, turn, ticket, now, loads, slot⟩ : Return) ∈ st.returns

section Loads

variable {st st' : State} {conn turn : ℕ} {ticket : UInt64} {loads : List UInt64}

/-- A call under way has drawn its ticket. -/
theorem loading_turn {t : ConnTable} (hi : Tickets t st) (h : Loading st conn turn ticket loads) :
    turn < st.drawn conn := by
  have hpos : 0 < callCount st conn turn := by
    rw [callCount, Nat.add_pos_iff_pos_or_pos, List.countP_pos_iff, List.countP_pos_iff]
    rcases h with ⟨now, calls, h⟩ | ⟨now, slot, h⟩
    · exact .inl ⟨_, h, decide_eq_true ⟨rfl, rfl⟩⟩
    · exact .inr ⟨_, h, decide_eq_true ⟨rfl, rfl⟩⟩
  have honce := hi.once conn turn
  split_ifs at honce with hlt
  · exact hlt
  · omega

theorem loading_set {i : ℕ} {s : Sender} {new : List Return} (h : Loading st' conn turn ticket loads)
    (hsenders : st'.senders = st.senders.set i s) (hreturns : st'.returns = st.returns ++ new) :
    Loading st conn turn ticket loads ∨ (∃ now calls, s = .scanning conn now calls turn ticket loads) ∨
      ∃ now slot, (⟨conn, turn, ticket, now, loads, slot⟩ : Return) ∈ new := by
  rcases h with ⟨now, calls, h⟩ | ⟨now, slot, h⟩
  · rw [hsenders] at h
    rcases List.mem_or_eq_of_mem_set h with h | h
    · exact .inl (.inl ⟨now, calls, h⟩)
    · exact .inr (.inl ⟨now, calls, h.symm⟩)
  · rw [hreturns, List.mem_append] at h
    rcases h with h | h
    · exact .inl (.inr ⟨now, slot, h⟩)
    · exact .inr (.inr ⟨now, slot, h⟩)

theorem loading_quiet {i : ℕ} {s : Sender} (h : Loading st' conn turn ticket loads)
    (hsenders : st'.senders = st.senders.set i s) (hreturns : st'.returns = st.returns)
    (hs : ∀ now calls, s ≠ .scanning conn now calls turn ticket loads) : Loading st conn turn ticket loads := by
  have hnew : st'.returns = st.returns ++ [] := by rw [hreturns, List.append_nil]
  rcases loading_set h hsenders hnew with h | ⟨now, calls, he⟩ | ⟨now, slot, hmem⟩
  · exact h
  · exact absurd he (hs now calls)
  · cases hmem

/-- Where the loads of a call come from: it had them before, it has none, or the
last one has just been made. -/
theorem loading_step (hstep : Step st st') (h : Loading st' conn turn ticket loads) :
    Loading st conn turn ticket loads ∨ loads = [] ∨ ∃ earlier c slot s, loads = earlier ++ [s.lastSeen] ∧
      Loading st conn turn ticket earlier ∧ st.table.conns[conn]? = some c ∧
      c.slots[position c ticket earlier.length]? = some slot ∧ st.table.allSlots[slot]? = some s := by
  cases hstep with
  | send conn' calls hs =>
    exact .inl (loading_quiet h rfl rfl nofun)
  | sent hs =>
    exact .inl (loading_quiet h rfl rfl nofun)
  | drawTicket hs hc hslots =>
    rcases @loading_set st _ conn turn ticket loads _ _ [] h rfl (List.append_nil _).symm with
      h | ⟨_, _, ⟨⟩⟩ | ⟨_, _, ⟨⟩⟩
    · exact .inl h
    · exact .inr (.inl rfl)
  | takeSlot hs hc hslot hlook halive =>
    rcases @loading_set st _ conn turn ticket loads _ _ _ h rfl rfl with h | ⟨_, _, ⟨⟩⟩ | ⟨_, _, hr⟩
    · exact .inl h
    · cases List.mem_singleton.mp hr
      exact .inr (.inr ⟨_, _, _, _, rfl, .inl ⟨_, _, List.mem_of_getElem? hs⟩, hc, hslot, hlook⟩)
  | skipSlot hs hc hslot hlook hdead hmore =>
    rcases @loading_set st _ conn turn ticket loads _ _ [] h rfl (List.append_nil _).symm with
      h | ⟨_, _, ⟨⟩⟩ | ⟨_, _, ⟨⟩⟩
    · exact .inl h
    · exact .inr (.inr ⟨_, _, _, _, rfl, .inl ⟨_, _, List.mem_of_getElem? hs⟩, hc, hslot, hlook⟩)
  | allDead hs hc hslot hlook hdead hlast hbase =>
    rcases @loading_set st _ conn turn ticket loads _ _ _ h rfl rfl with h | ⟨_, _, ⟨⟩⟩ | ⟨_, _, hr⟩
    · exact .inl h
    · cases List.mem_singleton.mp hr
      exact .inr (.inr ⟨_, _, _, _, rfl, .inl ⟨_, _, List.mem_of_getElem? hs⟩, hc, hslot, hlook⟩)
  | _ => exact .inl h

end Loads

/-- What a call loads lies between what the slot said at the start of the run
from `st` to `st'`, in which the call is made, and what it says at the end. -/
def Between (st st' : State) (c : Conn) (ticket : UInt64) (loads : List UInt64) : Prop :=
  ∀ (j : ℕ) l slot s s', loads[j]? = some l → c.slots[position c ticket j]? = some slot →
    st.table.allSlots[slot]? = some s → st'.table.allSlots[slot]? = some s' → s.lastSeen ≤ l ∧ l ≤ s'.lastSeen

/-- How the calls of a run from `st` to `st'` treat the slots of a connection. -/
structure FailsOver (st st' : State) (c : Conn) (r : Return) : Prop where
  mem : r.slot ∈ c.slots
  between : Between st st' c r.ticket r.loads
  avoids : ∀ x y s' z z', y ∈ c.slots → st'.table.allSlots[x]? = some s' →
    s'.lastSeen.toNat + c.timeoutMs.toNat < r.now.toNat → st.table.allSlots[y]? = some z →
    r.now.toNat ≤ z.lastSeen.toNat + c.timeoutMs.toNat → st'.table.allSlots[y]? = some z' → z'.lastSeen ≤ r.now →
    r.slot ≠ x

theorem not_alive_of_silent {now l ls timeoutMs : UInt64} (hle : l ≤ ls)
    (h : ls.toNat + timeoutMs.toNat < now.toNat) : alive now l timeoutMs = false := by
  have hnot : ¬ alive now l timeoutMs = true := by
    rw [UInt64.le_iff_toNat_le] at hle
    have hnow : l ≤ now := by
      rw [UInt64.le_iff_toNat_le]
      omega
    rw [alive_iff, if_pos hnow]
    omega
  exact Bool.not_eq_true _ ▸ hnot

theorem alive_of_heard {now l ls ls' timeoutMs : UInt64} (hle : ls ≤ l) (hle' : l ≤ ls') (hnow : ls' ≤ now)
    (h : now.toNat ≤ ls.toNat + timeoutMs.toNat) : alive now l timeoutMs = true := by
  rw [alive_iff, if_pos (UInt64.le_trans hle' hnow)]
  rw [UInt64.le_iff_toNat_le] at hle
  omega

section

variable {host : Host} {peers : PeerTable} {self : Fin peers.peers.length} {rcvBuf sndBuf : ℤ}
variable {timeoutMs : UInt64} {t : ConnTable}
variable (h : ConnTable.create host peers self rcvBuf sndBuf timeoutMs = .ok t)

include h

theorem between_of_steps {st st' : State} (hst : Reachable host.startMs t st) (hsteps : Steps st st')
    {conn turn : ℕ} {ticket : UInt64} {loads : List UInt64} (hload : Loading st' conn turn ticket loads)
    (hturn : st.drawn conn ≤ turn) {c : Conn} (hc : t.conns[conn]? = some c) : Between st st' c ticket loads := by
  induction hsteps generalizing loads with
  | refl =>
    have hlt := loading_turn (tickets_of_reachable h hst) hload
    omega
  | @tail st₁ st₂ hsteps hstep ih =>
    have hst₁ : Reachable host.startMs t st₁ := by
      obtain ⟨st₀, hstart, hsteps₀⟩ := hst
      exact ⟨st₀, hstart, hsteps₀.trans hsteps⟩
    have hback {slot : ℕ} {s' : ConnSlot} (hs' : st₂.table.allSlots[slot]? = some s') :
        ∃ s₁, st₁.table.allSlots[slot]? = some s₁ ∧ s₁.lastSeen ≤ s'.lastSeen := by
      obtain ⟨lastSeen, hs₁⟩ := slots_of_fixed (((hst₁.step hstep).fixed_eq).trans hst₁.fixed_eq.symm) hs'
      exact ⟨_, hs₁, lastSeen_step h hst₁ hstep hs₁ hs'⟩
    have hkeep {loads : List UInt64} (hload : Loading st₁ conn turn ticket loads) :
        Between st st₂ c ticket loads := by
      intro j l slot s s' hl hslot hs hs'
      obtain ⟨s₁, hs₁, hle⟩ := hback hs'
      obtain ⟨hlow, hhigh⟩ := ih hload j l slot s s₁ hl hslot hs hs₁
      exact ⟨hlow, UInt64.le_trans hhigh hle⟩
    rcases loading_step hstep hload with hload | rfl | ⟨earlier, c₁, x, s₁, rfl, hload, hc₁, hx, hs₁⟩
    · exact hkeep hload
    · intro j l slot s s' hl
      cases hl
    · obtain ⟨rr, hc₀⟩ := conns_of_fixed hst₁.fixed_eq hc₁
      obtain rfl := Option.some.inj (hc.symm.trans hc₀)
      intro j l slot s s' hl hslot hs hs'
      rcases Nat.lt_trichotomy j earlier.length with hj | rfl | hj
      · rw [List.getElem?_append_left hj] at hl
        exact hkeep hload j l slot s s' hl hslot hs hs'
      · -- the load that has just been made
        rw [List.getElem?_concat_length] at hl
        obtain rfl := Option.some.inj hl
        obtain rfl : x = slot := Option.some.inj (hx.symm.trans hslot)
        obtain ⟨s₂, hs₂, hle⟩ := hback hs'
        obtain rfl := Option.some.inj (hs₁.symm.trans hs₂)
        exact ⟨lastSeen_steps h hst hsteps hs hs₁, hle⟩
      · rw [List.getElem?_eq_none (by rw [List.length_append, List.length_singleton]; omega)] at hl
        cases hl

/-- A slot that has been silent for longer than the timeout gets nothing more, as
long as the connection has another one that has been heard in time. -/
theorem reachable_failsOver {st st' : State} (hst : Reachable host.startMs t st) (hsteps : Steps st st')
    {r : Return} (hr : r ∈ st'.returns) (hturn : st.drawn r.conn ≤ r.turn) {c : Conn}
    (hc : t.conns[r.conn]? = some c) : FailsOver st st' c r := by
  have hst' : Reachable host.startMs t st' := by
    obtain ⟨st₀, hstart, hsteps₀⟩ := hst
    exact ⟨st₀, hstart, hsteps₀.trans hsteps⟩
  have hbetween := between_of_steps h hst hsteps (.inr ⟨r.now, r.slot, hr⟩) hturn hc
  obtain ⟨-, c', earlier, last, hc', hloads, hlt, hdead, hend⟩ := (tickets_of_reachable h hst').returned r hr
  obtain rfl := Option.some.inj (hc.symm.trans hc')
  have hslots {x : ℕ} {s' : ConnSlot} (hs' : st'.table.allSlots[x]? = some s') :
      ∃ s, st.table.allSlots[x]? = some s := by
    obtain ⟨lastSeen, hs⟩ := slots_of_fixed (hst'.fixed_eq.trans hst.fixed_eq.symm) hs'
    exact ⟨_, hs⟩
  refine ⟨?_, hbetween, fun x y s' z z' hy hs' hsilent hz hheard hz' hle hx ↦ ?_⟩
  · rcases hend with ⟨-, hslot⟩ | ⟨-, -, hslot⟩ <;> exact List.mem_of_getElem? hslot
  · rcases hend with ⟨halive, hslot⟩ | ⟨hnot, hlen, -⟩
    · rw [hx] at hslot
      obtain ⟨s, hs⟩ := hslots hs'
      have hlast : r.loads[earlier.length]? = some last := by rw [hloads, List.getElem?_concat_length]
      have hl := (hbetween _ _ _ _ _ hlast hslot hs hs').2
      rw [not_alive_of_silent hl hsilent] at halive
      cases halive
    · -- a call that has found all slots dead has looked at `y` too
      obtain ⟨i, hi, rfl⟩ := List.getElem_of_mem hy
      obtain ⟨j, hj, hposition⟩ : ∃ j < c.slots.length, position c r.ticket j = i := by
        have hpos : 0 < c.slots.length := by omega
        exact ⟨_, Nat.mod_lt _ hpos, Lib.CyclicScan.add_dist_mod (Nat.mod_lt _ hpos) hi⟩
      obtain ⟨l, hl⟩ : ∃ l, r.loads[j]? = some l := by
        rw [hloads]
        exact ⟨_, List.getElem?_eq_getElem (by rw [List.length_append, List.length_singleton, hlen]; exact hj)⟩
      have hlook : c.slots[position c r.ticket j]? = some c.slots[i] := by
        rw [hposition]
        exact List.getElem?_eq_getElem hi
      obtain ⟨hlow, hhigh⟩ := hbetween j l _ z z' hl hlook hz hz'
      have halive := alive_of_heard hlow hhigh hle hheard
      have hmem : l ∈ earlier ++ [last] := hloads ▸ List.mem_of_getElem? hl
      rcases List.mem_append.mp hmem with hmem | hmem
      · rw [hdead l hmem] at halive
        cases halive
      · rw [List.mem_singleton.mp hmem, hnot] at halive
        cases halive

end

theorem reachable_failsOver_sample : ∃ st c, Reachable 0 sampleTable otherHeard ∧ Steps otherHeard st ∧
    sampleTable.conns[0]? = some c ∧ FailsOver otherHeard st c ⟨0, 0, 0, 2000, [0, 1500], 1⟩ := by
  obtain ⟨st, hsteps, hreturns, -⟩ := sample_sent
  have hst : Reachable 0 sampleTable otherHeard := ⟨_, start_twoSenders, sample_otherHeard⟩
  have hr : (⟨0, 0, 0, 2000, [0, 1500], 1⟩ : Return) ∈ st.returns :=
    hreturns ▸ List.mem_cons_of_mem _ List.mem_cons_self
  exact ⟨st, _, hst, hsteps, rfl, reachable_failsOver create_sampleTable hst hsteps hr (Nat.zero_le _) rfl⟩

end Gofra.Failover
