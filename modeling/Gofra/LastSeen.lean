import Gofra.SlotKeys
import Gofra.Threads

namespace Gofra.LastSeen

open Lib.LastWins Addr Peers Conns SlotKeys Threads

/-- The clock value of the last store to a slot, or the start-up time. -/
def newest (startMs : UInt64) (stores : List Store) (slot : ℕ) : UInt64 :=
  ((stores.filter fun w ↦ w.slot = slot).getLast?.map Store.now).getD startMs

theorem newest_append_self (startMs : UInt64) (stores : List Store) (w : Store) :
    newest startMs (stores ++ [w]) w.slot = w.now := by
  rw [newest, List.filter_append, List.filter_cons_of_pos (by simp), List.filter_nil, List.getLast?_concat]
  rfl

theorem newest_append_ne (startMs : UInt64) (stores : List Store) {w : Store} {slot : ℕ} (h : w.slot ≠ slot) :
    newest startMs (stores ++ [w]) slot = newest startMs stores slot := by
  rw [newest, List.filter_append, List.filter_cons_of_neg (by simpa using h), List.filter_nil,
    List.append_nil, newest]

theorem update_hearing {f : UInt32 → Reader} {i j : UInt32} {r : Reader} {now : UInt64} {addrs : List SockAddr}
    (h : Function.update f i r j = .hearing now addrs) : (i = j ∧ r = .hearing now addrs) ∨
      f j = .hearing now addrs := by
  by_cases hij : i = j
  · subst hij
    rw [Function.update_self] at h
    exact .inl ⟨rfl, h⟩
  · rw [Function.update_of_ne (Ne.symm hij)] at h
    exact .inr h

/-- A reader's clock value was read off the clock at some earlier step. -/
theorem step_readers {st st' : State} (h : Step st st') {i : UInt32} {now : UInt64} {addrs : List SockAddr}
    (hr : st'.readers i = .hearing now addrs) :
    (∃ addrs', st.readers i = .hearing now addrs') ∨ now = st.clock := by
  cases h with
  | recvmmsg addrs' h =>
    rcases update_hearing hr with ⟨-, hr⟩ | hr
    · cases hr
    · exact .inl ⟨_, hr⟩
  | readClock h =>
    rcases update_hearing hr with ⟨-, hr⟩ | hr
    · cases hr
      exact .inr rfl
    · exact .inl ⟨_, hr⟩
  | hear h =>
    rcases update_hearing hr with ⟨hij, hnow⟩ | hr
    · cases hnow
      exact .inl ⟨_, hij ▸ h⟩
    · exact .inl ⟨_, hr⟩
  | batchDone h =>
    rcases update_hearing hr with ⟨-, hr⟩ | hr
    · cases hr
    · exact .inl ⟨_, hr⟩
  | _ => exact .inl ⟨addrs, hr⟩

theorem step_clock {st st' : State} (h : Step st st') : st.clock ≤ st'.clock := by
  cases h with
  | tick h => exact h
  | _ => exact UInt64.le_refl _

section

variable {host : Host} {peers : PeerTable} {self : Fin peers.peers.length} {rcvBuf sndBuf : ℤ}
variable {timeoutMs : UInt64} {t : ConnTable}
variable (h : ConnTable.create host peers self rcvBuf sndBuf timeoutMs = .ok t)

include h

/-- A reader only ever finds slots of its own source index. -/
theorem lookupSlot_srcIdx {i : UInt32} {addr : SockAddr} {x : ℕ} (hx : t.lookupSlot i addr = some x) :
    ∃ s, t.allSlots[x]? = some s ∧ s.srcIdx = i := by
  obtain ⟨fds, -, hb⟩ := ConnTable.create_built h
  rw [ConnTable.lookupSlot, hb.byEntry] at hx
  obtain hmem | hnone := mem_of_lookup_insertAll hx
  · obtain ⟨s, hs, hkey⟩ := mem_slotEntries.mp hmem
    exact ⟨s, hs, (entryKey_inj.mp hkey).1⟩
  · rw [AList.lookup_empty] at hnone
    cases hnone

theorem create_lastSeen {x : ℕ} {s : ConnSlot} (hs : t.allSlots[x]? = some s) :
    s.lastSeen = host.startMs := by
  obtain ⟨fds, -, hb⟩ := ConnTable.create_built h
  rw [hb.allSlots] at hs
  obtain ⟨p, -, hp⟩ := List.mem_flatMap.mp (List.mem_of_getElem? hs)
  obtain ⟨dst, -, hdst⟩ := List.mem_flatMap.mp hp
  obtain ⟨src, -, rfl⟩ := List.mem_map.mp hdst
  rfl

end

/-- What holds between the slots, the clock and the readers. A reader's clock
value is no older than what the slots of its own source index say. -/
structure Seen (startMs : UInt64) (t : ConnTable) (st : State) : Prop where
  fixed : fixed st.table = fixed t
  seen_le : ∀ (x : ℕ) s, st.table.allSlots[x]? = some s → s.lastSeen ≤ st.clock
  now_le : ∀ i now addrs, st.readers i = .hearing now addrs → now ≤ st.clock
  pending : ∀ i now addrs, st.readers i = .hearing now addrs → ∀ (x : ℕ) s,
    st.table.allSlots[x]? = some s → s.srcIdx = i → s.lastSeen ≤ now
  writer : ∀ w ∈ st.stores, ∃ s, st.table.allSlots[w.slot]? = some s ∧ s.srcIdx = w.srcIdx
  latest : ∀ (x : ℕ) s, st.table.allSlots[x]? = some s → s.lastSeen = newest startMs st.stores x
  bound : ∀ w ∈ st.stores, ∀ s, st.table.allSlots[w.slot]? = some s → w.now ≤ s.lastSeen

section

variable {host : Host} {peers : PeerTable} {self : Fin peers.peers.length} {rcvBuf sndBuf : ℤ}
variable {timeoutMs : UInt64} {t : ConnTable}
variable (h : ConnTable.create host peers self rcvBuf sndBuf timeoutMs = .ok t)

include h

theorem seen_start {st : State} (hst : Start host.startMs t st) : Seen host.startMs t st := by
  have hslot {x : ℕ} {s : ConnSlot} (hs : st.table.allSlots[x]? = some s) : s.lastSeen = host.startMs := by
    rw [hst.table] at hs
    exact create_lastSeen h hs
  have hwait {i : UInt32} {now : UInt64} {addrs : List SockAddr} (hr : st.readers i = .hearing now addrs) :
      False := by
    rw [hst.readers] at hr
    cases hr
  have hnone {w : Store} (hw : w ∈ st.stores) : False := by
    rw [hst.stores] at hw
    cases hw
  constructor
  case fixed => exact congrArg fixed hst.table
  case seen_le =>
    intro x s hs
    rw [hslot hs]
    exact hst.clock
  case now_le => exact fun i now addrs hr ↦ (hwait hr).elim
  case pending => exact fun i now addrs hr ↦ (hwait hr).elim
  case writer => exact fun w hw ↦ (hnone hw).elim
  case latest =>
    intro x s hs
    rw [hslot hs, hst.stores]
    rfl
  case bound => exact fun w hw ↦ (hnone hw).elim

omit h in
theorem now_le_step {startMs : UInt64} {st st' : State} (hi : Seen startMs t st) (hstep : Step st st')
    {i : UInt32} {now : UInt64} {addrs : List SockAddr} (hr : st'.readers i = .hearing now addrs) :
    now ≤ st'.clock := by
  rcases step_readers hstep hr with ⟨addrs', hr⟩ | rfl
  · exact UInt64.le_trans (hi.now_le i now addrs' hr) (step_clock hstep)
  · exact step_clock hstep

omit h in
theorem seen_quiet {startMs : UInt64} {st st' : State} (hi : Seen startMs t st) (hstep : Step st st')
    (hfixed : Threads.fixed st'.table = Threads.fixed st.table)
    (hslots : st'.table.allSlots = st.table.allSlots) (hstores : st'.stores = st.stores) :
    Seen startMs t st' where
  fixed := hfixed.trans hi.fixed
  seen_le x s hs := UInt64.le_trans (hi.seen_le x s (hslots ▸ hs)) (step_clock hstep)
  now_le _ _ _ hr := now_le_step hi hstep hr
  pending i now addrs hr x s hs hsrc := by
    rw [hslots] at hs
    rcases step_readers hstep hr with ⟨addrs', hr⟩ | rfl
    · exact hi.pending i now addrs' hr x s hs hsrc
    · exact hi.seen_le x s hs
  writer w hw := by
    rw [hslots]
    exact hi.writer w (hstores ▸ hw)
  latest x s hs := by
    rw [hstores]
    exact hi.latest x s (hslots ▸ hs)
  bound w hw s hs := hi.bound w (hstores ▸ hw) s (hslots ▸ hs)

/-- What a store of a reader finds: a slot of its own, last heard no later. -/
theorem seen_found {startMs : UInt64} {st : State} (hi : Seen startMs t st) {i : UInt32} {now : UInt64}
    {addr : SockAddr} {addrs : List SockAddr} (hr : st.readers i = .hearing now (addr :: addrs)) {slot : ℕ}
    (hfound : st.table.lookupSlot i addr = some slot) :
    ∃ s, st.table.allSlots[slot]? = some s ∧ s.srcIdx = i ∧ s.lastSeen ≤ now := by
  rw [lookupSlot_of_fixed hi.fixed] at hfound
  obtain ⟨s₀, hs₀, hsrc⟩ := lookupSlot_srcIdx h hfound
  obtain ⟨lastSeen, hs⟩ := slots_of_fixed hi.fixed.symm hs₀
  exact ⟨_, hs, hsrc, hi.pending i now _ hr slot _ hs hsrc⟩

/-- A datagram from a known source, and the store for it. -/
theorem seen_stored {startMs : UInt64} {st st' : State} (hi : Seen startMs t st) (hstep : Step st st')
    {i : UInt32} {now : UInt64} {addr : SockAddr} {addrs : List SockAddr} {slot : ℕ}
    (reader : st.readers i = .hearing now (addr :: addrs)) (found : st.table.lookupSlot i addr = some slot)
    (table : st'.table = { st.table with
      allSlots := st.table.allSlots.modify slot fun s ↦ { s with lastSeen := now } })
    (stores : st'.stores = st.stores ++ [⟨i, slot, now⟩]) : Seen startMs t st' := by
  obtain ⟨s₀, hs₀, hsrc₀, hle₀⟩ := seen_found h hi reader found
  have hnow := hi.now_le i now _ reader
  have hself : st'.table.allSlots[slot]? = some { s₀ with lastSeen := now } := by
    rw [table, List.getElem?_modify_eq, hs₀]
    rfl
  have hother {x : ℕ} (hx : slot ≠ x) : st'.table.allSlots[x]? = st.table.allSlots[x]? := by
    rw [table, List.getElem?_modify_ne _ _ hx]
  constructor
  case fixed =>
    have hhear : st'.table = UdpReader.hear st.table i addr now := by
      rw [table, UdpReader.hear, found]
    rw [hhear, fixed_hear, hi.fixed]
  case seen_le =>
    intro x s hs
    by_cases hx : slot = x
    · subst hx
      obtain rfl := Option.some.inj (hself.symm.trans hs)
      exact UInt64.le_trans hnow (step_clock hstep)
    · exact UInt64.le_trans (hi.seen_le x s (hother hx ▸ hs)) (step_clock hstep)
  case now_le => exact fun _ _ _ hr ↦ now_le_step hi hstep hr
  case pending =>
    intro j now' addrs' hr x s hs hsrc
    by_cases hx : slot = x
    · -- only the reader that has just stored can have this slot pending
      subst hx
      obtain rfl := Option.some.inj (hself.symm.trans hs)
      obtain rfl : i = j := hsrc₀.symm.trans hsrc
      rcases step_readers hstep hr with ⟨addrs'', hr⟩ | rfl
      · rw [reader] at hr
        cases hr
        exact UInt64.le_refl now
      · exact hnow
    · rw [hother hx] at hs
      rcases step_readers hstep hr with ⟨addrs'', hr⟩ | rfl
      · exact hi.pending j now' addrs'' hr x s hs hsrc
      · exact hi.seen_le x s hs
  case writer =>
    intro w hw
    rw [stores, List.mem_append, List.mem_singleton] at hw
    rcases hw with hw | rfl
    · obtain ⟨s, hs, hsrc⟩ := hi.writer w hw
      by_cases hx : slot = w.slot
      · rw [← hx, hs₀] at hs
        obtain rfl := Option.some.inj hs
        exact ⟨{ s₀ with lastSeen := now }, hx ▸ hself, hsrc⟩
      · exact ⟨s, by rw [hother hx, hs], hsrc⟩
    · exact ⟨{ s₀ with lastSeen := now }, hself, hsrc₀⟩
  case latest =>
    intro x s hs
    rw [stores]
    by_cases hx : slot = x
    · subst hx
      obtain rfl := Option.some.inj (hself.symm.trans hs)
      exact (newest_append_self startMs st.stores ⟨i, slot, now⟩).symm
    · rw [newest_append_ne startMs st.stores hx]
      exact hi.latest x s (hother hx ▸ hs)
  case bound =>
    intro w hw s hs
    rw [stores, List.mem_append, List.mem_singleton] at hw
    rcases hw with hw | rfl
    · by_cases hx : slot = w.slot
      · rw [← hx] at hs
        obtain rfl := Option.some.inj (hself.symm.trans hs)
        exact UInt64.le_trans (hi.bound w hw s₀ (hx ▸ hs₀)) hle₀
      · exact hi.bound w hw s (hother hx ▸ hs)
    · obtain rfl := Option.some.inj (hself.symm.trans hs)
      exact UInt64.le_refl now

theorem seen_step {startMs : UInt64} {st st' : State} (hi : Seen startMs t st) (hstep : Step st st') :
    Seen startMs t st' := by
  cases step_table hstep with
  | same table stores => exact seen_quiet hi hstep (by rw [table]) (by rw [table]) stores
  | unknown _ _ _ table stores => exact seen_quiet hi hstep (by rw [table]) (by rw [table]) stores
  | drew readers table stores =>
    exact seen_quiet hi hstep (by rw [table, fixed_draw]) (by rw [table]; rfl) stores
  | stored reader _ found table stores => exact seen_stored h hi hstep reader found table stores

theorem seen_of_reachable {st : State} (hst : Reachable host.startMs t st) : Seen host.startMs t st :=
  hst.invariant (fun _ hst ↦ seen_start h hst) fun _ _ _ hi hstep ↦ seen_step h hi hstep

theorem lastSeen_step {st st' : State} (hst : Reachable host.startMs t st) (hstep : Step st st') {x : ℕ}
    {s s' : ConnSlot} (hs : st.table.allSlots[x]? = some s) (hs' : st'.table.allSlots[x]? = some s') :
    s.lastSeen ≤ s'.lastSeen := by
  have hi := seen_of_reachable h hst
  cases step_table hstep with
  | same table stores =>
    rw [table, hs] at hs'
    exact Option.some.inj hs' ▸ UInt64.le_refl _
  | unknown _ _ _ table stores =>
    rw [table, hs] at hs'
    exact Option.some.inj hs' ▸ UInt64.le_refl _
  | drew readers table stores =>
    rw [table, draw, hs] at hs'
    exact Option.some.inj hs' ▸ UInt64.le_refl _
  | @stored i now addr addrs slot reader _ found table stores =>
    rw [table] at hs'
    by_cases hx : slot = x
    · subst hx
      obtain ⟨s₀, hs₀, -, hle₀⟩ := seen_found h hi reader found
      rw [List.getElem?_modify_eq, hs₀] at hs'
      obtain rfl := Option.some.inj hs'
      obtain rfl := Option.some.inj (hs.symm.trans hs₀)
      exact hle₀
    · rw [List.getElem?_modify_ne _ _ hx, hs] at hs'
      exact Option.some.inj hs' ▸ UInt64.le_refl _

theorem lastSeen_steps {st st' : State} (hst : Reachable host.startMs t st) (hsteps : Steps st st') {x : ℕ}
    {s s' : ConnSlot} (hs : st.table.allSlots[x]? = some s) (hs' : st'.table.allSlots[x]? = some s') :
    s.lastSeen ≤ s'.lastSeen := by
  obtain ⟨st₀, hstart, hsteps₀⟩ := hst
  induction hsteps generalizing s' with
  | refl => exact Option.some.inj (hs.symm.trans hs') ▸ UInt64.le_refl _
  | @tail st₁ st₂ hsteps hstep ih =>
    have hst₁ : Reachable host.startMs t st₁ := ⟨st₀, hstart, hsteps₀.trans hsteps⟩
    have hfixed := (seen_of_reachable h hst₁).fixed.trans
      (seen_of_reachable h (hst₁.step hstep)).fixed.symm
    obtain ⟨lastSeen, hs₁⟩ := slots_of_fixed hfixed.symm hs'
    exact UInt64.le_trans (ih hs₁) (lastSeen_step h hst₁ hstep hs₁ hs')

/-- In every state that is reached, under any interleaving of the readers with
each other and with the senders. -/
structure LivenessLaw (startMs : UInt64) (t : ConnTable) (st : State) : Prop where
  fixed : fixed st.table = fixed t
  writer : ∀ w ∈ st.stores, ∃ s, st.table.allSlots[w.slot]? = some s ∧ s.srcIdx = w.srcIdx
  latest : ∀ (x : ℕ) s, st.table.allSlots[x]? = some s → s.lastSeen = newest startMs st.stores x
  bound : ∀ w ∈ st.stores, ∀ s, st.table.allSlots[w.slot]? = some s → w.now ≤ s.lastSeen
  step : ∀ st', Step st st' → TableStep st st'
  mono : ∀ st', Steps st st' → ∀ (x : ℕ) s s', st.table.allSlots[x]? = some s →
    st'.table.allSlots[x]? = some s' → s.lastSeen ≤ s'.lastSeen

/-- No update is lost: a slot was last seen when the latest batch with a
datagram for it that has been stored was received. -/
theorem reachable_livenessLaw {st : State} (hst : Reachable host.startMs t st) :
    LivenessLaw host.startMs t st := by
  have hi := seen_of_reachable h hst
  refine ⟨hi.fixed, hi.writer, hi.latest, hi.bound, fun st' hstep ↦ step_table hstep, ?_⟩
  intro st' hsteps x s s' hs hs'
  exact lastSeen_steps h hst hsteps hs hs'

end

def samplePeers : PeerTable :=
  addPeer (addPeer .empty 0x0a000001 (.inet 7000 0x010200c0) []) 0x0a000002 (.inet 7000 0x020200c0)
    [.inet 7000 0x026433c6]

def sampleTable : ConnTable where
  timeoutMs := 1000
  srcFds := [3]
  conns := [⟨0x0a000002, 1000, [0, 1], 0⟩]
  allSlots := [⟨.inet 7000 0x010200c0, 3, 0, .inet 7000 0x020200c0, 0⟩,
    ⟨.inet 7000 0x010200c0, 3, 0, .inet 7000 0x026433c6, 0⟩]
  byVip := (∅ : AList fun _ : UInt64 ↦ ℕ).insert 0x0a000002 0
  byEntry := ((∅ : AList fun _ : UInt64 ↦ ℕ).insert 0x020200c0 0).insert 0x026433c6 1

theorem create_sampleTable :
    ConnTable.create sampleHost samplePeers ⟨0, by decide⟩ 0 0 1000 = .ok sampleTable := rfl

/-- The threads when a packet for that peer has just come, at 1000 ms. -/
def sampleStart : State := ⟨sampleTable, 1000, fun _ ↦ .waiting, [.idle], .sleeping, [], fun _ ↦ 0, [], []⟩

theorem start_sample : Start 0 sampleTable sampleStart :=
  ⟨rfl, by decide, fun _ ↦ rfl, by simp [sampleStart], rfl, rfl, fun _ ↦ rfl, rfl, rfl⟩

def heardReaders : UInt32 → Reader :=
  Function.update (Function.update (Function.update sampleStart.readers 0 (.received [.inet 7000 0x020200c0])) 0
    (.hearing 1001 [.inet 7000 0x020200c0])) 0 (.hearing 1001 [])

/-- The sender has read the clock, and a datagram of the peer has come since. -/
def sampleHeard : State :=
  { sampleStart with
    clock := 1001
    readers := heardReaders
    senders := [.sending 0 1000 1]
    table := { sampleTable with
      allSlots := [⟨.inet 7000 0x010200c0, 3, 0, .inet 7000 0x020200c0, 1001⟩,
        ⟨.inet 7000 0x010200c0, 3, 0, .inet 7000 0x026433c6, 0⟩] }
    stores := [⟨0, 0, 1001⟩] }

theorem sample_heard : Steps sampleStart sampleHeard := by
  have h₁ : Step sampleStart _ := .send (i := 0) 0 1 rfl
  have h₂ : Step { sampleStart with senders := [.sending 0 1000 1] } _ := .tick (show _ ≤ (1001 : UInt64) by decide)
  have h₃ : Step { sampleStart with senders := [.sending 0 1000 1], clock := 1001 } _ :=
    .recvmmsg (i := 0) [.inet 7000 0x020200c0] rfl
  have h₄ : Step { sampleStart with
      senders := [.sending 0 1000 1]
      clock := 1001
      readers := Function.update sampleStart.readers 0 (.received [.inet 7000 0x020200c0]) } _ :=
    .readClock (i := 0) rfl
  have h₅ : Step { sampleStart with
      senders := [.sending 0 1000 1]
      clock := 1001
      readers := Function.update (Function.update sampleStart.readers 0 (.received [.inet 7000 0x020200c0])) 0
        (.hearing 1001 [.inet 7000 0x020200c0]) } _ :=
    .hear (i := 0) rfl
  exact ((((Relation.ReflTransGen.single h₁).tail h₂).tail h₃).tail h₄).tail h₅

theorem reachable_livenessLaw_sample : ∃ st, Reachable 0 sampleTable st ∧ st.stores = [⟨0, 0, 1001⟩] ∧
    LivenessLaw 0 sampleTable st := by
  have hst : Reachable 0 sampleTable sampleHeard := ⟨sampleStart, start_sample, sample_heard⟩
  exact ⟨sampleHeard, hst, rfl, reachable_livenessLaw create_sampleTable hst⟩

end Gofra.LastSeen
