import Gofra.Automata
import Gofra.HotPath
import Gofra.LastSeen
import Gofra.Startup

namespace Gofra.SharedState

open Lib.Calls Lib.Interleaving Addr Peers Settings Conns Kernel Routing Dispatch Startup HotPath Threads LastSeen
open Plane Processes Obligations Automata

variable {peers : PeerTable}

/-- No two threads are readers for the same source index, and one counts slots. -/
def Apart : Runnable → Runnable → Prop
  | .udpReader _ _ srcIdx, .udpReader _ _ srcIdx' => srcIdx ≠ srcIdx'
  | .slotsStats .., .slotsStats .. => False
  | _, _ => True

theorem Apart.symm {r r' : Runnable} (h : Apart r r') : Apart r' r := by
  cases r <;> cases r' <;> first | exact h | exact Ne.symm h

/-- The threads of a host, of which each works on its own part of the automaton. -/
structure Crew (site : Site) : Prop where
  apart : site.threads.Pairwise Apart
  timeout : ∀ timeoutMs intervalSec, .slotsStats timeoutMs intervalSec ∈ site.threads →
    timeoutMs = site.table.timeoutMs

theorem Crew.apart_of_ne {site : Site} (h : Crew site) {i j : Fin site.threads.length} (hne : j ≠ i) :
    Apart (site.threads.get j) (site.threads.get i) := by
  have hpairs := List.pairwise_iff_get.mp h.apart
  rcases lt_or_gt_of_ne hne with hlt | hlt
  · exact hpairs j i hlt
  · exact (hpairs i j hlt).symm

/-- A host as `run` has started it, up to some thread. -/
structure Started (a : Fin peers.peers.length) (host : Host) (cfg : Config) (site : Site) : Prop where
  created : ConnTable.create host peers a cfg.udpRecvBuf cfg.udpSendBuf cfg.probeTimeoutMs = .ok site.table
  threads : ∃ tunFds, site.threads <+: runnables cfg site.table.srcFds tunFds
  few : site.table.srcFds.length ≤ 2 ^ 32

theorem pairwise_apart (cfg : Config) {srcFds : List ℤ} (tunFds : List ℤ) (h : srcFds.length ≤ 2 ^ 32) :
    (runnables cfg srcFds tunFds).Pairwise Apart := by
  have hindex : ((tunFds.zip srcFds).zipIdx.map Prod.snd).Nodup := by
    rw [List.zipIdx_map_snd]
    exact List.nodup_range'
  have hlt : ∀ q ∈ (tunFds.zip srcFds).zipIdx, q.2 < 2 ^ 32 := by
    rintro ⟨fds, k⟩ hq
    have hk := (List.getElem?_eq_some_iff.mp (List.mem_zipIdx_iff_getElem?.mp hq)).1
    have hle : (tunFds.zip srcFds).length ≤ srcFds.length := by
      rw [List.length_zip]
      exact min_le_right _ _
    exact lt_of_lt_of_le hk (hle.trans h)
  have hpairs : (tunFds.zip srcFds).zipIdx.Pairwise fun q q' ↦ q.2 < 2 ^ 32 ∧ q'.2 < 2 ^ 32 ∧ q.2 ≠ q'.2 :=
    (List.pairwise_map.mp hindex).imp_of_mem fun hq hq' hne ↦ ⟨hlt _ hq, hlt _ hq', hne⟩
  rw [runnables, List.pairwise_append, List.pairwise_flatMap]
  refine ⟨⟨fun q _ ↦ ?_, hpairs.imp ?_⟩, ?_, ?_⟩
  · simp [Apart]
  · rintro q q' ⟨hk, hk', hne⟩ r hr r' hr'
    have hsrc : UInt32.ofNat q.2 ≠ UInt32.ofNat q'.2 := by
      intro he
      have hnat := congrArg UInt32.toNat he
      rw [UInt32.toNat_ofNat_of_lt' hk, UInt32.toNat_ofNat_of_lt' hk'] at hnat
      exact hne hnat
    simp only [List.mem_cons, List.not_mem_nil, or_false] at hr hr'
    rcases hr with rfl | rfl <;> rcases hr' with rfl | rfl <;> trivial
  · simp [Apart]
  · intro r hr r' hr'
    obtain ⟨q, -, hr⟩ := List.mem_flatMap.mp hr
    simp only [List.mem_cons, List.not_mem_nil, or_false] at hr hr'
    rcases hr with rfl | rfl <;> rcases hr' with rfl | rfl <;> trivial

theorem Started.crew {a : Fin peers.peers.length} {host : Host} {cfg : Config} {site : Site}
    (h : Started a host cfg site) : Crew site := by
  obtain ⟨tunFds, hthreads⟩ := h.threads
  obtain ⟨fds, -, hb⟩ := ConnTable.create_built h.created
  refine ⟨(pairwise_apart cfg tunFds h.few).sublist hthreads.sublist, fun timeoutMs intervalSec hmem ↦ ?_⟩
  have hrun := hthreads.subset hmem
  rw [runnables, List.mem_append, List.mem_flatMap] at hrun
  simp only [List.mem_cons, List.not_mem_nil, or_false, reduceCtorEq, false_or, Runnable.slotsStats.injEq, and_false,
    exists_const] at hrun
  exact hrun.1.trans hb.timeoutMs.symm

theorem Started.slots {a : Fin peers.peers.length} {host : Host} {cfg : Config} {site : Site}
    (h : Started a host cfg site) (k : ℕ) (c : Conn) (hc : site.table.conns[k]? = some c) : c.slots ≠ [] := by
  obtain ⟨fds, -, hb⟩ := ConnTable.create_built h.created
  obtain ⟨p, hp, -⟩ := Option.map_eq_some_iff.mp ((hb.conns k).symm.trans hc)
  exact List.length_pos_iff.mp ((create_runnable h.created).slots k c p hc hp).2

/-- Where the `j`-th thread of a host is in the automaton of all its threads,
which has a sender in reserve for each of them. -/
def control (r : Runnable) (j : ℕ) (T : Threads.State) : Control :=
  match r with
  | .tunReader _ => T.senders[j]?.elim .nothing fun s ↦ .sender (forget s)
  | .udpReader _ _ srcIdx => .reader (T.readers srcIdx)
  | .prober _ => .nothing
  | .slotsStats .. => .stats T.stats

section Control

variable {r : Runnable} {j : ℕ} {T T' : Threads.State}

theorem control_sender {s : Sender} (h : control r j T = .sender s) :
    (∃ tunFd, r = .tunReader tunFd) ∧ ∃ s', T.senders[j]? = some s' ∧ forget s' = s := by
  cases r with
  | tunReader tunFd =>
    refine ⟨⟨tunFd, rfl⟩, ?_⟩
    rw [control] at h
    cases hs : T.senders[j]? with
    | none =>
      rw [hs] at h
      cases h
    | some s' =>
      rw [hs] at h
      exact ⟨s', rfl, Control.sender.inj h⟩
  | udpReader | prober | slotsStats => cases h

theorem control_reader {s : Reader} (h : control r j T = .reader s) :
    ∃ udpFd tunFd srcIdx, r = .udpReader udpFd tunFd srcIdx ∧ T.readers srcIdx = s := by
  cases r with
  | udpReader udpFd tunFd srcIdx => exact ⟨udpFd, tunFd, srcIdx, rfl, Control.reader.inj h⟩
  | tunReader tunFd =>
    rw [control] at h
    cases hs : T.senders[j]? <;> rw [hs] at h <;> cases h
  | prober | slotsStats => cases h

theorem control_stats {s : Stats} (h : control r j T = .stats s) :
    (∃ timeoutMs intervalSec, r = .slotsStats timeoutMs intervalSec) ∧ T.stats = s := by
  cases r with
  | slotsStats timeoutMs intervalSec => exact ⟨⟨timeoutMs, intervalSec, rfl⟩, Control.stats.inj h⟩
  | tunReader tunFd =>
    rw [control] at h
    cases hs : T.senders[j]? <;> rw [hs] at h <;> cases h
  | prober | udpReader => cases h

theorem control_set_sender {tunFd : ℤ} {s s' : Sender} (h : T.senders[j]? = some s')
    (hset : T'.senders = T.senders.set j s) : control (.tunReader tunFd) j T' = .sender (forget s) := by
  obtain ⟨hj, -⟩ := List.getElem?_eq_some_iff.mp h
  rw [control, hset, List.getElem?_set_self hj]
  rfl

theorem control_set_reader {udpFd tunFd : ℤ} {srcIdx : UInt32} {s : Reader}
    (hset : T'.readers = Function.update T.readers srcIdx s) :
    control (.udpReader udpFd tunFd srcIdx) j T' = .reader s := by
  rw [control, hset, Function.update_self]

/-- A step of one sender leaves the other threads where they are. -/
theorem control_frame_sender {i : ℕ} {s : Sender} (hj : j ≠ i) (hset : T'.senders = T.senders.set i s)
    (hreaders : T'.readers = T.readers) (hstats : T'.stats = T.stats) : control r j T' = control r j T := by
  cases r with
  | tunReader => rw [control, control, hset, List.getElem?_set_ne (Ne.symm hj)]
  | udpReader => rw [control, control, hreaders]
  | prober => rfl
  | slotsStats => rw [control, control, hstats]

theorem control_frame_reader {srcIdx : UInt32} {s : Reader} (hr : ∀ udpFd tunFd, r ≠ .udpReader udpFd tunFd srcIdx)
    (hset : T'.readers = Function.update T.readers srcIdx s) (hsenders : T'.senders = T.senders)
    (hstats : T'.stats = T.stats) : control r j T' = control r j T := by
  cases r with
  | tunReader => rw [control, control, hsenders]
  | udpReader udpFd tunFd srcIdx' =>
    have hne : srcIdx' ≠ srcIdx := fun h ↦ hr udpFd tunFd (h ▸ rfl)
    rw [control, control, hset, Function.update_of_ne hne]
  | prober => rfl
  | slotsStats => rw [control, control, hstats]

theorem control_frame_stats (hr : ∀ timeoutMs intervalSec, r ≠ .slotsStats timeoutMs intervalSec)
    (hreaders : T'.readers = T.readers) (hsenders : T'.senders = T.senders) :
    control r j T' = control r j T := by
  cases r with
  | tunReader => rw [control, control, hsenders]
  | udpReader => rw [control, control, hreaders]
  | prober => rfl
  | slotsStats timeoutMs intervalSec => exact absurd rfl (hr timeoutMs intervalSec)

end Control

theorem forget_idle {s : Sender} (h : forget s = .idle) : s = .idle := by
  cases s <;> cases h
  rfl

theorem forget_sending {s : Sender} {conn calls : ℕ} {now : UInt64} (h : forget s = .sending conn now calls) :
    s = .sending conn now calls := by
  cases s <;> cases h
  rfl

theorem forget_scanning {s : Sender} {conn calls turn : ℕ} {now ticket : UInt64} {loads : List UInt64}
    (h : forget s = .scanning conn now calls turn ticket loads) :
    ∃ turn, s = .scanning conn now calls turn ticket loads := by
  cases s <;> cases h
  exact ⟨_, rfl⟩

variable {sites : Sites peers}

/-- The automata of all hosts, after steps from `T₀`, have what the hosts' threads have. -/
structure Agree (T₀ : Fin peers.peers.length → Threads.State) (w : World peers)
    (T : Fin peers.peers.length → Threads.State) : Prop where
  steps : ∀ a, Threads.Steps (T₀ a) (T a)
  table : ∀ a, (T a).table = w.tables a
  clock : ∀ a, (T a).clock = w.clocks a

/-- Where a thread is in the automaton of its host. -/
def controlOf (i : ThreadId sites) (T : Fin peers.peers.length → Threads.State) : Control :=
  control (runnable i) i.2 (T i.1)

/-- The host `a` gets what `t` has, and nothing else changes for the automata. -/
structure Gets (a : Fin peers.peers.length) (t : Threads.State) (w w' : World peers) : Prop where
  tables : w'.tables = Function.update w.tables a t.table
  clocks : w'.clocks = Function.update w.clocks a t.clock

section Advance

variable {T₀ T : Fin peers.peers.length → Threads.State} {w w' : World peers} {i : ThreadId sites}
variable {t : Threads.State}

theorem Agree.gets {a : Fin peers.peers.length} (h : Agree T₀ w T) (htable : t.table = (T a).table)
    (hclock : t.clock = (T a).clock) (htables : w'.tables = w.tables) (hclocks : w'.clocks = w.clocks) :
    Gets a t w w' where
  tables := by rw [htables, htable, h.table, Function.update_eq_self]
  clocks := by rw [hclocks, hclock, h.clock, Function.update_eq_self]

/-- One host's automaton makes a step. -/
theorem Agree.step {a : Fin peers.peers.length} (h : Agree T₀ w T) (hstep : Threads.Step (T a) t)
    (hw : Gets a t w w') : Agree T₀ w' (Function.update T a t) := by
  refine ⟨fun b ↦ ?_, fun b ↦ ?_, fun b ↦ ?_⟩
  · by_cases hb : b = a
    · subst hb
      rw [Function.update_self]
      exact (h.steps b).tail hstep
    · rw [Function.update_of_ne hb]
      exact h.steps b
  · rw [hw.tables]
    by_cases hb : b = a
    · subst hb
      rw [Function.update_self, Function.update_self]
    · rw [Function.update_of_ne hb, Function.update_of_ne hb]
      exact h.table b
  · rw [hw.clocks]
    by_cases hb : b = a
    · subst hb
      rw [Function.update_self, Function.update_self]
    · rw [Function.update_of_ne hb, Function.update_of_ne hb]
      exact h.clock b

theorem advance (h : Agree T₀ w T) (hstep : Threads.Step (T i.1) t) (hw : Gets i.1 t w w')
    (hframe : ∀ j : Fin (sites i.1).threads.length, j ≠ i.2 →
      control ((sites i.1).threads.get j) j t = control ((sites i.1).threads.get j) j (T i.1)) :
    ∃ T', Agree T₀ w' T' ∧ controlOf i T' = control (runnable i) i.2 t ∧
      ∀ j, j ≠ i → controlOf j T' = controlOf j T := by
  obtain ⟨a, x⟩ := i
  refine ⟨_, h.step hstep hw, by rw [controlOf, Function.update_self], ?_⟩
  rintro ⟨b, y⟩ hne
  rw [controlOf, controlOf]
  by_cases hb : b = a
  · subst hb
    rw [Function.update_self]
    exact hframe y fun hy ↦ hne (hy ▸ rfl)
  · rw [Function.update_of_ne hb]

theorem advance_sender {s s' : Sender} (h : Agree T₀ w T) (hstep : Threads.Step (T i.1) t)
    (hi : ∃ tunFd, runnable i = .tunReader tunFd) (hs : (T i.1).senders[i.2.val]? = some s)
    (hset : t.senders = (T i.1).senders.set i.2 s') (hreaders : t.readers = (T i.1).readers)
    (hstats : t.stats = (T i.1).stats) (hw : Gets i.1 t w w') :
    ∃ T', Agree T₀ w' T' ∧ controlOf i T' = .sender (forget s') ∧ ∀ j, j ≠ i → controlOf j T' = controlOf j T := by
  obtain ⟨tunFd, hi⟩ := hi
  have hto : control (runnable i) i.2 t = .sender (forget s') := hi ▸ control_set_sender hs hset
  rw [← hto]
  exact advance h hstep hw fun j hj ↦ control_frame_sender (fun e ↦ hj (Fin.ext e)) hset hreaders hstats

theorem advance_reader {udpFd tunFd : ℤ} {srcIdx : UInt32} {s : Reader} (hcrew : Crew (sites i.1))
    (h : Agree T₀ w T) (hstep : Threads.Step (T i.1) t) (hi : runnable i = .udpReader udpFd tunFd srcIdx)
    (hset : t.readers = Function.update (T i.1).readers srcIdx s) (hsenders : t.senders = (T i.1).senders)
    (hstats : t.stats = (T i.1).stats) (hw : Gets i.1 t w w') :
    ∃ T', Agree T₀ w' T' ∧ controlOf i T' = .reader s ∧ ∀ j, j ≠ i → controlOf j T' = controlOf j T := by
  have hto : control (runnable i) i.2 t = .reader s := hi ▸ control_set_reader hset
  rw [← hto]
  refine advance h hstep hw fun j hj ↦ ?_
  have hapart := hcrew.apart_of_ne hj
  refine control_frame_reader (fun udpFd' tunFd' hr ↦ ?_) hset hsenders hstats
  change Apart _ (runnable i) at hapart
  rw [hr, hi] at hapart
  exact hapart rfl

theorem advance_stats (hcrew : Crew (sites i.1)) (h : Agree T₀ w T) (hstep : Threads.Step (T i.1) t)
    (hi : ∃ timeoutMs intervalSec, runnable i = .slotsStats timeoutMs intervalSec)
    (hreaders : t.readers = (T i.1).readers) (hsenders : t.senders = (T i.1).senders) (hw : Gets i.1 t w w') :
    ∃ T', Agree T₀ w' T' ∧ controlOf i T' = .stats t.stats ∧ ∀ j, j ≠ i → controlOf j T' = controlOf j T := by
  obtain ⟨timeoutMs, intervalSec, hi⟩ := hi
  have hto : control (runnable i) i.2 t = .stats t.stats := by rw [hi, control]
  rw [← hto]
  refine advance h hstep hw fun j hj ↦ ?_
  have hapart := hcrew.apart_of_ne hj
  refine control_frame_stats (fun timeoutMs' intervalSec' hr ↦ ?_) hreaders hsenders
  change Apart _ (runnable i) at hapart
  rw [hr, hi] at hapart
  exact hapart

/-- The calls that touch nothing shared leave the tables and the clocks alone. -/
theorem answer_other {site : Site} {a : Fin peers.peers.length} {c : Act} {r : Ans c} (h : Answer site a w c r w')
    (hc : Automata.shared c = false) : w'.tables = w.tables ∧ w'.clocks = w.clocks := by
  cases h with
  | nowMs | addAndFetchRr | fetchLastSeen | storeLastSeen => cases hc
  | _ => exact ⟨rfl, rfl⟩

end Advance

section Simulation

variable {startMs : Fin peers.peers.length → UInt64} {T₀ T : Fin peers.peers.length → Threads.State}
variable {w w' : World peers} {i : ThreadId sites} {s : Control}

theorem Agree.reachable (h : Agree T₀ w T)
    (hreach : ∀ a, Threads.Reachable (startMs a) (sites a).table (T₀ a)) (a : Fin peers.peers.length) :
    Threads.Reachable (startMs a) (sites a).table (T a) := by
  obtain ⟨st₀, hstart, hsteps⟩ := hreach a
  exact ⟨st₀, hstart, hsteps.trans (h.steps a)⟩

variable (hreach : ∀ a, Threads.Reachable (startMs a) (sites a).table (T₀ a)) (hcrew : ∀ a, Crew (sites a))

include hreach hcrew

theorem simulates_silent (h : Agree T₀ w T)
    (hmove : Silent (sites i.1).table (srcIdxOf (runnable i)) (controlOf i T) s) :
    ∃ T', Agree T₀ w T' ∧ controlOf i T' = s ∧ ∀ j, j ≠ i → controlOf j T' = controlOf j T := by
  have hfixed := ((h.reachable hreach) i.1).fixed_eq
  generalize hat : controlOf i T = s₀ at hmove
  cases hmove with
  | sent conn now =>
    obtain ⟨hi, s', hs', hf⟩ := control_sender hat
    obtain rfl := forget_sending hf
    exact advance_sender h (.sent hs') hi hs' rfl rfl rfl (h.gets rfl rfl rfl rfl)
  | @unknown addr hnone now addrs =>
    obtain ⟨udpFd, tunFd, srcIdx, hi, hs⟩ := control_reader hat
    rw [hi, srcIdxOf, ← lookupSlot_of_fixed hfixed] at hnone
    have htable : UdpReader.hear (T i.1).table srcIdx addr now = (T i.1).table := by
      simp only [UdpReader.hear, hnone]
    exact advance_reader (hcrew i.1) h (.hear hs) hi rfl rfl rfl (h.gets htable rfl rfl rfl)
  | batchDone now =>
    obtain ⟨udpFd, tunFd, srcIdx, hi, hs⟩ := control_reader hat
    exact advance_reader (hcrew i.1) h (.batchDone hs) hi rfl rfl rfl (h.gets rfl rfl rfl rfl)
  | @report n hend now aliveCount deadCount =>
    obtain ⟨hi, hs⟩ := control_stats hat
    have hend' : (T i.1).table.allSlots[n]? = none := by
      cases hslot : (T i.1).table.allSlots[n]? with
      | none => rfl
      | some x =>
        obtain ⟨lastSeen, hx⟩ := slots_of_fixed hfixed hslot
        rw [hend] at hx
        cases hx
    exact advance_stats (hcrew i.1) h (.report hs hend') hi rfl rfl (h.gets rfl rfl rfl rfl)

omit hreach hcrew in
/-- A load finds what the automaton's table has, and changes nothing. -/
theorem answer_fetch (h : Agree T₀ w T) {slot : ℕ} {ls : UInt64}
    (hr : Answer (sites i.1) i.1 w (.fetchLastSeen slot) ls w') :
    w' = w ∧ ∃ x, (T i.1).table.allSlots[slot]? = some x ∧ x.lastSeen = ls := by
  cases hr with
  | fetchLastSeen h₁ =>
    rw [← h.table i.1] at h₁
    exact ⟨rfl, _, h₁, rfl⟩

omit hcrew in
theorem simulates_draw (h : Agree T₀ w T) {conn : ℕ} {c : Conn} (hc : (sites i.1).table.conns[conn]? = some c)
    (hslots : c.slots ≠ []) {sum now : UInt64} {calls : ℕ}
    (hr : Answer (sites i.1) i.1 w (.addAndFetchRr conn) sum w')
    (hat : controlOf i T = .sender (.sending conn now (calls + 1))) :
    ∃ T', Agree T₀ w' T' ∧ controlOf i T' = .sender (.scanning conn now calls 0 (sum - 1) []) ∧
      ∀ j, j ≠ i → controlOf j T' = controlOf j T := by
  obtain ⟨hi, s', hs', hf⟩ := control_sender hat
  obtain rfl := forget_sending hf
  obtain ⟨rr, hc'⟩ := conns_of_fixed ((h.reachable hreach) i.1).fixed_eq.symm hc
  cases hr with
  | @addAndFetchRr _ c₁ h₁ =>
    obtain rfl : { c with rr } = c₁ := by
      rw [← h.table i.1, hc'] at h₁
      exact Option.some.inj h₁
    have hticket : rr + 1 - 1 = rr := UInt64.add_sub_cancel rr 1
    change ∃ T', _ ∧ _ = Control.sender (.scanning conn now calls 0 (rr + 1 - 1) []) ∧ _
    rw [hticket]
    refine advance_sender h (.drawTicket hs' hc' hslots) hi hs' rfl rfl rfl ⟨?_, ?_⟩
    · rw [h.table i.1]
    · rw [h.clock, Function.update_eq_self]

theorem simulates_store (h : Agree T₀ w T) {addr : SockAddr} {slot : ℕ}
    (hfound : (sites i.1).table.lookupSlot (srcIdxOf (runnable i)) addr = some slot) {now : UInt64}
    {addrs : List SockAddr} {u : Unit} (hr : Answer (sites i.1) i.1 w (.storeLastSeen slot now) u w')
    (hat : controlOf i T = .reader (.hearing now (addr :: addrs))) :
    ∃ T', Agree T₀ w' T' ∧ controlOf i T' = .reader (.hearing now addrs) ∧
      ∀ j, j ≠ i → controlOf j T' = controlOf j T := by
  obtain ⟨udpFd, tunFd, srcIdx, hi, hs⟩ := control_reader hat
  rw [hi, srcIdxOf, ← lookupSlot_of_fixed ((h.reachable hreach) i.1).fixed_eq] at hfound
  cases hr
  have hstore : UdpReader.hear (T i.1).table srcIdx addr now = storeSeen (T i.1).table slot now := by
    simp only [UdpReader.hear, hfound]
    rfl
  refine advance_reader (hcrew i.1) h (.hear hs) hi rfl rfl rfl ⟨?_, ?_⟩
  · rw [hstore, h.table i.1]
  · rw [h.clock, Function.update_eq_self]

theorem simulates_visible (h : Agree T₀ w T) {c : Act} {r : Ans c} (hr : Answer (sites i.1) i.1 w c r w')
    (hmove : Visible (sites i.1).table (srcIdxOf (runnable i)) c r (controlOf i T) s) :
    ∃ T', Agree T₀ w' T' ∧ controlOf i T' = s ∧ ∀ j, j ≠ i → controlOf j T' = controlOf j T := by
  have hfixed := ((h.reachable hreach) i.1).fixed_eq
  generalize hat : controlOf i T = s₀ at hmove
  cases hmove with
  | other hc =>
    obtain ⟨htables, hclocks⟩ := answer_other hr hc
    refine ⟨T, ⟨h.steps, fun a ↦ ?_, fun a ↦ ?_⟩, hat, fun _ _ ↦ rfl⟩
    · rw [htables, h.table]
    · rw [hclocks, h.clock]
  | send conn calls now =>
    obtain ⟨hi, s', hs', hf⟩ := control_sender hat
    obtain rfl := forget_idle hf
    cases hr
    rw [← h.clock i.1]
    exact advance_sender h (.send conn calls hs') hi hs' rfl rfl rfl (h.gets rfl rfl rfl rfl)
  | drawTicket hc hslots sum now calls => exact simulates_draw hreach h hc hslots hr hat
  | @takeSlot conn slot c now ls ticket loads hc hslot halive calls =>
    obtain ⟨hi, s', hs', hf⟩ := control_sender hat
    obtain ⟨turn, rfl⟩ := forget_scanning hf
    obtain ⟨rr, hc'⟩ := conns_of_fixed hfixed.symm hc
    obtain ⟨rfl, x, hx, rfl⟩ := answer_fetch h hr
    exact advance_sender h (.takeSlot hs' hc' hslot hx halive) hi hs' rfl rfl rfl (h.gets rfl rfl rfl rfl)
  | @skipSlot conn slot c now ls ticket loads hc hslot hdead hmore calls =>
    obtain ⟨hi, s', hs', hf⟩ := control_sender hat
    obtain ⟨turn, rfl⟩ := forget_scanning hf
    obtain ⟨rr, hc'⟩ := conns_of_fixed hfixed.symm hc
    obtain ⟨rfl, x, hx, rfl⟩ := answer_fetch h hr
    exact advance_sender h (.skipSlot hs' hc' hslot hx hdead hmore) hi hs' rfl rfl rfl (h.gets rfl rfl rfl rfl)
  | @allDead conn slot base c now ls ticket loads hc hslot hdead hlast hbase calls =>
    obtain ⟨hi, s', hs', hf⟩ := control_sender hat
    obtain ⟨turn, rfl⟩ := forget_scanning hf
    obtain ⟨rr, hc'⟩ := conns_of_fixed hfixed.symm hc
    obtain ⟨rfl, x, hx, rfl⟩ := answer_fetch h hr
    exact advance_sender h (.allDead hs' hc' hslot hx hdead hlast hbase) hi hs' rfl rfl rfl
      (h.gets rfl rfl rfl rfl)
  | recvmmsg udpFd sc sc' n =>
    obtain ⟨udpFd', tunFd, srcIdx, hi, hs⟩ := control_reader hat
    obtain ⟨htables, hclocks⟩ := answer_other hr rfl
    exact advance_reader (hcrew i.1) h (.recvmmsg _ hs) hi rfl rfl rfl (h.gets rfl rfl htables hclocks)
  | readClock now addrs =>
    obtain ⟨udpFd', tunFd, srcIdx, hi, hs⟩ := control_reader hat
    cases hr
    rw [← h.clock i.1]
    exact advance_reader (hcrew i.1) h (.readClock hs) hi rfl rfl rfl (h.gets rfl rfl rfl rfl)
  | stored hfound now addrs => exact simulates_store hreach hcrew h hfound hr hat
  | survey now =>
    obtain ⟨hi, hs⟩ := control_stats hat
    cases hr
    rw [← h.clock i.1]
    exact advance_stats (hcrew i.1) h (.survey hs) hi rfl rfl (h.gets rfl rfl rfl rfl)
  | count now ls n aliveCount deadCount =>
    obtain ⟨hi, hs⟩ := control_stats hat
    obtain ⟨rfl, x, hx, rfl⟩ := answer_fetch h hr
    have htimeout := congrArg ConnTable.timeoutMs hfixed
    change (T i.1).table.timeoutMs = (sites i.1).table.timeoutMs at htimeout
    rw [← htimeout]
    exact advance_stats (hcrew i.1) h (.count hs hx) hi rfl rfl (h.gets rfl rfl rfl rfl)

omit hreach hcrew in
theorem simulates_env (h : Agree T₀ w T) (hw : Processes.Env w w') :
    ∃ T', Agree T₀ w' T' ∧ ∀ j : ThreadId sites, controlOf j T' = controlOf j T := by
  cases hw with
  | @tick a now hnow =>
    rw [← h.clock a] at hnow
    refine ⟨_, h.step (.tick hnow) ⟨?_, rfl⟩, ?_⟩
    · change w.tables = Function.update w.tables a (T a).table
      rw [h.table, Function.update_eq_self]
    · rintro ⟨b, y⟩
      rw [controlOf, controlOf]
      by_cases hb : b = a
      · subst hb
        rw [Function.update_self]
        rfl
      · rw [Function.update_of_ne hb]
  | fault => exact ⟨T, ⟨h.steps, h.table, h.clock⟩, fun _ ↦ rfl⟩

end Simulation

/-- The automaton of a thread, with the source index that it looks slots up with. -/
def movesOf (i : ThreadId sites) : Moves Act Ans Control := moves (sites i.1).table (srcIdxOf (runnable i))

/-- What a thread has between two turns, and where its automaton is then. -/
def Rests (i : ThreadId sites) (x : Local) (s : Control) : Prop := s = resting (runnable i) ∧ Keeps (runnable i) x

/-- The threads of all hosts are where their automata are in `T`. -/
abbrev Implements (sites : Sites peers) (T₀ : Fin peers.peers.length → Threads.State) :
    Processes.State sites → (Fin peers.peers.length → Threads.State) → Prop :=
  Tracks (system sites) movesOf controlOf Rests (Agree T₀)

/-- An answer brings something in for the ledger, whatever the packets go by. -/
theorem answer_incurs {site : Site} {a : Fin peers.peers.length}
    (hgives : ∀ data, site.gives data → FromTun site.table data) {w w' : World peers} {c : Act} {r : Ans c}
    (h : Answer site a w c r w') (names : Naming peers) : ∃ new, Incurs names site.table a c r new := by
  cases h with
  | read hdata hpkts => exact ⟨_, .read (hgives _ hdata) hpkts⟩
  | readFailed err => exact ⟨_, .readFailed err⟩
  | recvmmsg _ _ _ hrecv => exact ⟨_, .recvmmsg hrecv⟩
  | recvmmsgFailed err => exact ⟨_, .recvmmsgFailed err⟩
  | _ => exact ⟨_, .other rfl _⟩

theorem simulation {startMs : Fin peers.peers.length → UInt64} {T₀ : Fin peers.peers.length → Threads.State}
    (hreach : ∀ a, Threads.Reachable (startMs a) (sites a).table (T₀ a)) (hcrew : ∀ a, Crew (sites a))
    (hslots : ∀ a (k : ℕ) (c : Conn), (sites a).table.conns[k]? = some c → c.slots ≠ [])
    (hroutes : ∀ a, Routes peers a (sites a).table)
    (hgives : ∀ a data, (sites a).gives data → FromTun (sites a).table data) :
    Simulation (system sites) movesOf controlOf Rests (Agree T₀) where
  silent h hmove := simulates_silent hreach hcrew h hmove
  visible h hr hmove := simulates_visible hreach hcrew h hr hmove
  env h hw := simulates_env h hw
  turn {i x s} hs := by
    obtain ⟨rfl, hkeeps⟩ := hs
    have htimeout (timeoutMs intervalSec : UInt64) (hi : runnable i = .slotsStats timeoutMs intervalSec) :
        timeoutMs = (sites i.1).table.timeoutMs :=
      (hcrew i.1).timeout timeoutMs intervalSec (hi ▸ List.get_mem _ _)
    have haccompanies := accompanies_turn (hslots i.1) htimeout x
    refine haccompanies.follows ?_ (owes_turn (fits_const (hroutes i.1) i.1) (hroutes i.1) hkeeps)
    rintro c r ⟨w, w', hr⟩
    exact answer_incurs (hgives i.1) hr _

/-- The automata of all hosts before anything has happened. -/
def idle (sites : Sites peers) (st : Processes.State sites) (a : Fin peers.peers.length) : Threads.State where
  table := (sites a).table
  clock := st.world.clocks a
  readers _ := .waiting
  senders := List.replicate (sites a).threads.length .idle
  stats := .sleeping
  stores := []
  drawn _ := 0
  returns := []
  tests := []

theorem start_idle {startMs : UInt64} {st : Processes.State sites} {a : Fin peers.peers.length}
    (hclock : startMs ≤ st.world.clocks a) : Threads.Start startMs (sites a).table (idle sites st a) where
  table := rfl
  clock := hclock
  readers _ := rfl
  senders _ hs := List.eq_of_mem_replicate hs
  stats := rfl
  stores := rfl
  drawn _ := rfl
  returns := rfl
  tests := rfl

theorem implements_start {st : Processes.State sites} (h : Processes.Start sites st) :
    Implements sites (idle sites st) st (idle sites st) where
  rel := ⟨fun _ ↦ .refl, fun a ↦ (h.tables a).symm, fun _ ↦ rfl⟩
  follows i := by
    obtain ⟨x, hx, hfresh⟩ := h.rest i
    rw [hx]
    refine ⟨_, .refl, ?_, fresh_keeps hfresh⟩
    rw [controlOf]
    cases runnable i with
    | tunReader tunFd =>
      have hreserve : (idle sites st i.1).senders[i.2.val]? = some .idle :=
        List.getElem?_replicate_of_lt i.2.2
      rw [control, hreserve]
      rfl
    | udpReader | prober | slotsStats => rfl

/-- What the threads of all hosts share, however their calls follow each other. -/
structure SharedLaw (host : Fin peers.peers.length → Host) (sites : Sites peers) (st : Processes.State sites) :
    Prop where
  implemented : ∃ T, (∀ a, Threads.Reachable (host a).startMs (sites a).table (T a)) ∧ Implements sites T st T ∧
    ∀ st', Lib.Interleaving.Steps (system sites) st st' → ∃ T', Implements sites T st' T'
  defined : ∀ i e, st.rest i ≠ .fail e
  fixed : ∀ a, fixed (st.world.tables a) = fixed (sites a).table
  heard : ∀ a (x : ℕ) s, (st.world.tables a).allSlots[x]? = some s →
    (host a).startMs ≤ s.lastSeen ∧ s.lastSeen ≤ st.world.clocks a
  mono : ∀ st', Lib.Interleaving.Steps (system sites) st st' → ∀ a (x : ℕ) s s',
    (st.world.tables a).allSlots[x]? = some s → (st'.world.tables a).allSlots[x]? = some s' → s.lastSeen ≤ s'.lastSeen

/-- The loops as they are written refine the automata that the laws of striping,
failover and liveness are about: whatever happens, as long as the TUNs give out
reads that the code copes with, no thread fails, each is somewhere in its
automaton, and what the threads share is what the automata have made of it. -/
theorem reachable_sharedLaw {host : Fin peers.peers.length → Host} {cfg : Fin peers.peers.length → Config}
    (hstarted : ∀ a, Started a (host a) (cfg a) (sites a))
    (hgives : ∀ a data, (sites a).gives data → FromTun (sites a).table data) {st₀ st : Processes.State sites}
    (h₀ : Processes.Start sites st₀) (hclock : ∀ a, (host a).startMs ≤ st₀.world.clocks a)
    (hsteps : Lib.Interleaving.Steps (system sites) st₀ st) : SharedLaw host sites st := by
  have hcrew := fun a ↦ (hstarted a).crew
  have hslots := fun a ↦ (hstarted a).slots
  have hroutes := fun a ↦ create_routes (hstarted a).created
  have hreach₀ : ∀ a, Threads.Reachable (host a).startMs (sites a).table (idle sites st₀ a) :=
    fun a ↦ ⟨_, start_idle (hclock a), .refl⟩
  obtain ⟨T, hT⟩ := (simulation hreach₀ hcrew hslots hroutes hgives).steps (implements_start h₀) hsteps
  have hreach := fun a ↦ hT.rel.reachable hreach₀ a
  have hself : Implements sites T st T := ⟨⟨fun _ ↦ .refl, hT.rel.table, hT.rel.clock⟩, hT.follows⟩
  have hlater (st') (hst' : Lib.Interleaving.Steps (system sites) st st') : ∃ T', Implements sites T st' T' :=
    (simulation hreach hcrew hslots hroutes hgives).steps hself hst'
  refine ⟨⟨T, hreach, hself, hlater⟩, hT.not_fail, fun a ↦ ?_, fun a x s hs ↦ ?_, fun st' hst' a x s s' hs hs' ↦ ?_⟩
  · rw [← hT.rel.table]
    exact (hreach a).fixed_eq
  · rw [← hT.rel.table] at hs
    rw [← hT.rel.clock]
    obtain ⟨lastSeen, hs₀⟩ := slots_of_fixed (hreach a).fixed_eq hs
    have hle := lastSeen_steps (hstarted a).created (hreach₀ a) (hT.rel.steps a) hs₀ hs
    rw [create_lastSeen (hstarted a).created hs₀] at hle
    exact ⟨hle, (seen_of_reachable (hstarted a).created (hreach a)).seen_le x s hs⟩
  · obtain ⟨T', hT'⟩ := hlater st' hst'
    rw [← hT.rel.table] at hs
    rw [← hT'.rel.table] at hs'
    exact lastSeen_steps (hstarted a).created (hreach a) (hT'.rel.steps a) hs hs'

def sampleConfig (a : Fin SlotKeys.twoHosts.peers.length) : Config :=
  ⟨0x0a000001, 24, 1400, str "gofra0", SlotKeys.twoHosts, a, 0, 0, 200, 1000, 10, none⟩

/-- One `tunReader` on each of two hosts, of which the first has read a
super-packet for the second. -/
theorem reachable_sharedLaw_sample : ∃ (sites : Sites SlotKeys.twoHosts) (st₀ st : Processes.State sites),
    Processes.Start sites st₀ ∧ Lib.Interleaving.Steps (system sites) st₀ st ∧ st.world.clocks ⟨0, by decide⟩ = 5 ∧
      st.world.log ≠ [] ∧ SharedLaw (fun _ ↦ SlotKeys.sampleHost) sites st := by
  choose tables htables using Delivery.create_sampleHost SlotKeys.twoHosts
  let sites : Sites SlotKeys.twoHosts := fun a ↦ ⟨tables a, fun _ ↦ none, FromTun (tables a), [.tunReader 9]⟩
  have hstarted (a : Fin SlotKeys.twoHosts.peers.length) :
      Started a SlotKeys.sampleHost (sampleConfig a) (sites a) := by
    have hone : ∀ a : Fin SlotKeys.twoHosts.peers.length, (SlotKeys.twoHosts.at a).dsts.length = 1 := by decide
    obtain ⟨fds, hfds, hb⟩ := ConnTable.create_built (htables a)
    obtain ⟨fd₀, rfl⟩ := List.length_eq_one_iff.mp (hfds.trans (hone a))
    refine ⟨htables a, ⟨[9], ?_⟩, ?_⟩
    · simp only [sites, hb.srcFds]
      exact ⟨_, rfl⟩
    · simp only [sites, hb.srcFds, List.length_singleton]
      decide
  let st₀ : Processes.State sites :=
    ⟨fun _ ↦ .ret (.tun Mtu.packetScratch), tables, fun _ ↦ 0, Lib.Network.Net.empty, []⟩
  have hstart : Processes.Start sites st₀ := by
    refine ⟨fun i ↦ ⟨_, rfl, ?_⟩, fun _ ↦ rfl, rfl, rfl⟩
    obtain ⟨a, j, hj⟩ := i
    obtain rfl : j = 0 := Nat.lt_one_iff.mp hj
    exact .tunReader 9 Mtu.packetScratch
  let a₀ : Fin SlotKeys.twoHosts.peers.length := ⟨0, by decide⟩
  let w : World SlotKeys.twoHosts := { st₀.world with clocks := Function.update st₀.world.clocks a₀ 5 }
  have hle : (0 : UInt64) ≤ 5 := by decide
  have h₁ : Lib.Interleaving.Step (system sites) st₀ ⟨st₀.rest, w⟩ := .env (.tick hle)
  let i₀ : ThreadId sites := ⟨a₀, ⟨0, Nat.zero_lt_one⟩⟩
  let st₁ : Processes.State sites := ⟨Function.update st₀.rest i₀ (turn (tables a₀) (.tunReader 9)
    (.tun Mtu.packetScratch)), w⟩
  have h₂ : Lib.Interleaving.Step (system sites) ⟨st₀.rest, w⟩ st₁ :=
    .again (i := i₀) (s := Local.tun Mtu.packetScratch) rfl
  have hrest : st₁.rest i₀ = turn (tables a₀) (.tunReader 9) (.tun Mtu.packetScratch) := by
    change Function.update st₀.rest i₀ _ i₀ = _
    exact Function.update_self ..
  have hlook : (tables a₀).lookup 0x0a000002 ≠ none := by
    obtain ⟨fds, -, hb⟩ := ConnTable.create_built (htables a₀)
    have hrow : (SlotKeys.twoHosts.peers.eraseIdx 0)[0]? = some (SlotKeys.twoHosts.at ⟨1, by decide⟩) := rfl
    have hk : (tables a₀).lookup 0x0a000002 = some 0 := SlotTable.lookup_eq hb (by decide) hrow
    exact hk ▸ Option.some_ne_none 0
  obtain ⟨s₁, s₂, s₃, ha, -⟩ := Tunnel.superRead_accepted hlook Mtu.packetScratch
  have hanswer : Answer (sites i₀.1) i₀.1 w (.read 9 Mtu.packetScratch) (.ok superRead) _ :=
    .read (superRead_fromTun _) (.accepted ha)
  have h₃ : Lib.Interleaving.Step (system sites) st₁ _ := .call (i := i₀) (hrest.trans rfl) hanswer
  have hsteps := ((Relation.ReflTransGen.single h₁).tail h₂).tail h₃
  have hclock : w.clocks a₀ = 5 := Function.update_self a₀ 5 st₀.world.clocks
  exact ⟨sites, st₀, _, hstart, hsteps, hclock, List.cons_ne_nil _ _,
    reachable_sharedLaw hstarted (fun _ _ h ↦ h) hstart (fun _ ↦ UInt64.le_refl 0) hsteps⟩

end Gofra.SharedState
