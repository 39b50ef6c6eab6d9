import Gofra.Obligations

namespace Gofra.Refinement

open Lib.Calls Lib.Chunks Lib.Network Lib.Interleaving Addr Peers Gso Conns Kernel TunReader Dispatch UdpReader Tunnel
open Destination Mesh Delivery Plane Processes Obligations

variable {peers : PeerTable} {sites : Sites peers}

/-- What all threads have to hand on. -/
abbrev Owing (st : State sites) (total : Multiset (Parcel peers)) : Prop :=
  Debt (fun i ↦ ledger (naming peers) (sites i.1).table i.1) (fun i ↦ Keeps (runnable i)) st.rest total

/-- The hosts are in the state `n` of a packet network: its packets are those
that the threads have to hand on and those that are on the underlay. -/
structure Simulates (st : State sites) (n : Net (Parcel peers)) : Prop where
  run : Net.Run st.world.log n
  inFlight : ∃ total, Owing st total ∧ n.inFlight = total + st.world.net.inFlight.filterMap cargo
  copied : n.copied = st.world.net.copied.filterMap cargo
  whole : ∀ x ∈ n.inFlight, virtioNetHdrLen + 20 ≤ x.2.length

theorem length_withHeader (p : List UInt8) : (withHeader p).length = virtioNetHdrLen + p.length := by
  rw [withHeader, List.length_append, List.length_replicate]

theorem simulates_start {st : State sites} (h : Start sites st) : Simulates st Net.empty where
  run := by
    rw [h.log]
    exact .start
  inFlight := by
    refine ⟨0, debt_start fun i ↦ ?_, ?_⟩
    · obtain ⟨s, hs, hfresh⟩ := h.rest i
      rw [hs]
      exact ⟨rfl, fresh_keeps hfresh⟩
    · rw [h.net]
      rfl
  copied := by
    rw [h.net]
    rfl
  whole x hx := absurd hx (Multiset.notMem_zero x)

/-- What the datagrams that have come to a host carry. -/
theorem arrived_cargo (hd : Distinct peers) {a : Fin peers.peers.length} {dst : SockAddr}
    (hdst : dst ∈ (peers.at a).dsts)
    {dgs : List Dgram} (h : ∀ d ∈ dgs, d.dst = dst) :
    dgs.filterMap cargo = ((dgs.map Dgram.payload).filter (· ≠ [])).map fun p ↦ (a, withHeader p) := by
  induction dgs with
  | nil => rfl
  | cons d dgs ih =>
    obtain ⟨rfl, hrest⟩ := List.forall_mem_cons.mp h
    rw [List.map_cons, List.filter_cons]
    by_cases hnil : d.payload = []
    · have hnone : cargo d = (none : Option (Parcel peers)) := if_pos hnil
      rw [List.filterMap_cons_none hnone, ih hrest, hnil]
      rfl
    · have hsome : cargo d = some (a, withHeader d.payload) := carried_eq (hostAt_eq hd hdst) hnil
      rw [List.filterMap_cons_some hsome, ih hrest, if_pos (by simpa using hnil)]
      rfl

section Step

variable {st : State sites} {n : Net (Parcel peers)} (h : Simulates st n)
include h

/-- A call that changes nothing that packets have to do with. -/
theorem simulates_quiet {rest : ThreadId sites → Thread Local} {w : World peers} {total : Multiset (Parcel peers)}
    (howing : Owing ⟨rest, w⟩ total) (hflight : n.inFlight = total + st.world.net.inFlight.filterMap cargo)
    (hnet : w.net = st.world.net) (hlog : w.log = st.world.log) : Simulates ⟨rest, w⟩ n where
  run := by
    rw [hlog]
    exact h.run
  inFlight := ⟨total, howing, by rw [hnet]; exact hflight⟩
  copied := by
    rw [hnet]
    exact h.copied
  whole := h.whole

/-- A call that fails loses what it should have handed on. -/
theorem simulates_lose {rest : ThreadId sites → Thread Local} {ms total : Multiset (Parcel peers)}
    (howing : Owing ⟨rest, st.world⟩ total)
    (hflight : n.inFlight = ms + total + st.world.net.inFlight.filterMap cargo) :
    ∃ n', Simulates ⟨rest, st.world⟩ n' := by
  rw [add_assoc] at hflight
  obtain ⟨n', hrun, hn', hcopied⟩ := h.run.lose hflight
  refine ⟨n', hrun, ⟨total, howing, hn'⟩, hcopied.trans h.copied, fun x hx ↦ h.whole x ?_⟩
  rw [hflight]
  exact Multiset.mem_add.mpr (.inr (hn' ▸ hx))

/-- What a call hands on is on the underlay then. -/
theorem simulates_send {rest : ThreadId sites → Thread Local} {total : Multiset (Parcel peers)} {dgs : List Dgram}
    (howing : Owing ⟨rest, { st.world with net := st.world.net.send dgs }⟩ total)
    (hflight : n.inFlight = ((dgs.filterMap cargo : List (Parcel peers)) : Multiset (Parcel peers)) + total +
      st.world.net.inFlight.filterMap cargo) :
    Simulates ⟨rest, { st.world with net := st.world.net.send dgs }⟩ n where
  run := h.run
  inFlight := by
    refine ⟨total, howing, ?_⟩
    change _ = total + (st.world.net.inFlight + (dgs : Multiset Dgram)).filterMap cargo
    rw [Multiset.filterMap_add, Multiset.filterMap_coe, hflight]
    abel
  copied := h.copied
  whole := h.whole

/-- What a read brings in is accepted. -/
theorem simulates_read {rest : ThreadId sites → Thread Local} {t : ConnTable} {sc : Scratch} {data : List UInt8}
    {pkts : List (List UInt8)} (hdata : FromTun t data) (hpkts : Packets t sc data pkts)
    {others : Multiset (Parcel peers)}
    (howing : Owing ⟨rest, { st.world with log := st.world.log ++ [.sent (parcels peers data pkts)] }⟩
      (others + (parcels peers data pkts : Multiset (Parcel peers))))
    (hflight : n.inFlight = others + st.world.net.inFlight.filterMap cargo) :
    Simulates ⟨rest, { st.world with log := st.world.log ++ [.sent (parcels peers data pkts)] }⟩
      (n.send (parcels peers data pkts)) where
  run := h.run.send _
  inFlight := by
    refine ⟨_, howing, ?_⟩
    change n.inFlight + _ = _
    rw [hflight]
    exact add_right_comm ..
  copied := h.copied
  whole x hx := by
    rcases Multiset.mem_add.mp hx with hx | hx
    · exact h.whole x hx
    · have hx := Multiset.mem_coe.mp hx
      rw [parcels, Naming.parcels] at hx
      split at hx
      · exact absurd hx List.not_mem_nil
      · obtain ⟨p, hp, rfl⟩ := List.mem_map.mp hx
        rw [length_withHeader]
        exact Nat.add_le_add_left (packets_whole hdata hpkts p hp) _

theorem simulates_write {rest : ThreadId sites → Thread Local} {x : Parcel peers} {others : Multiset (Parcel peers)}
    (howing : Owing ⟨rest, { st.world with log := st.world.log ++ [.delivered x] }⟩ others)
    (hflight : n.inFlight = {x} + others + st.world.net.inFlight.filterMap cargo) :
    ∃ n', Simulates ⟨rest, { st.world with log := st.world.log ++ [.delivered x] }⟩ n' := by
  rw [add_assoc, Multiset.singleton_add] at hflight
  obtain ⟨n', hrun, hn', hcopied⟩ := h.run.receive hflight
  refine ⟨n', hrun, ⟨others, howing, hn'⟩, hcopied.trans h.copied, fun y hy ↦ h.whole y ?_⟩
  rw [hflight]
  exact Multiset.mem_cons_of_mem (hn' ▸ hy)

/-- What comes to a socket goes from the underlay to the thread that has received it. -/
theorem simulates_receive (hd : Distinct peers) {rest : ThreadId sites → Thread Local} {a : Fin peers.peers.length}
    {dst : SockAddr} (hdst : dst ∈ (peers.at a).dsts) {dgs : List Dgram} {ds : List Datagram} {net : Net Dgram}
    (hnet : Lib.Network.Delivery st.world.net dgs net) (harrived : Arrived dst dgs ds)
    {others : Multiset (Parcel peers)}
    (howing : Owing ⟨rest, { st.world with net }⟩ (others +
      (((ds.flatMap ReceiveLoop.tunWrites).map fun x ↦ (a, x.flatten) : List (Parcel peers)) :
        Multiset (Parcel peers))))
    (hflight : n.inFlight = others + st.world.net.inFlight.filterMap cargo) :
    Simulates ⟨rest, { st.world with net }⟩ n := by
  have hcargo := arrived_cargo hd hdst (arrived_dst harrived)
  have hunder : st.world.net.inFlight.filterMap cargo =
      net.inFlight.filterMap cargo + ((dgs.filterMap cargo : List (Parcel peers)) : Multiset (Parcel peers)) := by
    rw [hnet.inFlight, Multiset.filterMap_add, Multiset.filterMap_coe]
  have hwhole : ∀ p ∈ dgs.map Dgram.payload, p ≠ [] → 20 ≤ p.length := by
    intro p hp hne
    have hmem : (a, withHeader p) ∈ dgs.filterMap cargo := by
      rw [hcargo]
      exact List.mem_map_of_mem (List.mem_filter.mpr ⟨hp, by simpa using hne⟩)
    have hlen := h.whole (a, withHeader p) (by
      rw [hflight, hunder]
      exact Multiset.mem_add.mpr (.inr (Multiset.mem_add.mpr (.inr (Multiset.mem_coe.mpr hmem)))))
    rw [length_withHeader] at hlen
    omega
  have hwrites := reported_writes (arrived_reported harrived) hwhole
  have hnew : (ds.flatMap ReceiveLoop.tunWrites).map (fun x ↦ ((a, x.flatten) : Parcel peers)) =
      dgs.filterMap cargo := by
    rw [hcargo]
    have hpairs := congrArg (List.map fun x ↦ ((a, x) : Parcel peers)) hwrites
    rwa [List.map_map, List.map_map] at hpairs
  rw [hnew] at howing
  refine ⟨h.run, ⟨_, howing, ?_⟩, ?_, h.whole⟩
  · rw [hflight, hunder]
    abel
  · exact h.copied.trans (congrArg _ hnet.copied.symm)

theorem simulates_fault {net : Net Dgram} (hf : Fault st.world.net net) :
    ∃ n', Simulates ⟨st.rest, { st.world with net }⟩ n' := by
  obtain ⟨total, howing, hflight⟩ := h.inFlight
  cases hf with
  | @lose m rest hm =>
    rw [hm] at hflight
    cases hx : (cargo m : Option (Parcel peers)) with
    | none =>
      rw [Multiset.filterMap_cons_none _ _ hx] at hflight
      exact ⟨n, h.run, ⟨total, howing, hflight⟩, h.copied, h.whole⟩
    | some x =>
      rw [Multiset.filterMap_cons_some _ _ _ hx, ← Multiset.singleton_add, add_left_comm] at hflight
      obtain ⟨n', hrun, hn', hcopied⟩ := h.run.lose hflight
      refine ⟨n', hrun, ⟨total, howing, hn'⟩, hcopied.trans h.copied, fun y hy ↦ h.whole y ?_⟩
      rw [hflight]
      exact Multiset.mem_add.mpr (.inr (hn' ▸ hy))
  | @copy m hm =>
    cases hx : (cargo m : Option (Parcel peers)) with
    | none =>
      refine ⟨n, h.run, ⟨total, howing, hflight.trans ?_⟩, h.copied.trans ?_, h.whole⟩
      · rw [Multiset.filterMap_cons_none _ _ hx]
      · rw [Multiset.filterMap_cons_none _ _ hx]
    | some x =>
      have hmem : x ∈ n.inFlight := by
        rw [hflight]
        exact Multiset.mem_add.mpr (.inr ((Multiset.mem_filterMap _ _).mpr ⟨m, hm, hx⟩))
      obtain ⟨n', hrun, hn', hcopied⟩ := h.run.copy hmem
      refine ⟨n', hrun, ⟨total, howing, ?_⟩, ?_, fun y hy ↦ ?_⟩
      · rw [hn', hflight, Multiset.filterMap_cons_some _ _ _ hx, Multiset.add_cons]
      · rw [hcopied, h.copied, Multiset.filterMap_cons_some _ _ _ hx]
      · rw [hn'] at hy
        rcases Multiset.mem_cons.mp hy with rfl | hy
        · exact h.whole y hmem
        · exact h.whole y hy

/-- Each call of a thread is no step of the packet network, or some steps. -/
theorem simulates_call (hready : ∀ a, (sites a).Ready peers a) (hd : Distinct peers)
    (hgives : ∀ a data, (sites a).gives data → FromTun (sites a).table data) {i : ThreadId sites} {c : Act}
    {k : Ans c → Thread Local} {r : Ans c} {w : World peers} (hi : st.rest i = .call c k)
    (hr : Answer (sites i.1) i.1 st.world c r w) :
    ∃ n', Simulates ⟨Function.update st.rest i (k r), w⟩ n' := by
  obtain ⟨total, howing, hflight⟩ := h.inFlight
  obtain ⟨others, rfl, hput⟩ := howing.call hi
  have hother (hc : takesIn c = false) : Owing ⟨Function.update st.rest i (k r), w⟩ others := by
    have howing' := hput r 0 (.other hc r)
    rwa [add_zero] at howing'
  have hidle (hpays : pays (naming peers) i.1 c = 0) : n.inFlight = others + st.world.net.inFlight.filterMap cargo := by
    rw [hflight]
    change pays (naming peers) i.1 c + others + _ = _
    rw [hpays, zero_add]
  cases hr with
  | read hdata hpkts =>
    have hfrom := hgives i.1 _ hdata
    exact ⟨_, simulates_read h hfrom hpkts (hput _ _ (.read hfrom hpkts)) (hidle rfl)⟩
  | readFailed err =>
    exact ⟨n, simulates_quiet h (hput _ _ (.readFailed err)) (by rw [add_zero]; exact hidle rfl) rfl rfl⟩
  | recvmmsg hb hnet harrived hrecv =>
    obtain ⟨j, -, hdst⟩ := ((hready i.1).bound _ _).mp hb
    exact ⟨n, simulates_receive h hd (List.mem_of_getElem? hdst) hnet harrived (hput _ _ (.recvmmsg hrecv)) (hidle rfl)⟩
  | recvmmsgFailed err =>
    exact ⟨n, simulates_quiet h (hput _ _ (.recvmmsgFailed err)) (by rw [add_zero]; exact hidle rfl) rfl rfl⟩
  | @sendto fd src dst pkt hb =>
    refine ⟨n, simulates_send h (hother rfl) (hflight.trans ?_)⟩
    rw [List.filterMap_cons, List.filterMap_nil]
    change (((naming peers).carried dst pkt).toList : Multiset (Parcel peers)) + others + _ = _
    rw [cargo]
    cases (naming peers).carried dst pkt <;> rfl
  | @sendmsg fd src dst iov gsoSize hb =>
    refine ⟨n, simulates_send h (hother rfl) (hflight.trans ?_)⟩
    rw [List.filterMap_map]
    rfl
  | sendtoFailed err => exact simulates_lose h (hother rfl) hflight
  | sendmsgFailed err => exact simulates_lose h (hother rfl) hflight
  | write x => exact simulates_write h (hother rfl) hflight
  | writeFailed err => exact simulates_lose h (hother rfl) hflight
  | nowMs | fetchLastSeen | addAndFetchRr | storeLastSeen | warnErrno | warn | print | usleep | sleep =>
    exact ⟨n, simulates_quiet h (hother rfl) (hidle rfl) rfl rfl⟩

theorem simulates_again (hready : ∀ a, (sites a).Ready peers a) (hd : Distinct peers) {i : ThreadId sites} {s : Local}
    (hi : st.rest i = .ret s) :
    Simulates ⟨Function.update st.rest i (turn (sites i.1).table (runnable i) s), st.world⟩ n := by
  obtain ⟨total, howing, hflight⟩ := h.inFlight
  obtain ⟨host, rcvBuf, sndBuf, timeoutMs, hcreate⟩ := (hready i.1).created
  have hroutes := create_routes hcreate
  exact simulates_quiet h (howing.again hi fun hs ↦ owes_turn (fits_naming hd hroutes) hroutes hs) hflight rfl rfl

theorem simulates_env {w : World peers} (hw : Env st.world w) : ∃ n', Simulates ⟨st.rest, w⟩ n' := by
  obtain ⟨total, howing, hflight⟩ := h.inFlight
  cases hw with
  | tick => exact ⟨n, simulates_quiet h howing hflight rfl rfl⟩
  | fault hf => exact simulates_fault h hf

end Step

theorem simulates_step (hready : ∀ a, (sites a).Ready peers a) (hd : Distinct peers)
    (hgives : ∀ a data, (sites a).gives data → FromTun (sites a).table data) {st st' : State sites}
    (h : ∃ n, Simulates st n) (hstep : Step (system sites) st st') : ∃ n, Simulates st' n := by
  obtain ⟨n, hn⟩ := h
  cases hstep with
  | call hi hr => exact simulates_call hn hready hd hgives hi hr
  | again hi => exact ⟨n, simulates_again hn hready hd hi⟩
  | env hw => exact simulates_env hn hw

/-- What is seen of all hosts at their TUNs can be seen of a network for packets,
which loses and reorders them, and copies what the underlay has copied. No
thread has run into anything undefined. -/
structure PacketNetwork (st : State sites) : Prop where
  run : ∃ n, Net.Run st.world.log n ∧ n.copied = st.world.net.copied.filterMap cargo
  account : ∃ left : Multiset (Parcel peers),
    ((st.world.log.flatMap Obs.deliveredOf : List (Parcel peers)) : Multiset (Parcel peers)) + left =
      ((st.world.log.flatMap Obs.sentOf : List (Parcel peers)) : Multiset (Parcel peers)) +
        st.world.net.copied.filterMap cargo
  defined : ∀ i e, st.rest i ≠ .fail e

/-- Whatever the order in which the threads of all hosts make their calls and
access what they share, they are together a network for packets, as long as the
TUNs give out reads that the code copes with. -/
theorem reachable_packetNetwork (hready : ∀ a, (sites a).Ready peers a) (hd : Distinct peers)
    (hgives : ∀ a data, (sites a).gives data → FromTun (sites a).table data) {st : State sites}
    (h : Processes.Reachable sites st) : PacketNetwork st := by
  have hsim : ∃ n, Simulates st n :=
    h.invariant (P := fun st ↦ ∃ n, Simulates st n) (fun st h₀ ↦ ⟨_, simulates_start h₀⟩)
      fun st st' hi hstep ↦ simulates_step hready hd hgives hi hstep
  obtain ⟨n, hn⟩ := hsim
  obtain ⟨total, howing, -⟩ := hn.inFlight
  obtain ⟨hsent, hdelivered⟩ := hn.run.seen
  have hbalance := hn.run.conserved.balance
  rw [hsent, hdelivered, hn.copied, add_assoc] at hbalance
  exact ⟨⟨n, hn.run, hn.copied⟩, ⟨_, hbalance⟩, fun i e ↦ howing.not_fail i e⟩

/-- One `tunReader` on each of two hosts, of which the first has read a
super-packet for the second. -/
theorem reachable_packetNetwork_sample : ∃ (sites : Sites SlotKeys.twoHosts) (st : State sites) (s₁ s₂ s₃ : List UInt8),
    Processes.Reachable sites st ∧ PacketNetwork st ∧
      st.world.log = [.sent ([s₁, s₂, s₃].map fun p ↦ (⟨1, by decide⟩, withHeader p))] := by
  choose tables htables using create_sampleHost SlotKeys.twoHosts
  have hd : Distinct SlotKeys.twoHosts := distinct_of_nodup (by decide) (by decide)
  let sites : Sites SlotKeys.twoHosts := fun a ↦ ⟨tables a,
    fun fd ↦ if (tables a).srcFds = [fd] then (SlotKeys.twoHosts.at a).dsts[0]? else none, (· = Routing.superRead),
    [.tunReader 9]⟩
  have hready (a : Fin SlotKeys.twoHosts.peers.length) : (sites a).Ready SlotKeys.twoHosts a := by
    have hone : ∀ a : Fin SlotKeys.twoHosts.peers.length, (SlotKeys.twoHosts.at a).dsts.length = 1 := by decide
    obtain ⟨fds, hfds, hb⟩ := ConnTable.create_built (htables a)
    obtain ⟨fd₀, rfl⟩ := List.length_eq_one_iff.mp (hfds.trans (hone a))
    obtain ⟨dst₀, hdst₀⟩ := List.length_eq_one_iff.mp (hone a)
    refine ⟨⟨_, _, _, _, htables a⟩, fun fd dst ↦ ?_⟩
    simp only [sites, hb.srcFds, hdst₀]
    simp [List.getElem?_singleton]
  have hgives (a) (data : List UInt8) (h : (sites a).gives data) : FromTun (sites a).table data := by
    obtain rfl : data = Routing.superRead := h
    exact superRead_fromTun _
  let st₀ : State sites := ⟨fun _ ↦ .ret (.tun Mtu.packetScratch), tables, fun _ ↦ 0, Net.empty, []⟩
  have hstart : Start sites st₀ := by
    refine ⟨fun i ↦ ⟨_, rfl, ?_⟩, fun _ ↦ rfl, rfl, rfl⟩
    obtain ⟨a, j, hj⟩ := i
    obtain rfl : j = 0 := Nat.lt_one_iff.mp hj
    exact .tunReader 9 Mtu.packetScratch
  let i₀ : ThreadId sites := ⟨⟨0, by decide⟩, ⟨0, Nat.zero_lt_one⟩⟩
  have hlook : (tables ⟨0, by decide⟩).lookup 0x0a000002 ≠ none := by
    obtain ⟨fds, -, hb⟩ := ConnTable.create_built (htables ⟨0, by decide⟩)
    have hrow : (SlotKeys.twoHosts.peers.eraseIdx 0)[0]? = some (SlotKeys.twoHosts.at ⟨1, by decide⟩) := rfl
    have hk : (tables ⟨0, by decide⟩).lookup 0x0a000002 = some 0 := SlotTable.lookup_eq hb (by decide) hrow
    exact hk ▸ Option.some_ne_none 0
  obtain ⟨s₁, s₂, s₃, ha, -⟩ := superRead_accepted hlook Mtu.packetScratch
  have hanswer : Answer (sites i₀.1) i₀.1 st₀.world (.read 9 Mtu.packetScratch) (.ok Routing.superRead) _ :=
    .read rfl (.accepted ha)
  let st₁ : State sites := ⟨Function.update st₀.rest i₀ (turn (tables ⟨0, by decide⟩) (.tunReader 9)
    (.tun Mtu.packetScratch)), st₀.world⟩
  have h₁ : Step (system sites) st₀ st₁ := .again (i := i₀) (s := Local.tun Mtu.packetScratch) rfl
  have hrest : st₁.rest i₀ = turn (tables ⟨0, by decide⟩) (.tunReader 9) (.tun Mtu.packetScratch) := by
    change Function.update st₀.rest i₀ _ i₀ = _
    exact Function.update_self ..
  have h₂ : Step (system sites) st₁ _ := .call (i := i₀) (hrest.trans rfl) hanswer
  have hreach : Processes.Reachable sites _ := ⟨st₀, hstart, (Relation.ReflTransGen.single h₁).tail h₂⟩
  exact ⟨sites, _, s₁, s₂, s₃, hreach, reachable_packetNetwork hready hd hgives hreach, rfl⟩

end Gofra.Refinement
