import Gofra.Destination
import Gofra.Lib.Network
import Gofra.Threads
import Gofra.Tunnel

namespace Gofra.Mesh

open Lib.Chunks Lib.Network Addr Peers Gso Conns TunReader Dispatch Transmission UdpReader ReceiveLoop Tunnel
open Destination

/-- A datagram on the underlay. -/
structure Dgram where
  src : SockAddr
  dst : SockAddr
  payload : List UInt8
  deriving DecidableEq

/-- The datagrams of a call. The kernel puts the address of the slot's socket on them. -/
def emitted (t : ConnTable) (s : Send) : List Dgram :=
  match t.allSlots[s.slot]? with
  | none => []
  | some slot => (wire s).map fun p ↦ ⟨slot.srcAddr, s.dstAddr, p⟩

/-- The messages that the kernel makes of the datagrams that have come to the
socket of `dst`. It groups datagrams of one source only. -/
inductive Arrived (dst : SockAddr) : List Dgram → List Datagram → Prop
  | nil : Arrived dst [] []
  | single {dgs : List Dgram} {ds : List Datagram} (d : Datagram) (hd : Ungrouped d) (h : Arrived dst dgs ds) :
      Arrived dst (⟨d.addr, dst, d.payload⟩ :: dgs) (d :: ds)
  | group {dgs : List Dgram} {ds : List Datagram} {g : ℕ} {pieces : List (List UInt8)} (d : Datagram)
      (hd : Grouped d g) (hp : Pieces g pieces) (hne : pieces ≠ []) (hpay : d.payload = pieces.flatten)
      (h : Arrived dst dgs ds) : Arrived dst (pieces.map (⟨d.addr, dst, ·⟩) ++ dgs) (d :: ds)

/-- One host: its table, the scratches of its `tunReader` threads and those of
its `udpReader` threads. -/
structure HostState where
  table : ConnTable
  tun : ℕ → Scratch
  udp : ℕ → UdpReaderScratch

/-- All hosts of a [peers] table and the network between them, with the packets
that have been built from what was read from the TUNs and the ones written. -/
structure State (peers : PeerTable) where
  hosts : Fin peers.peers.length → HostState
  net : Net Dgram
  built : List (Fin peers.peers.length × List UInt8)
  written : Fin peers.peers.length → List (List UInt8)

/-- The packets built from a read, none if it is not sent on. -/
inductive Packets (t : ConnTable) (sc : Scratch) (data : List UInt8) : List (List UInt8) → Prop
  | accepted {pkts : List (List UInt8)} (h : Accepted t sc data pkts) : Packets t sc data pkts
  | ignored (h : ∀ pkts, ¬ Accepted t sc data pkts) : Packets t sc data []

variable {peers : PeerTable} {gives : List UInt8 → Prop}

/-- One iteration of a thread of some host, or something the network does. What
the kernels may give out at the TUNs is in `gives`. -/
inductive Step (gives : List UInt8 → Prop) : State peers → State peers → Prop
  | read {st : State peers} (a : Fin peers.peers.length) (i : ℕ) {env : Env} {data : List UInt8}
      {st' : TunReader.State} {sent : List Send} {pkts : List (List UInt8)} (hdata : gives data)
      (hpkts : Packets (st.hosts a).table ((st.hosts a).tun i) data pkts)
      (hrun : tunReader ⟨(st.hosts a).table, (st.hosts a).tun i⟩ env data = some (st', sent)) :
      Step gives st { st with
        hosts := Function.update st.hosts a ⟨st'.conns, Function.update (st.hosts a).tun i st'.sc, (st.hosts a).udp⟩
        net := st.net.send (sent.flatMap (emitted st'.conns))
        built := st.built ++ pkts.map (a, ·) }
  | probe {st : State peers} (a : Fin peers.peers.length) {x : ℕ} {s : ConnSlot}
      (hs : (st.hosts a).table.allSlots[x]? = some s) :
      Step gives st { st with net := st.net.send [⟨s.srcAddr, s.dstAddr, []⟩] }
  | fault {st : State peers} {net : Net Dgram} (h : Fault st.net net) : Step gives st { st with net }
  | receive {st : State peers} (b : Fin peers.peers.length) {j : ℕ} {dst : SockAddr} {dgs : List Dgram}
      {ds : List Datagram} {net : Net Dgram} {sc sc' : UdpReaderScratch} {t : ConnTable} {now : UInt64}
      {outs : List (List TunWrite)} (hj : (peers.at b).dsts[j]? = some dst) (hnet : Delivery st.net dgs net)
      (harrived : Arrived dst dgs ds) (hrecv : Recvmmsg ((st.hosts b).udp j) ds sc)
      (hread : udpReader (st.hosts b).table (UInt32.ofNat j) now sc ds.length = some (t, sc', outs)) :
      Step gives st { st with
        hosts := Function.update st.hosts b ⟨t, (st.hosts b).tun, Function.update (st.hosts b).udp j sc'⟩
        net
        written := Function.update st.written b (st.written b ++ outs.flatten.map List.flatten) }

abbrev Steps (gives : List UInt8 → Prop) : State peers → State peers → Prop := Relation.ReflTransGen (Step gives)

/-- The hosts as they start, with the tables `tables`. -/
structure Start (tables : Fin peers.peers.length → ConnTable) (st : State peers) : Prop where
  table : ∀ a, (st.hosts a).table = tables a
  udp : ∀ a j, ∃ mem, makeUdpReaderScratch mem = some ((st.hosts a).udp j)
  net : st.net = Net.empty
  built : st.built = []
  written : ∀ b, st.written b = []

def Reachable (gives : List UInt8 → Prop) (tables : Fin peers.peers.length → ConnTable) (st : State peers) : Prop :=
  ∃ st₀, Start tables st₀ ∧ Steps gives st₀ st

/-- Every host has built its table from the [peers] table that all of them share. -/
def Tables (tables : Fin peers.peers.length → ConnTable) : Prop :=
  ∀ a, ∃ host rcvBuf sndBuf timeoutMs, ConnTable.create host peers a rcvBuf sndBuf timeoutMs = .ok (tables a)

theorem Reachable.invariant {tables : Fin peers.peers.length → ConnTable} {P : State peers → Prop}
    (hstart : ∀ st, Start tables st → P st) (hstep : ∀ st st', P st → Step gives st st' → P st') {st : State peers}
    (h : Reachable gives tables st) : P st := by
  obtain ⟨st₀, h₀, hsteps⟩ := h
  induction hsteps with
  | refl => exact hstart st₀ h₀
  | tail _ hs ih => exact hstep _ _ ih hs

theorem forall_setHost {hosts : Fin peers.peers.length → HostState} {P : Fin peers.peers.length → HostState → Prop}
    (a : Fin peers.peers.length) {h : HostState} (hself : P a h) (hall : ∀ c, P c (hosts c)) :
    ∀ c, P c (Function.update hosts a h c) :=
  (Function.forall_update_iff hosts P).mpr ⟨hself, fun c _ ↦ hall c⟩

theorem arrived_reported {dst : SockAddr} {dgs : List Dgram} {ds : List Datagram} (h : Arrived dst dgs ds) :
    Reported (dgs.map Dgram.payload) ds := by
  induction h with
  | nil => exact .nil
  | single d hd _ ih => exact .single d hd ih
  | @group dgs ds g pieces d hd hp hne hpay _ ih =>
    rw [List.map_append, List.map_map]
    have hid : (Dgram.payload ∘ fun p ↦ (⟨d.addr, dst, p⟩ : Dgram)) = id := rfl
    rw [hid, List.map_id]
    exact .group d hd hp hne hpay ih

theorem arrived_dst {dst : SockAddr} {dgs : List Dgram} {ds : List Datagram} (h : Arrived dst dgs ds) :
    ∀ d ∈ dgs, d.dst = dst := by
  induction h with
  | nil => exact fun _ hd ↦ absurd hd (List.not_mem_nil)
  | single d hd _ ih =>
    intro d' hd'
    rcases List.mem_cons.mp hd' with rfl | hd'
    · rfl
    · exact ih d' hd'
  | group d hd hp hne hpay _ ih =>
    intro d' hd'
    rcases List.mem_append.mp hd' with hd' | hd'
    · obtain ⟨p, -, rfl⟩ := List.mem_map.mp hd'
      rfl
    · exact ih d' hd'

theorem arrived_src {dst : SockAddr} {dgs : List Dgram} {ds : List Datagram} (h : Arrived dst dgs ds)
    {d : Datagram} (hd : d ∈ ds) : ∃ dg ∈ dgs, dg.src = d.addr := by
  induction h with
  | nil => exact absurd hd List.not_mem_nil
  | single d' _ _ ih =>
    rcases List.mem_cons.mp hd with rfl | hd
    · exact ⟨_, List.mem_cons_self, rfl⟩
    · obtain ⟨dg, hdg, he⟩ := ih hd
      exact ⟨dg, List.mem_cons_of_mem _ hdg, he⟩
  | group d' _ _ hne _ _ ih =>
    rcases List.mem_cons.mp hd with rfl | hd
    · obtain ⟨p, hp⟩ := List.exists_mem_of_ne_nil _ hne
      exact ⟨_, List.mem_append_left _ (List.mem_map_of_mem hp), rfl⟩
    · obtain ⟨dg, hdg, he⟩ := ih hd
      exact ⟨dg, List.mem_append_right _ hdg, he⟩

/-- What a thread of a host keeps of its table. -/
theorem udpReader_sameShape {srcIdx : UInt32} {now : UInt64} {fuel i : ℕ} {t t' : ConnTable}
    {sc sc' : UdpReaderScratch} {outs : List (List TunWrite)}
    (h : udpReaderLoop srcIdx now fuel i t sc = some (t', sc', outs)) : SameShape t t' := by
  induction fuel generalizing i t sc outs with
  | zero =>
    obtain ⟨rfl, -⟩ := Prod.mk.inj (Option.some.inj h)
    exact SameShape.refl _
  | succ fuel ih =>
    rw [udpReaderLoop] at h
    simp only [Option.bind_eq_bind, Option.bind_eq_some_iff] at h
    obtain ⟨m, -, gsoSize, -, out, -, ⟨t₁, sc₁, outs₁⟩, hrest, he⟩ := h
    obtain ⟨rfl, hsc⟩ := Prod.mk.inj (Option.some.inj he)
    obtain ⟨rfl, -⟩ := Prod.mk.inj hsc
    refine SameShape.trans ?_ (ih hrest)
    rw [hear]
    cases t.lookupSlot srcIdx m.addr with
    | none => exact SameShape.refl t
    | some slot =>
      have hslots := @Threads.map_modify_of_eq _ _ (fun s ↦ { s with lastSeen := now })
        (fun s : ConnSlot ↦ { s with lastSeen := 0 }) (fun _ ↦ rfl) t.allSlots slot
      exact ⟨rfl, rfl, rfl, rfl, rfl, hslots⟩

theorem addrLen_le (sa : SockAddr) : addrLen sa ≤ sockaddrStorageLen := by
  cases sa <;> simp [addrLen, sockaddrStorageLen]

theorem hear_slots (t : ConnTable) (srcIdx : UInt32) (addr : SockAddr) (now : UInt64) (x : ℕ) :
    (hear t srcIdx addr now).allSlots[x]? = if t.lookupSlot srcIdx addr = some x then
      t.allSlots[x]?.map fun s ↦ { s with lastSeen := now } else t.allSlots[x]? := by
  rw [hear]
  cases hlook : t.lookupSlot srcIdx addr with
  | none => rw [if_neg (by simp)]
  | some slot =>
    dsimp only
    split
    · rename_i he
      obtain rfl := Option.some.inj he
      exact List.getElem?_modify_eq ..
    · rename_i hne
      exact List.getElem?_modify_ne _ _ fun he ↦ hne (congrArg some he)

theorem hear_lookupSlot (t : ConnTable) (srcIdx : UInt32) (addr : SockAddr) (now : UInt64) (i : UInt32)
    (addr' : SockAddr) : (hear t srcIdx addr now).lookupSlot i addr' = t.lookupSlot i addr' := by
  rw [hear]
  cases t.lookupSlot srcIdx addr <;> rfl

/-- A batch stores its time to the slots that its messages come from, and
changes no other slot. -/
theorem udpReaderLoop_slots (srcIdx : UInt32) (now : UInt64) {ds : List Datagram} {fuel i : ℕ}
    {sc sc' : UdpReaderScratch} {t t' : ConnTable} {outs : List (List TunWrite)} (h : Midway ds i sc)
    (hi : i + fuel = ds.length) (hrun : udpReaderLoop srcIdx now fuel i t sc = some (t', sc', outs)) (x : ℕ) :
    t'.allSlots[x]? = if ∃ d ∈ ds.drop i, t.lookupSlot srcIdx d.addr = some x then
      t.allSlots[x]?.map fun s ↦ { s with lastSeen := now } else t.allSlots[x]? := by
  induction fuel generalizing i t sc outs with
  | zero =>
    obtain ⟨rfl, -⟩ := Prod.mk.inj (Option.some.inj hrun)
    rw [List.drop_of_length_le (by omega), if_neg (by simp)]
  | succ fuel ih =>
    have hlt : i < ds.length := by omega
    obtain ⟨m, m', hm', hm, hdel, hmid⟩ := midway_succ h (List.getElem?_eq_getElem hlt)
    have haddr : m'.addr = ds[i].addr := hdel.addr (hm.namelen ▸ addrLen_le _)
    rw [udpReaderLoop, hm'] at hrun
    simp only [Option.bind_eq_bind, Option.bind_eq_some_iff] at hrun
    obtain ⟨_, hm₁, gsoSize, -, out, -, ⟨t₁, sc₁, outs₁⟩, hrest, he⟩ := hrun
    obtain rfl := Option.some.inj hm₁
    obtain ⟨rfl, hsc⟩ := Prod.mk.inj (Option.some.inj he)
    obtain ⟨rfl, -⟩ := Prod.mk.inj hsc
    rw [haddr] at hrest
    rw [ih hmid (by omega) hrest, hear_slots, List.drop_eq_getElem_cons hlt]
    simp only [hear_lookupSlot, List.exists_mem_cons_iff]
    by_cases hlast : ∃ d ∈ ds.drop (i + 1), t.lookupSlot srcIdx d.addr = some x
    · have hany : t.lookupSlot srcIdx ds[i].addr = some x ∨
          ∃ d ∈ ds.drop (i + 1), t.lookupSlot srcIdx d.addr = some x := .inr hlast
      rw [if_pos hlast, if_pos hany]
      split
      · exact Option.map_map ..
      · rfl
    · rw [if_neg hlast]
      exact if_congr (or_iff_left hlast).symm rfl rfl

/-- Datagrams that come to one socket can be received, say one by one. -/
theorem arrived_any {dst : SockAddr} {dgs : List Dgram} (hdst : ∀ d ∈ dgs, d.dst = dst)
    (hlen : ∀ d ∈ dgs, d.payload.length ≤ msgSize - virtioNetHdrLen) :
    ∃ ds, Arrived dst dgs ds ∧ ds.length = dgs.length := by
  induction dgs with
  | nil => exact ⟨[], .nil, rfl⟩
  | cons d dgs ih =>
    obtain ⟨ds, harrived, heq⟩ := ih (fun d' hd' ↦ hdst d' (List.mem_cons_of_mem _ hd'))
      fun d' hd' ↦ hlen d' (List.mem_cons_of_mem _ hd')
    obtain rfl := hdst d List.mem_cons_self
    refine ⟨_, .single ⟨d.src, d.payload, [], 0, hlen d List.mem_cons_self, Nat.le_refl 0, Nat.zero_le _, ?_, ?_⟩ ?_
      harrived, congrArg (· + 1) heq⟩
    all_goals exact fun h ↦ absurd h (Nat.not_succ_le_zero _)

end Gofra.Mesh
