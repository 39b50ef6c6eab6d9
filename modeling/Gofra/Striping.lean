import Gofra.Lib.CyclicScan
import Gofra.SlotKeys
import Gofra.SlotTable

namespace Gofra.Striping

open Lib.Blocks Lib.CyclicScan Addr Peers Conns SlotKeys SlotTable

/-- Consecutive calls of `Conn::next`, each with its time and the `lastSeen`
values that it finds. -/
def nexts (c : Conn) : List (UInt64 × (ℕ → UInt64)) → Option (List ℕ × Conn)
  | [] => some ([], c)
  | call :: calls => do
    let (slot, c) ← c.next call.1 call.2
    let (slots, c) ← nexts c calls
    return (slot :: slots, c)

def AllAlive (c : Conn) (calls : List (UInt64 × (ℕ → UInt64))) : Prop :=
  ∀ call ∈ calls, ∀ i < c.slots.length, alive call.1 (call.2 i) c.timeoutMs = true

theorem next_alive {c : Conn} (hc : c.slots ≠ []) {now : UInt64} {load : ℕ → UInt64}
    (h : ∀ i < c.slots.length, alive now (load i) c.timeoutMs = true) :
    ∃ slot, c.slots[c.rr.toNat % c.slots.length]? = some slot ∧
      c.next now load = some (slot, { c with rr := c.rr + 1 }) := by
  have hpos := List.length_pos_iff.mpr hc
  have hbase := Nat.mod_lt c.rr.toNat hpos
  have hslot := List.getElem?_eq_getElem hbase
  have hfirst : pick c.slots.length (c.rr.toNat % c.slots.length)
      (fun i ↦ alive now (load i) c.timeoutMs) = c.rr.toNat % c.slots.length := by
    have hzero : (c.rr.toNat % c.slots.length + 0) % c.slots.length = c.rr.toNat % c.slots.length := by
      rw [Nat.add_zero, Nat.mod_mod]
    rw [pick_of_first hpos (fun j hj ↦ absurd hj (Nat.not_lt_zero j)) (by rw [hzero]; exact h _ hbase), hzero]
  refine ⟨_, hslot, ?_⟩
  rw [Conn.next, if_neg hpos.ne']
  change (c.slots[pick _ _ _]?.map _) = _
  rw [hfirst, hslot]
  rfl

/-- Calls that find every slot alive walk through the slots from the counter on. -/
theorem nexts_alive {c : Conn} (hc : c.slots ≠ []) {calls : List (UInt64 × (ℕ → UInt64))}
    (h : AllAlive c calls) (hwrap : c.rr.toNat + calls.length ≤ 2 ^ 64) :
    ∃ slots c', nexts c calls = some (slots, c') ∧
      slots.map some = (List.range' c.rr.toNat calls.length).map fun m ↦ c.slots[m % c.slots.length]? := by
  induction calls generalizing c with
  | nil => exact ⟨[], c, rfl, rfl⟩
  | cons call calls ih =>
    obtain ⟨hcall, hcalls⟩ := List.forall_mem_cons.mp h
    obtain ⟨slot, hslot, hnext⟩ := next_alive hc hcall
    rw [List.length_cons] at hwrap
    -- after the last call the counter may be zero again
    have hrange : List.range' (c.rr + 1).toNat calls.length = List.range' (c.rr.toNat + 1) calls.length := by
      rcases Nat.eq_zero_or_pos calls.length with h0 | hpos
      · rw [h0]
        rfl
      · rw [UInt64.toNat_add, UInt64.toNat_one, Nat.mod_eq_of_lt (by omega)]
    have hrest : (c.rr + 1).toNat + calls.length ≤ 2 ^ 64 := by
      rw [UInt64.toNat_add, UInt64.toNat_one]
      omega
    obtain ⟨slots, c', hrun, hslots⟩ := @ih { c with rr := c.rr + 1 } hc hcalls hrest
    refine ⟨slot :: slots, c', ?_, ?_⟩
    · simp only [nexts, Option.bind_eq_bind]
      rw [hnext, Option.bind_some, hrun]
      rfl
    · rw [List.map_cons, hslots, List.length_cons, List.range'_succ, List.map_cons, hslot, ← hrange]

/-- An own endpoint with its socket and its index. -/
def source (s : ConnSlot) : SockAddr × ℤ × UInt32 := (s.srcAddr, s.srcFd, s.srcIdx)

def sources (me : Peer) (fds : List ℤ) : List (SockAddr × ℤ × UInt32) :=
  (me.dsts.zip fds).zipIdx.map fun src ↦ (src.1.1, src.1.2, UInt32.ofNat src.2)

/-- Place `x` holds the slot from own endpoint `i` to endpoint `j` of `p`. -/
def Links (me p : Peer) (t : ConnTable) (i j x : ℕ) : Prop :=
  ∃ s dst, t.allSlots[x]? = some s ∧ p.dsts[j]? = some dst ∧ SlotOf me t.srcFds i dst s

/-- The two ends of the slot at place `x`. -/
def ends (t : ConnTable) (x : ℕ) : Option (SockAddr × SockAddr) :=
  t.allSlots[x]?.map fun s ↦ (s.srcAddr, s.dstAddr)

section Built

variable {me : Peer} {fds : List ℤ} {startMs timeout : UInt64} {ps : List Peer} {t : ConnTable}

theorem sources_slotOf {i : ℕ} {dst : SockAddr} {s : ConnSlot} (h : SlotOf me fds i dst s) :
    (sources me fds)[i]? = some (source s) := by
  have hzip : (me.dsts.zip fds)[i]? = some (s.srcAddr, s.srcFd) :=
    List.getElem?_zip_eq_some.mpr ⟨h.srcAddr, h.srcFd⟩
  rw [sources, List.getElem?_map, List.getElem?_zipIdx, hzip, source, h.srcIdx, Nat.zero_add]
  rfl

variable (hfds : fds.length = me.dsts.length) (h : Built me fds startMs timeout ps t)
include hfds h

section

variable {k : ℕ} {p : Peer} {c : Conn} (hp : ps[k]? = some p) (hc : t.conns[k]? = some c)
include hp hc

theorem conn_links {i j : ℕ} (hi : i < me.dsts.length) (hj : j < p.dsts.length) :
    ∃ x, c.slots[j * me.dsts.length + i]? = some x ∧ Links me p t i j x := by
  obtain rfl := Option.some.inj (hc.symm.trans (conns_eq hfds h hp))
  have hdst := List.getElem?_eq_getElem hj
  obtain ⟨s, hs, hof⟩ := allSlots_slotOf hfds h ((getElem?_firstDst hp hj).trans hdst) hi
  refine ⟨_, List.getElem?_range' (block_lt hi hj), s, _, ?_, hdst, h.srcFds.symm ▸ hof⟩
  rwa [Nat.one_mul, ← Nat.add_assoc, ← Nat.add_mul]

theorem length_slots : c.slots.length = p.dsts.length * me.dsts.length := by
  obtain rfl := Option.some.inj (hc.symm.trans (conns_eq hfds h hp))
  exact List.length_range'

theorem map_ends : c.slots.map (ends t) =
    (p.dsts.flatMap fun dst ↦ me.dsts.map fun src ↦ (src, dst)).map some := by
  have hlength := length_slots hfds h hp hc
  have hblock (dst : SockAddr) : (me.dsts.map fun src ↦ (src, dst)).length = me.dsts.length :=
    List.length_map _
  apply List.ext_getElem?
  intro q
  rw [List.getElem?_map, List.getElem?_map]
  by_cases hq : q < p.dsts.length * me.dsts.length
  · obtain ⟨i, hi, j, hj, rfl⟩ := exists_block hq
    obtain ⟨x, hx, s, dst, hs, hdst, hof⟩ := conn_links hfds h hp hc hi hj
    rw [hx, Option.map_some, ends, hs, Option.map_some, getElem?_flatMap_block hblock hi, hdst,
      Option.bind_some, List.getElem?_map, hof.srcAddr, hof.dstAddr]
    rfl
  · rw [List.getElem?_eq_none (by omega), List.getElem?_eq_none (by rw [length_flatMap_block hblock]; omega)]
    rfl

/-- `N` calls in a row use each own endpoint once. -/
theorem nexts_sources {rr : UInt64} {calls : List (UInt64 × (ℕ → UInt64))} (halive : AllAlive c calls)
    (hlen : calls.length = me.dsts.length) (hwrap : rr.toNat + me.dsts.length ≤ 2 ^ 64) :
    ∃ slots c', nexts { c with rr } calls = some (slots, c') ∧
      (slots.map fun x ↦ t.allSlots[x]?.map source).Perm ((sources me t.srcFds).map some) := by
  have hlength := length_slots hfds h hp hc
  have hpos := Nat.mul_pos (List.length_pos_iff.mpr p.nonempty) (List.length_pos_iff.mpr me.nonempty)
  obtain ⟨slots, c', hrun, hslots⟩ := @nexts_alive { c with rr }
    (List.length_pos_iff.mp (by dsimp only; omega)) calls halive (by dsimp only; omega)
  refine ⟨slots, c', hrun, ?_⟩
  have hsource {q : ℕ} (hq : q < c.slots.length) : (c.slots[q]?.bind fun x ↦ t.allSlots[x]?.map source) =
      (sources me t.srcFds)[q % me.dsts.length]? := by
    obtain ⟨i, hi, j, hj, rfl⟩ := exists_block (hlength ▸ hq)
    obtain ⟨x, hx, s, dst, hs, -, hof⟩ := conn_links hfds h hp hc hi hj
    rw [hx, Option.bind_some, hs, Option.map_some, block_mod hi, sources_slotOf hof]
  have hall : slots.map (fun x ↦ t.allSlots[x]?.map source) =
      ((List.range' rr.toNat me.dsts.length).map (· % me.dsts.length)).map
        fun i ↦ (sources me t.srcFds)[i]? := by
    calc slots.map (fun x ↦ t.allSlots[x]?.map source)
        = (slots.map some).map (·.bind fun x ↦ t.allSlots[x]?.map source) := by
          rw [List.map_map]
          rfl
      _ = (List.range' rr.toNat me.dsts.length).map fun m ↦
            (c.slots[m % c.slots.length]?).bind fun x ↦ t.allSlots[x]?.map source := by
          rw [hslots, List.map_map, hlen]
          rfl
      _ = _ := by
          rw [List.map_map]
          refine List.map_congr_left fun m _ ↦ ?_
          rw [hsource (Nat.mod_lt m (by omega)), hlength, Nat.mod_mul_left_mod]
          rfl
  have hsources : (sources me t.srcFds).length = me.dsts.length := by
    simp [sources, h.srcFds, hfds]
  have hperm := (perm_range'_mod rr.toNat me.dsts.length).map fun i ↦ (sources me t.srcFds)[i]?
  rw [← hall] at hperm
  nth_rewrite 1 [← hsources] at hperm
  rwa [map_getElem?_range] at hperm

/-- `N * M` calls in a row use each slot once. -/
theorem nexts_slots {rr : UInt64} {calls : List (UInt64 × (ℕ → UInt64))} (halive : AllAlive c calls)
    (hlen : calls.length = me.dsts.length * p.dsts.length)
    (hwrap : rr.toNat + me.dsts.length * p.dsts.length ≤ 2 ^ 64) :
    ∃ slots c', nexts { c with rr } calls = some (slots, c') ∧ slots.Perm c.slots := by
  have hlength := length_slots hfds h hp hc
  have hpos := Nat.mul_pos (List.length_pos_iff.mpr p.nonempty) (List.length_pos_iff.mpr me.nonempty)
  rw [Nat.mul_comm, ← hlength] at hlen hwrap
  obtain ⟨slots, c', hrun, hslots⟩ := @nexts_alive { c with rr }
    (List.length_pos_iff.mp (by dsimp only; omega)) calls halive (by dsimp only; omega)
  refine ⟨slots, c', hrun, ?_⟩
  have hperm := (perm_range'_mod rr.toNat c.slots.length).map fun i ↦ c.slots[i]?
  rw [List.map_map, map_getElem?_range] at hperm
  rw [hlen] at hslots
  exact (List.map_perm_map_iff (Option.some_injective ℕ)).mp ((List.Perm.of_eq hslots).trans hperm)

end

omit hfds in
/-- The slots of the first `n` connections are the first ones of the table. -/
theorem take_conns (n : ℕ) : (t.conns.take n).flatMap Conn.slots =
    List.range ((ps.take n).flatMap (slotsTo me fds startMs)).length := by
  induction n with
  | zero => rfl
  | succ n ih =>
    rw [List.take_add_one, List.flatMap_append, ih, h.conns, List.take_add_one, List.flatMap_append]
    cases ps[n]? with
    | none => simp
    | some p =>
      rw [Option.map_some, Option.toList_some, Option.toList_some, List.flatMap_singleton,
        List.flatMap_singleton, List.length_append, List.range_eq_range', List.range_eq_range',
        ← List.range'_append_1, Nat.zero_add]

omit hfds in
theorem flatMap_conns : t.conns.flatMap Conn.slots = List.range t.allSlots.length := by
  have htake := take_conns h ps.length
  rwa [List.take_of_length_le h.length_conns.le, List.take_of_length_le le_rfl, ← h.allSlots] at htake

end Built

/-- The table's slots, as the connections share them out and as visitors see them. -/
structure Visits (peers : PeerTable) (me : Fin peers.peers.length) (t : ConnTable) : Prop where
  vips : t.conns.map Conn.vip = (peers.peers.eraseIdx me).map Peer.vip
  visitSlots : ∀ {σ : Type} (v : σ → ℕ → σ) (s : σ), t.visitSlots v s = (t.conns.flatMap Conn.slots).foldl v s
  once : t.visitSlots (fun seen x ↦ seen ++ [x]) [] = List.range t.allSlots.length

/-- How the connection to `p` joins `N` own endpoints with the endpoints of `p`. -/
structure Striped (me p : Peer) (t : ConnTable) (c : Conn) : Prop where
  vip : c.vip = p.vip
  length : c.slots.length = me.dsts.length * p.dsts.length
  entry : ∀ i < me.dsts.length, ∀ j < p.dsts.length,
    ∃ x, c.slots[j * me.dsts.length + i]? = some x ∧ Links me p t i j x
  count : ∀ src dst, (c.slots.map (ends t)).count (some (src, dst)) = me.dsts.count src * p.dsts.count dst
  sources : ∀ (rr : UInt64) calls, AllAlive c calls → calls.length = me.dsts.length →
    rr.toNat + me.dsts.length ≤ 2 ^ 64 → ∃ slots c', nexts { c with rr } calls = some (slots, c') ∧
      (slots.map fun x ↦ t.allSlots[x]?.map source).Perm ((sources me t.srcFds).map some) ∧
      (t.srcFds.Nodup → (slots.map fun x ↦ t.allSlots[x]?.map ConnSlot.srcFd).Nodup)
  pairs : ∀ (rr : UInt64) calls, AllAlive c calls → calls.length = me.dsts.length * p.dsts.length →
    rr.toNat + me.dsts.length * p.dsts.length ≤ 2 ^ 64 →
      ∃ slots c', nexts { c with rr } calls = some (slots, c') ∧ slots.Perm c.slots

theorem sources_nodup {me : Peer} {fds : List ℤ} (hfds : fds.length = me.dsts.length) {t : ConnTable}
    {slots : List ℕ} (hperm : (slots.map fun x ↦ t.allSlots[x]?.map source).Perm ((sources me fds).map some))
    (hnodup : fds.Nodup) : (slots.map fun x ↦ t.allSlots[x]?.map ConnSlot.srcFd).Nodup := by
  have hsockets : (sources me fds).map (fun src ↦ src.2.1) = fds := by
    conv_rhs => rw [← List.map_snd_zip hfds.le, ← List.zipIdx_map_fst 0 (me.dsts.zip fds), List.map_map]
    rw [sources, List.map_map]
    rfl
  have hfd := hperm.map fun src : Option (SockAddr × ℤ × UInt32) ↦ src.map fun src ↦ src.2.1
  have hall : ((sources me fds).map some).map (fun src ↦ src.map fun src ↦ src.2.1) = fds.map some := by
    conv_rhs => rw [← hsockets, List.map_map]
    rw [List.map_map]
    rfl
  rw [hall, List.map_map] at hfd
  have hslots : slots.map (fun x ↦ t.allSlots[x]?.map ConnSlot.srcFd) = slots.map
      ((fun src : Option (SockAddr × ℤ × UInt32) ↦ src.map fun src ↦ src.2.1) ∘
        fun x ↦ t.allSlots[x]?.map source) := by
    refine List.map_congr_left fun x _ ↦ ?_
    rw [Function.comp_apply, Option.map_map]
    rfl
  rw [hslots]
  exact hfd.nodup_iff.mpr (hnodup.map (Option.some_injective ℤ))

theorem create_striped {host : Host} {peers : PeerTable} {me : Fin peers.peers.length}
    {rcvBuf sndBuf : ℤ} {timeoutMs : UInt64} {t : ConnTable}
    (h : ConnTable.create host peers me rcvBuf sndBuf timeoutMs = .ok t) :
    Visits peers me t ∧ ∀ (k : ℕ) (p : Peer), (peers.peers.eraseIdx me)[k]? = some p →
      ∃ c, t.conns[k]? = some c ∧ Striped (peers.at me) p t c := by
  obtain ⟨fds, hfds, hb⟩ := ConnTable.create_built h
  constructor
  · constructor
    case vips =>
      apply List.ext_getElem? fun k ↦ ?_
      rw [List.getElem?_map, List.getElem?_map, hb.conns, Option.map_map]
      rfl
    case visitSlots =>
      intro σ v s
      rw [ConnTable.visitSlots, flatMap_conns hb]
    case once =>
      rw [ConnTable.visitSlots, List.foldl_append_eq_append, List.nil_append, ← List.flatMap_def]
      exact List.flatMap_singleton' _
  · intro k p hp
    have hc := conns_eq hfds hb hp
    refine ⟨_, hc, ?_⟩
    constructor
    case vip => rfl
    case length => rw [length_slots hfds hb hp hc, Nat.mul_comm]
    case entry => exact fun i hi j hj ↦ conn_links hfds hb hp hc hi hj
    case count =>
      intro src dst
      rw [map_ends hfds hb hp hc, List.count_map_of_injective _ some (Option.some_injective _), count_pairs]
    case sources =>
      intro rr calls halive hlen hwrap
      obtain ⟨slots, c', hrun, hperm⟩ := nexts_sources hfds hb hp hc halive hlen hwrap
      exact ⟨slots, c', hrun, hperm, sources_nodup (hb.srcFds ▸ hfds) hperm⟩
    case pairs =>
      intro rr calls halive hlen hwrap
      exact nexts_slots hfds hb hp hc halive hlen hwrap

/-- Two own endpoints between a peer with one endpoint and a peer with three. -/
def middleHost : PeerTable :=
  addPeer (addPeer (addPeer .empty 0x0a000001 (.inet 7000 0x010200c0) [])
    0x0a000002 (.inet 7000 0x020200c0) [.inet 7000 0x026433c6])
    0x0a000003 (.inet 7000 0x030200c0) [.inet 7000 0x036433c6, .inet 7001 0x036433c6]

theorem create_striped_middle : ∃ t c, ConnTable.create sampleHost middleHost ⟨1, by decide⟩ 0 0 1000 = .ok t ∧
    t.conns[1]? = some c ∧ c.slots = [2, 3, 4, 5, 6, 7] ∧
    Striped (middleHost.at ⟨1, by decide⟩) (middleHost.at ⟨2, by decide⟩) t c := by
  have ht : ConnTable.create sampleHost middleHost ⟨1, by decide⟩ 0 0 1000 = .ok _ := rfl
  obtain ⟨c, hc, hs⟩ := (create_striped ht).2 1 (middleHost.at ⟨2, by decide⟩) rfl
  obtain rfl := Option.some.inj hc
  exact ⟨_, _, ht, hc, rfl, hs⟩

end Gofra.Striping
