import Gofra.Dispatch
import Gofra.Settings
import Gofra.SlotKeys

namespace Gofra.HotPath

open Lib.LastWins Addr Ini Peers Conns SlotTable Settings NumericStl Dispatch

/-- The loop of `Conn::next` from turn `k` on, reading `slots_[i]` before the test
and `slots_[base]` at the end: the slot it returns and the tests it makes. -/
def scan (c : Conn) (now : UInt64) (load : ℕ → UInt64) (base : ℕ) : (turns k : ℕ) → Option (ℕ × ℕ)
  | 0, _ => c.slots[base]?.map fun slot ↦ (slot, 0)
  | turns + 1, k => do
    let i := (base + k) % c.slots.length
    let slot ← c.slots[i]?
    if alive now (load i) c.timeoutMs then return (slot, 1)
    else
      let (slot, tests) ← scan c now load base turns (k + 1)
      return (slot, tests + 1)

theorem scan_eq {c : Conn} (hc : c.slots ≠ []) (now : UInt64) (load : ℕ → UInt64) {base : ℕ}
    (hbase : base < c.slots.length) (turns k : ℕ) : ∃ tests ≤ turns, ∃ slot ∈ c.slots,
      scan c now load base turns k = some (slot, tests) ∧
      c.slots[(((List.range' k turns).map fun k ↦ (base + k) % c.slots.length).find?
        fun i ↦ alive now (load i) c.timeoutMs).getD base]? = some slot := by
  have hpos := List.length_pos_iff.mpr hc
  induction turns generalizing k with
  | zero =>
    refine ⟨0, le_rfl, c.slots[base], List.getElem_mem hbase, ?_, List.getElem?_eq_getElem hbase⟩
    rw [scan, List.getElem?_eq_getElem hbase, Option.map_some]
  | succ turns ih =>
    have hi : (base + k) % c.slots.length < c.slots.length := Nat.mod_lt _ hpos
    have hslot := List.getElem?_eq_getElem hi
    rw [List.range'_succ, List.map_cons]
    cases ha : alive now (load ((base + k) % c.slots.length)) c.timeoutMs with
    | true =>
      refine ⟨1, by omega, _, List.getElem_mem hi, ?_, ?_⟩
      · rw [scan, hslot]
        simp only [Option.bind_eq_bind, Option.bind_some, ha, if_true]
        rfl
      · simp only [List.find?_cons, ha, Option.getD_some]
        exact hslot
    | false =>
      obtain ⟨tests, hle, slot, hmem, hscan, hfind⟩ := ih (k + 1)
      refine ⟨tests + 1, by omega, slot, hmem, ?_, ?_⟩
      · rw [scan, hslot]
        simp only [Option.bind_eq_bind, Option.bind_some, ha, Bool.false_eq_true, if_false, hscan]
        rfl
      · simp only [List.find?_cons, ha]
        exact hfind

/-- A call finds a slot of its own, reading nothing outside `slots_`, after at
most as many liveness tests as there are slots. -/
def NextSafe (t : ConnTable) (c : Conn) : Prop :=
  ∀ now load, ∃ slot tests, scan c now load (c.rr.toNat % c.slots.length) c.slots.length 0 =
      some (slot, tests) ∧ tests ≤ c.slots.length ∧
    c.next now load = some (slot, { c with rr := c.rr + 1 }) ∧
    slot ∈ c.slots ∧ ∃ s, t.allSlots[slot]? = some s

theorem nextSafe_of_slots {t : ConnTable} {c : Conn} (hc : c.slots ≠ [])
    (h : ∀ x ∈ c.slots, ∃ s, t.allSlots[x]? = some s) : NextSafe t c := by
  intro now load
  have hpos := List.length_pos_iff.mpr hc
  obtain ⟨tests, hle, slot, hmem, hscan, hfind⟩ :=
    scan_eq hc now load (Nat.mod_lt c.rr.toNat hpos) c.slots.length 0
  refine ⟨slot, tests, hscan, hle, ?_, hmem, h slot hmem⟩
  rw [Conn.next, if_neg (by omega)]
  dsimp only
  rw [scanOrder, List.range_eq_range', hfind, Option.map_some]

theorem lookup_vip {t : PeerTable} {vip : UInt32} {i : Fin t.peers.length} (h : t.lookup vip = some i) :
    (t.at i).vip = vip := by
  obtain ⟨k, hk, hlt, rfl⟩ := Option.pmap_eq_some_iff.mp h
  rw [t.indexed] at hlt
  obtain hmem | hnone := mem_of_lookup_insertAll hlt
  · obtain ⟨⟨p, k'⟩, hp, he⟩ := List.mem_map.mp hmem
    obtain ⟨hv, rfl⟩ := Prod.mk.inj he
    obtain ⟨_, hget⟩ := List.getElem?_eq_some_iff.mp (List.mem_zipIdx_iff_getElem?.mp hp)
    have hvip : p.vip = vip := UInt32.toNat_inj.mp (by simpa using congrArg UInt64.toNat hv)
    exact (congrArg Peer.vip hget).trans hvip
  · rw [AList.lookup_empty] at hnone
    cases hnone

/-- What the data path takes for granted of a table, whatever the counters and
the `lastSeen` values are. -/
structure Runnable (peers : PeerTable) (me : Fin peers.peers.length) (t : ConnTable) : Prop where
  conns : t.conns.map Conn.vip = (peers.peers.eraseIdx me).map Peer.vip
  slots : ∀ (k : ℕ) (c : Conn) (p : Peer), t.conns[k]? = some c → (peers.peers.eraseIdx me)[k]? = some p →
    c.slots.length = p.dsts.length * (peers.at me).dsts.length ∧ 1 ≤ c.slots.length
  next : ∀ t', SameShape t t' → ∀ c ∈ t'.conns, NextSafe t' c

theorem create_runnable {host : Host} {peers : PeerTable} {me : Fin peers.peers.length}
    {rcvBuf sndBuf : ℤ} {timeoutMs : UInt64} {t : ConnTable}
    (h : ConnTable.create host peers me rcvBuf sndBuf timeoutMs = .ok t) : Runnable peers me t := by
  obtain ⟨fds, hfds, hb⟩ := ConnTable.create_built h
  have hme := List.length_pos_iff.mpr (peers.at me).nonempty
  have hrow {k : ℕ} {c : Conn} (hc : t.conns[k]? = some c) :
      ∃ p, (peers.peers.eraseIdx me)[k]? = some p ∧ c = ⟨p.vip, timeoutMs,
        List.range' (firstDst (peers.peers.eraseIdx me) k * (peers.at me).dsts.length)
          (p.dsts.length * (peers.at me).dsts.length), 0⟩ := by
    obtain ⟨p, hp, -⟩ := Option.map_eq_some_iff.mp ((hb.conns k).symm.trans hc)
    exact ⟨p, hp, Option.some.inj (hc.symm.trans (conns_eq hfds hb hp))⟩
  constructor
  case conns =>
    apply List.ext_getElem? fun k ↦ ?_
    rw [List.getElem?_map, List.getElem?_map, hb.conns, Option.map_map]
    rfl
  case slots =>
    intro k c p hc hp
    obtain ⟨p', hp', rfl⟩ := hrow hc
    obtain rfl := Option.some.inj (hp.symm.trans hp')
    have hdsts := List.length_pos_iff.mpr p.nonempty
    rw [List.length_range']
    exact ⟨rfl, Nat.mul_pos hdsts hme⟩
  case next =>
    intro t' hs c' hc'
    obtain ⟨k, hk, rfl⟩ := List.getElem_of_mem hc'
    have hconn := congrArg (·[k]?) hs.conns
    simp only [List.getElem?_map, List.getElem?_eq_getElem hk, Option.map_some] at hconn
    obtain ⟨c, hc, heq⟩ := Option.map_eq_some_iff.mp hconn.symm
    obtain ⟨p, hp, rfl⟩ := hrow hc
    obtain ⟨-, -, hslots, -⟩ := Conn.mk.inj heq
    refine nextSafe_of_slots ?_ ?_
    · have hdsts := List.length_pos_iff.mpr p.nonempty
      rw [← hslots, Ne, List.range'_eq_nil_iff]
      exact (Nat.mul_pos hdsts hme).ne'
    · intro x hx
      obtain ⟨s, hxs, -⟩ := conn_slot hfds hb hp (hslots ▸ hx)
      have hall := congrArg (·[x]?) hs.allSlots
      simp only [List.getElem?_map, hxs, Option.map_some] at hall
      obtain ⟨s', hs', -⟩ := Option.map_eq_some_iff.mp hall
      exact ⟨s', hs'⟩

structure Accepted (stl : Stl) (text : Str) (cfg : Settings.Config) (sec : Section) : Prop where
  peersSection : ∃ ini, parseConfig stl text = .ok ini ∧ ini.lookup (str "peers") = some sec
  create : PeerTable.create stl (some sec) = .ok cfg.peers
  keys : ∀ key ∈ sec.keys, key ∈ sec.map
  tunVip : cfg.tunVip ≠ 0
  self : (cfg.peers.at cfg.self).vip = cfg.tunVip
  dsts : ∀ p ∈ cfg.peers.peers, 1 ≤ p.dsts.length

theorem loadConfig_accepted {stl : Stl} {text : Str} {cfg : Settings.Config}
    (h : loadConfig stl text = .ok cfg) : ∃ sec, Accepted stl text cfg sec := by
  obtain ⟨ini, hini, h⟩ := bind_eq_ok h
  obtain ⟨me, -, h⟩ := bind_eq_ok h
  obtain ⟨me, -, h⟩ := bind_eq_ok h
  split at h
  · cases h
  · rename_i hvip
    obtain ⟨peers, hpeers, h⟩ := bind_eq_ok h
    obtain ⟨self, hself, h⟩ := bind_eq_ok h
    obtain ⟨udp, -, h⟩ := bind_eq_ok h
    obtain ⟨probe, -, h⟩ := bind_eq_ok h
    cases h
    obtain ⟨sec, hsec⟩ : ∃ sec, ini.lookup (str "peers") = some sec := by
      obtain ⟨sec, hsec, -⟩ := bind_eq_ok hpeers
      exact ⟨sec, Option.eq_some_of_filter_eq_some (orRaise_eq_ok hsec)⟩
    exact ⟨sec, ⟨ini, hini, hsec⟩, hsec ▸ hpeers, fun key ↦ (sec.mem_keys key).mp, hvip,
      lookup_vip (orRaise_eq_ok hself), fun p _ ↦ List.length_pos_iff.mpr p.nonempty⟩

theorem loadConfig_runnable {stl : Stl} {text : Str} {cfg : Settings.Config}
    (h : loadConfig stl text = .ok cfg) : (∃ sec, Accepted stl text cfg sec) ∧
      ∀ host t, ConnTable.create host cfg.peers cfg.self cfg.udpRecvBuf cfg.udpSendBuf
        cfg.probeTimeoutMs = .ok t → Runnable cfg.peers cfg.self t :=
  ⟨loadConfig_accepted h, fun _ _ ht ↦ create_runnable ht⟩

/-- Two endpoints of our own, and three of two other peers. -/
def meshText : Str := str "[me]\nvip = 10.0.0.1/24\n[peers]\n" ++
  str "10.0.0.1 = 192.0.2.1:7000, 198.51.100.1:7000\n" ++
  str "10.0.0.2 = 192.0.2.2:7000, 198.51.100.2:7000\n10.0.0.3 = 192.0.2.3:7000\n"

theorem loadConfig_runnable_mesh : ∃ cfg sec t c, loadConfig numericStl meshText = .ok cfg ∧
    Accepted numericStl meshText cfg sec ∧ ConnTable.create SlotKeys.sampleHost cfg.peers cfg.self cfg.udpRecvBuf
      cfg.udpSendBuf cfg.probeTimeoutMs = .ok t ∧ t.conns.length = 2 ∧ t.conns[0]? = some c ∧ c.slots = [0, 1, 2, 3] ∧
        Runnable cfg.peers cfg.self t ∧ NextSafe t c := by
  have hrun : (loadConfig numericStl meshText).toOption.any (fun cfg ↦ (ConnTable.create SlotKeys.sampleHost
      cfg.peers cfg.self cfg.udpRecvBuf cfg.udpSendBuf cfg.probeTimeoutMs).toOption.any fun t ↦
        decide (t.conns.length = 2 ∧ t.conns[0]?.map Conn.slots = some [0, 1, 2, 3])) = true := by
    decide +kernel
  obtain ⟨cfg, hcfg, hrun⟩ := ok_of_any hrun
  obtain ⟨t, ht, hrun⟩ := ok_of_any hrun
  obtain ⟨hlen, hslots⟩ := of_decide_eq_true hrun
  obtain ⟨c, hc, hcs⟩ := Option.map_eq_some_iff.mp hslots
  obtain ⟨⟨sec, hsec⟩, hall⟩ := loadConfig_runnable hcfg
  have hrunnable := hall SlotKeys.sampleHost t ht
  exact ⟨cfg, sec, t, c, hcfg, hsec, ht, hlen, hc, hcs, hrunnable,
    hrunnable.next t (.refl t) c (List.mem_of_getElem? hc)⟩

end Gofra.HotPath
