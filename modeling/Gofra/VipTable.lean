import Gofra.HotPath

namespace Gofra.VipTable

open Lib.LastWins Addr Ini Peers Conns SlotTable NumericStl

/-- The address that a key of `[peers]` spells, with or without a prefix length. -/
def keyAddr (stl : Stl) (key : Str) : Option UInt32 := (parseCIDR stl key).toOption.map Prod.fst

theorem addRow_vips {stl : Stl} {t t' : PeerTable} {row : Str × Str}
    (h : PeerTable.addRow stl t row = .ok t') :
    t'.peers.map (some ∘ Peer.vip) = t.peers.map (some ∘ Peer.vip) ++ [keyAddr stl row.1] := by
  obtain ⟨⟨vip, prefixLen⟩, hvip, h⟩ := bind_eq_ok h
  obtain ⟨dsts, -, h⟩ := bind_eq_ok h
  split at h
  · cases h
  · cases h
    have hkey : keyAddr stl row.1 = some vip := by
      rw [keyAddr, hvip]
      rfl
    rw [PeerTable.add, List.map_append, hkey]
    rfl

theorem foldlM_addRow_vips {stl : Stl} {rows : List (Str × Str)} {t t' : PeerTable}
    (h : rows.foldlM (PeerTable.addRow stl) t = .ok t') :
    t'.peers.map (some ∘ Peer.vip) = t.peers.map (some ∘ Peer.vip) ++ rows.map (keyAddr stl ∘ Prod.fst) := by
  induction rows generalizing t with
  | nil =>
    cases h
    rw [List.map_nil, List.append_nil]
  | cons row rows ih =>
    rw [List.foldlM_cons] at h
    obtain ⟨t₁, h₁, h⟩ := bind_eq_ok h
    rw [ih h, addRow_vips h₁, List.map_cons, List.append_assoc]
    rfl

theorem create_vips {stl : Stl} {sec : Section} {t : PeerTable}
    (h : PeerTable.create stl (some sec) = .ok t) :
    t.peers.map (some ∘ Peer.vip) = sec.keys.map (keyAddr stl) := by
  obtain ⟨sec', hsec, h⟩ := bind_eq_ok h
  obtain rfl := Option.some.inj (Option.eq_some_of_filter_eq_some (orRaise_eq_ok hsec))
  rw [foldlM_addRow_vips h, ← Section.rows_keys, List.map_map]
  rfl

theorem create_nodup_iff {stl : Stl} {sec : Section} {t : PeerTable}
    (h : PeerTable.create stl (some sec) = .ok t) :
    (t.peers.map Peer.vip).Nodup ↔ (sec.keys.map (keyAddr stl)).Nodup := by
  rw [← create_vips h, ← List.map_map, List.nodup_map_iff (Option.some_injective _)]

structure VipsIdentify (t : PeerTable) : Prop where
  nodup : (t.peers.map Peer.vip).Nodup
  lookup : ∀ i : Fin t.peers.length, t.lookup (t.at i).vip = some i

/-- One connection for each VIP but our own, found by that VIP. -/
structure ConnsPerVip (peers : PeerTable) (me : Fin peers.peers.length) (t : ConnTable) : Prop where
  vips : t.conns.map Conn.vip = (peers.peers.eraseIdx me).map Peer.vip
  one : ∀ vip ∈ (peers.peers.eraseIdx me).map Peer.vip, ∃! k : ℕ, (t.conns.map Conn.vip)[k]? = some vip
  lookup : ∀ (k : ℕ) (c : Conn), t.conns[k]? = some c → t.lookup c.vip = some k
  own : ∀ c ∈ t.conns, c.vip ≠ (peers.at me).vip

theorem lookup_of_nodup {t : PeerTable} (h : (t.peers.map Peer.vip).Nodup) (i : Fin t.peers.length) :
    t.lookup (t.at i).vip = some i := by
  have hkeys : ((vipEntries t.peers).map Prod.fst).Nodup := by
    have hmap : (vipEntries t.peers).map Prod.fst = (t.peers.map Peer.vip).map UInt32.toUInt64 := by
      rw [vipEntries, List.map_map, List.map_map]
      conv_rhs => rw [← List.zipIdx_map_fst 0 t.peers, List.map_map]
      rfl
    rw [hmap]
    refine h.map fun a b hab ↦ UInt32.toNat_inj.mp ?_
    simpa using congrArg UInt64.toNat hab
  have hmem : ((t.at i).vip.toUInt64, i.1) ∈ vipEntries t.peers :=
    List.mem_map.mpr ⟨(t.at i, i.1), List.mem_zipIdx_iff_getElem?.mpr (List.getElem?_eq_getElem i.2), rfl⟩
  have hlook : t.byVip.lookup (t.at i).vip.toUInt64 = some i.1 := by
    rw [t.indexed]
    exact lookup_insertAll_of_nodup hkeys hmem ∅
  exact Option.pmap_some' hlook

theorem create_connsPerVip {peers : PeerTable} (hvip : (peers.peers.map Peer.vip).Nodup) {host : Host}
    {me : Fin peers.peers.length} {rcvBuf sndBuf : ℤ} {timeoutMs : UInt64} {t : ConnTable}
    (h : ConnTable.create host peers me rcvBuf sndBuf timeoutMs = .ok t) : ConnsPerVip peers me t := by
  have hvips := (HotPath.create_runnable h).conns
  obtain ⟨fds, hfds, hb⟩ := ConnTable.create_built h
  have hrest : ((peers.peers.eraseIdx me).map Peer.vip).Nodup :=
    hvip.sublist ((List.eraseIdx_sublist _ _).map _)
  constructor
  case vips => exact hvips
  case one =>
    intro vip hmem
    rw [hvips]
    obtain ⟨k, hk, hv⟩ := List.getElem_of_mem hmem
    refine ⟨k, hv ▸ List.getElem?_eq_getElem hk, fun k' hk' ↦ ?_⟩
    exact ((List.getElem?_inj hk hrest).mp ((List.getElem?_eq_getElem hk).trans (hv ▸ hk'.symm))).symm
  case lookup =>
    intro k c hc
    obtain ⟨p, hp, rfl⟩ := Option.map_eq_some_iff.mp ((hb.conns k).symm.trans hc)
    exact lookup_eq hb hrest hp
  case own =>
    intro c hc hown
    have hmem : (peers.at me).vip ∈ (peers.peers.eraseIdx me).map Peer.vip := by
      rw [← hvips, ← hown]
      exact List.mem_map_of_mem hc
    have hperm := ((List.getElem_cons_eraseIdx_perm me.2).map Peer.vip).nodup_iff.mpr hvip
    rw [List.map_cons, List.nodup_cons] at hperm
    exact hperm.1 hmem

/-- VIPs identify peers exactly when no two keys spell one address. -/
theorem create_vipsIdentify_iff {stl : Stl} {sec : Section} {t : PeerTable}
    (h : PeerTable.create stl (some sec) = .ok t) :
    (VipsIdentify t ∧ ∀ host me rcvBuf sndBuf timeoutMs ct,
      ConnTable.create host t me rcvBuf sndBuf timeoutMs = .ok ct → ConnsPerVip t me ct) ↔
      (sec.keys.map (keyAddr stl)).Nodup := by
  rw [← create_nodup_iff h]
  constructor
  · intro hids
    exact hids.1.nodup
  · intro hvip
    exact ⟨⟨hvip, lookup_of_nodup hvip⟩, fun _ _ _ _ _ _ ↦ create_connsPerVip hvip⟩

/-- One address with and without its prefix length. -/
def twoSpellings : Str := str "[peers]\n10.0.0.1 = 192.0.2.1:7000\n10.0.0.1/24 = 192.0.2.2:7000\n"

theorem two_spellings_accepted : ∃ (ini : Ini.Config) (t : PeerTable),
    parseConfig numericStl twoSpellings = .ok ini ∧
      PeerTable.create numericStl (ini.lookup (str "peers")) = .ok t ∧ ¬ VipsIdentify t := by
  have hrun : (parseConfig numericStl twoSpellings).toOption.any (fun ini ↦
      (PeerTable.create numericStl (ini.lookup (str "peers"))).toOption.any fun t ↦
        decide (¬ (t.peers.map Peer.vip).Nodup)) = true := by
    decide +kernel
  obtain ⟨ini, hini, hrun⟩ := ok_of_any hrun
  obtain ⟨t, ht, hbad⟩ := ok_of_any hrun
  exact ⟨ini, t, hini, ht, fun hids ↦ of_decide_eq_true hbad hids.nodup⟩

/-- Three keys, one of them with a prefix length. -/
def threeKeys : Section := ((Section.empty.assign (str "10.0.0.1") (str "192.0.2.1:7000")).assign (str "10.0.0.2/24")
  (str "192.0.2.2:7000, 198.51.100.2:7000")).assign (str "10.0.0.3") (str "192.0.2.3:7000")

theorem create_vipsIdentify_iff_threeKeys : ∃ (t : PeerTable) (me : Fin t.peers.length) (ct : ConnTable),
    PeerTable.create numericStl (some threeKeys) = .ok t ∧ t.peers.length = 3 ∧ VipsIdentify t ∧
      ConnTable.create SlotKeys.sampleHost t me 0 0 1000 = .ok ct ∧ ct.conns.length = 2 ∧ ConnsPerVip t me ct := by
  have hrun : (PeerTable.create numericStl (some threeKeys)).toOption.any (fun t ↦
      decide (t.peers.length = 3 ∧ ∃ me : Fin t.peers.length,
        (ConnTable.create SlotKeys.sampleHost t me 0 0 1000).toOption.any (fun ct ↦
          decide (ct.conns.length = 2)) = true)) = true := by
    decide +kernel
  obtain ⟨t, ht, hrun⟩ := ok_of_any hrun
  obtain ⟨hlen, me, hrun⟩ := of_decide_eq_true hrun
  obtain ⟨ct, hct, hconns⟩ := ok_of_any hrun
  obtain ⟨hids, hper⟩ := (create_vipsIdentify_iff ht).mpr (by decide)
  exact ⟨t, me, ct, ht, hlen, hids, hct, of_decide_eq_true hconns, hper _ me 0 0 1000 ct hct⟩

end Gofra.VipTable
