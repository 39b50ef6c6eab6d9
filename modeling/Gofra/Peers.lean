import Gofra.Lib.LastWins
import Gofra.Ini

namespace Gofra.Peers

open Lib.LastWins Addr Ini

structure Peer where
  vip : UInt32
  dsts : List SockAddr
  nonempty : dsts ≠ []
  deriving DecidableEq

def vipEntries (peers : List Peer) : List (UInt64 × ℕ) :=
  peers.zipIdx.map fun p ↦ (p.1.vip.toUInt64, p.2)

/-- A table of peers, with an index by VIP in which a later row wins. -/
structure PeerTable where
  peers : List Peer
  byVip : AList fun _ : UInt64 ↦ ℕ
  indexed : byVip = insertAll ∅ (vipEntries peers)

def PeerTable.empty : PeerTable where
  peers := []
  byVip := ∅
  indexed := rfl

def PeerTable.add (t : PeerTable) (p : Peer) : PeerTable where
  peers := t.peers ++ [p]
  byVip := t.byVip.insert p.vip.toUInt64 t.peers.length
  indexed := by
    rw [vipEntries, List.zipIdx_append, List.map_append, insertAll_append, ← vipEntries, ← t.indexed,
      Nat.zero_add]
    rfl

abbrev PeerTable.at (t : PeerTable) (i : Fin t.peers.length) : Peer := t.peers.get i

theorem PeerTable.lookup_lt (t : PeerTable) {key : UInt64} {i : ℕ} (h : t.byVip.lookup key = some i) :
    i < t.peers.length := by
  rw [t.indexed] at h
  obtain hmem | hnone := mem_of_lookup_insertAll h
  · obtain ⟨⟨p, i'⟩, hp, he⟩ := List.mem_map.mp hmem
    obtain rfl : i' = i := congrArg Prod.snd he
    have hlt := List.snd_lt_of_mem_zipIdx hp
    omega
  · rw [AList.lookup_empty] at hnone
    cases hnone

/-- The peer of a VIP, by its place in the table. -/
def PeerTable.lookup (t : PeerTable) (vip : UInt32) : Option (Fin t.peers.length) :=
  (t.byVip.lookup vip.toUInt64).pmap Fin.mk fun _ h ↦ t.lookup_lt h

def PeerTable.addRow (stl : Stl) (t : PeerTable) (row : Str × Str) : Except Error PeerTable := do
  let (vip, _) ← parseCIDR stl row.1
  let dsts ← (items stl row.2).mapM (parseSockAddr stl)
  if h : dsts = [] then throw (.raised (str "peer: peer " ++ row.1 ++ str " has no dsts"))
  else return t.add ⟨vip, dsts, h⟩

def PeerTable.create (stl : Stl) (sec : Option Section) : Except Error PeerTable := do
  let sec ← orRaise (sec.filter fun sec ↦ sec.keys ≠ []) (str "peer: empty [peers] section")
  sec.rows.foldlM (PeerTable.addRow stl) .empty

theorem create_noKeys {stl : Stl} {sec : Option Section} (h : ∀ s ∈ sec, s.keys = []) :
    PeerTable.create stl sec = .error (.raised (str "peer: empty [peers] section")) := by
  have hnone : sec.filter (fun sec ↦ sec.keys ≠ []) = none :=
    Option.filter_eq_none_iff.mpr fun s hs ↦ by simpa using h s hs
  rw [PeerTable.create, hnone]
  rfl

end Gofra.Peers
