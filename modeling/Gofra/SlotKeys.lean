import Gofra.NumericStl
import Gofra.Conns

namespace Gofra.SlotKeys

open Lib.LastWins Addr Ini Peers Conns NumericStl

theorem toNat_entryKey (srcIdx : UInt32) (sa : SockAddr) :
    (entryKey srcIdx sa).toNat = srcIdx.toNat * 2 ^ 32 + sa.sinAddr.toNat := by
  have hi := srcIdx.toNat_lt
  have ha := sa.sinAddr.toNat_lt
  have hs : srcIdx.toNat <<< 32 % 2 ^ 64 = 2 ^ 32 * srcIdx.toNat := by
    rw [Nat.shiftLeft_eq]
    omega
  simp only [entryKey, UInt64.toNat_or, UInt64.toNat_shiftLeft, UInt32.toNat_toUInt64]
  rw [show (32 : UInt64).toNat % 64 = 32 from rfl, hs, ← Nat.two_pow_add_eq_or_of_lt ha, Nat.mul_comm]

theorem entryKey_inj {i i' : UInt32} {d d' : SockAddr} :
    entryKey i d = entryKey i' d' ↔ i = i' ∧ d.sinAddr = d'.sinAddr := by
  constructor
  · intro h
    have hn := congrArg UInt64.toNat h
    have ha := d.sinAddr.toNat_lt
    have ha' := d'.sinAddr.toNat_lt
    rw [toNat_entryKey, toNat_entryKey] at hn
    exact ⟨UInt32.toNat_inj.mp (by omega), UInt32.toNat_inj.mp (by omega)⟩
  · rintro ⟨rfl, h⟩
    rw [entryKey, entryKey, h]

/-- The endpoints of all peers but `self`. -/
def remoteDsts (peers : PeerTable) (self : Fin peers.peers.length) : List SockAddr :=
  (peers.peers.eraseIdx self).flatMap Peer.dsts

/-- Every slot is the one found for its own source index and address. -/
def SelfFound (t : ConnTable) : Prop :=
  ∀ (idx : ℕ) (s : ConnSlot), t.allSlots[idx]? = some s → t.lookupSlot s.srcIdx s.dstAddr = some idx

instance (t : ConnTable) : Decidable (SelfFound t) :=
  decidable_of_iff (∀ idx : Fin t.allSlots.length,
    t.lookupSlot t.allSlots[idx].srcIdx t.allSlots[idx].dstAddr = some idx.1) <| by
    constructor
    · intro h idx s hs
      obtain ⟨hlt, rfl⟩ := List.getElem?_eq_some_iff.mp hs
      exact h ⟨idx, hlt⟩
    · intro h idx
      exact h idx _ (List.getElem?_eq_getElem idx.2)

theorem map_slotEntries (slots : List ConnSlot) : (slotEntries 0 slots).map Prod.fst =
    slots.map fun s ↦ entryKey s.srcIdx s.dstAddr := by
  apply List.ext_getElem? fun k ↦ ?_
  simp only [slotEntries, List.map_map, List.getElem?_map, List.getElem?_zipIdx, Option.map_map]
  rfl

theorem nodup_snd_slotEntries (slots : List ConnSlot) : ((slotEntries 0 slots).map Prod.snd).Nodup := by
  rw [slotEntries, List.map_map, show (Prod.snd ∘ fun s : ConnSlot × ℕ ↦
    (entryKey s.1.srcIdx s.1.dstAddr, s.2)) = Prod.snd from rfl, List.zipIdx_map_snd]
  exact List.nodup_range'

theorem mem_slotEntries {slots : List ConnSlot} {k : UInt64} {idx : ℕ} :
    (k, idx) ∈ slotEntries 0 slots ↔ ∃ s, slots[idx]? = some s ∧ entryKey s.srcIdx s.dstAddr = k := by
  rw [slotEntries, List.mem_map]
  constructor
  · rintro ⟨⟨s, j⟩, hs, he⟩
    cases he
    exact ⟨s, List.mem_zipIdx_iff_getElem?.mp hs, rfl⟩
  · rintro ⟨s, hs, rfl⟩
    exact ⟨(s, idx), List.mem_zipIdx_iff_getElem?.mpr hs, rfl⟩

theorem selfFound_iff_nodup {t : ConnTable} (h : t.byEntry = insertAll ∅ (slotEntries 0 t.allSlots)) :
    SelfFound t ↔ (t.allSlots.map fun s ↦ (s.srcIdx, s.dstAddr.sinAddr)).Nodup := by
  have hself : SelfFound t ↔ ∀ e ∈ slotEntries 0 t.allSlots,
      (insertAll ∅ (slotEntries 0 t.allSlots)).lookup e.1 = some e.2 := by
    rw [← h]
    constructor
    · rintro hf ⟨k, idx⟩ he
      obtain ⟨s, hs, rfl⟩ := mem_slotEntries.mp he
      exact hf idx s hs
    · intro he idx s hs
      exact he (_, idx) (mem_slotEntries.mpr ⟨s, hs, rfl⟩)
  rw [hself, lookup_insertAll_self_iff (nodup_snd_slotEntries _), map_slotEntries]
  constructor
  · intro hk
    refine List.Nodup.of_map (fun p : UInt32 × UInt32 ↦ entryKey p.1 (.inet 0 p.2)) ?_
    rwa [List.map_map]
  · intro hp
    have hinj : Function.Injective fun p : UInt32 × UInt32 ↦ entryKey p.1 (.inet 0 p.2) := by
      intro p p' he
      obtain ⟨h₁, h₂⟩ := entryKey_inj.mp he
      exact Prod.ext h₁ h₂
    have hm := hp.map hinj
    rwa [List.map_map] at hm

theorem map_slotsTo {me : Peer} {fds : List ℤ} (h : fds.length = me.dsts.length) (startMs : UInt64)
    (ps : List Peer) : ((ps.flatMap (slotsTo me fds startMs)).map fun s ↦ (s.srcIdx, s.dstAddr.sinAddr)) =
      ((ps.flatMap Peer.dsts).map SockAddr.sinAddr).flatMap fun d ↦
        ((List.range me.dsts.length).map UInt32.ofNat).map fun i ↦ (i, d) := by
  have hrange : (me.dsts.zip fds).zipIdx.map Prod.snd = List.range me.dsts.length := by
    rw [List.zipIdx_map_snd, List.length_zip, h, Nat.min_self, List.range_eq_range']
  simp only [slotsTo, slotsFor, List.map_flatMap, List.flatMap_assoc, List.flatMap_map, List.map_map, ← hrange]
  rfl

/-- A product of two lists repeats nothing exactly when neither list does. -/
theorem nodup_product_iff {α β : Type} {l : List α} {l' : List β} (h : l' ≠ []) :
    (l.flatMap fun d ↦ l'.map fun i ↦ (i, d)).Nodup ↔ l.Nodup ∧ (l = [] ∨ l'.Nodup) := by
  obtain ⟨i₀, hi₀⟩ := List.exists_mem_of_ne_nil l' h
  rw [List.nodup_flatMap]
  constructor
  · rintro ⟨hin, hout⟩
    refine ⟨hout.imp fun {d d'} hd e ↦ ?_, ?_⟩
    · subst e
      exact hd (List.mem_map.mpr ⟨i₀, hi₀, rfl⟩) (List.mem_map.mpr ⟨i₀, hi₀, rfl⟩)
    · cases l with
      | nil => exact .inl rfl
      | cons d l => exact .inr (hin d List.mem_cons_self).of_map
  · rintro ⟨hl, hl'⟩
    refine ⟨fun d hd ↦ ?_, hl.imp fun {d d'} hne x hx hx' ↦ ?_⟩
    · refine (hl'.resolve_left (List.ne_nil_of_mem hd)).map fun i i' e ↦ ?_
      exact congrArg Prod.fst e
    · obtain ⟨i, -, rfl⟩ := List.mem_map.mp hx
      obtain ⟨i', -, he⟩ := List.mem_map.mp hx'
      exact hne (congrArg Prod.snd he).symm

theorem nodup_range_ofNat (n : ℕ) : ((List.range n).map UInt32.ofNat).Nodup ↔ n ≤ 2 ^ 32 := by
  constructor
  · intro h
    by_contra hn
    have h0 : 0 ∈ List.range n := List.mem_range.mpr (by omega)
    have h1 : 2 ^ 32 ∈ List.range n := List.mem_range.mpr (by omega)
    have he := List.inj_on_of_nodup_map h h0 h1 rfl
    omega
  · intro h
    refine List.nodup_range.map_on fun i hi j hj he ↦ ?_
    have hi := List.mem_range.mp hi
    have hj := List.mem_range.mp hj
    have hn := congrArg UInt32.toNat he
    rw [UInt32.toNat_ofNat_of_lt' (by simp only [UInt32.size]; omega),
      UInt32.toNat_ofNat_of_lt' (by simp only [UInt32.size]; omega)] at hn
    exact hn

/-- The receive path finds every slot exactly when no two endpoints of the
other peers share the word at `sin_addr`; ports do not help. -/
theorem create_selfFound_iff {host : Host} {peers : PeerTable} {self : Fin peers.peers.length}
    {rcvBuf sndBuf : ℤ} {timeoutMs : UInt64} {t : ConnTable}
    (h : ConnTable.create host peers self rcvBuf sndBuf timeoutMs = .ok t) :
    SelfFound t ↔ ((remoteDsts peers self).map SockAddr.sinAddr).Nodup ∧
      (remoteDsts peers self = [] ∨ (peers.at self).dsts.length ≤ 2 ^ 32) := by
  obtain ⟨fds, hfds, hb⟩ := ConnTable.create_built h
  have hne : (List.range (peers.at self).dsts.length).map UInt32.ofNat ≠ [] := by
    have hpos := List.length_pos_iff.mpr (peers.at self).nonempty
    rw [Ne, List.map_eq_nil_iff, List.range_eq_nil]
    omega
  rw [selfFound_iff_nodup hb.byEntry, hb.allSlots, map_slotsTo hfds, nodup_product_iff hne,
    nodup_range_ofNat, List.map_eq_nil_iff]
  rfl

def sampleHost : Host where
  openUdpSocket i _ _ _ := .ok (i + 3)
  startMs := 0

/-- A peer behind two ports of one address. -/
def twoPorts : Str :=
  str "[peers]\n10.0.0.1 = 192.0.2.1:7000\n10.0.0.2 = 192.0.2.2:7000, 192.0.2.2:7001\n"

theorem ports_share_slot : ∃ (ini : Ini.Config) (peers : PeerTable) (self : Fin peers.peers.length)
    (t : ConnTable), parseConfig numericStl twoPorts = .ok ini ∧
      PeerTable.create numericStl (ini.lookup (str "peers")) = .ok peers ∧
      ConnTable.create sampleHost peers self 0 0 1000 = .ok t ∧
      (peers.peers.flatMap Peer.dsts).Nodup ∧ ¬ SelfFound t := by
  have hrun : (parseConfig numericStl twoPorts).toOption.any (fun ini ↦
      (PeerTable.create numericStl (ini.lookup (str "peers"))).toOption.any fun peers ↦
        decide (∃ self : Fin peers.peers.length,
          (ConnTable.create sampleHost peers self 0 0 1000).toOption.any (fun t ↦
            decide ((peers.peers.flatMap Peer.dsts).Nodup ∧ ¬ SelfFound t)) = true)) = true := by
    decide +kernel
  obtain ⟨ini, hini, hrun⟩ := ok_of_any hrun
  obtain ⟨peers, hpeers, hrun⟩ := ok_of_any hrun
  obtain ⟨self, hrun⟩ := of_decide_eq_true hrun
  obtain ⟨t, ht, hbad⟩ := ok_of_any hrun
  exact ⟨ini, peers, self, t, hini, hpeers, ht, of_decide_eq_true hbad⟩

def addPeer (t : PeerTable) (vip : UInt32) (dst : SockAddr) (dsts : List SockAddr) : PeerTable :=
  t.add ⟨vip, dst :: dsts, List.cons_ne_nil dst dsts⟩

def twoHosts : PeerTable :=
  addPeer (addPeer .empty 0x0a000001 (.inet 7000 0x010200c0) []) 0x0a000002 (.inet 7000 0x020200c0) []

def threeHosts : PeerTable :=
  addPeer (addPeer (addPeer .empty 0x0a000001 (.inet 7000 0x010200c0) [.inet 7000 0x016433c6])
    0x0a000002 (.inet 7000 0x020200c0) []) 0x0a000003 (.inet 7000 0x030200c0) []

theorem create_selfFound_iff_sample : ∃ t, ConnTable.create sampleHost threeHosts ⟨0, by decide⟩ 0 0 1000 = .ok t ∧
    t.allSlots.length = 4 ∧ SelfFound t := by
  have hcreate : ConnTable.create sampleHost threeHosts ⟨0, by decide⟩ 0 0 1000 = .ok _ := rfl
  exact ⟨_, hcreate, rfl, (create_selfFound_iff hcreate).mpr ⟨by decide, .inr (by decide)⟩⟩

end Gofra.SlotKeys
