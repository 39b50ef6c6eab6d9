import Mathlib.Data.List.Flatten
import Gofra.SlotKeys
import Gofra.SlotTable
import Gofra.UdpReader

namespace Gofra.Mirror

open Lib.Blocks Lib.LastWins Addr Peers Conns SlotKeys SlotTable UdpReader

/-- A round of `prober`: an empty datagram through every slot. The kernel puts
the address of the slot's socket on it. -/
def probeRound (t : ConnTable) : List (SockAddr × SockAddr) :=
  t.allSlots.map fun s ↦ (s.srcAddr, s.dstAddr)

/-- The reader whose socket receives what is sent to `dst`. -/
def readerOf (me : Peer) (dst : SockAddr) : Option ℕ := me.dsts.findIdx? (· == dst)

/-- The slot that a datagram refreshes at `me`, if it is for `me` at all. -/
def refreshes (me : Peer) (t : ConnTable) (d : SockAddr × SockAddr) : Option ℕ :=
  (readerOf me d.2).bind fun j ↦ t.lookupSlot (UInt32.ofNat j) d.1

section Hear

variable {me : Peer} {now : UInt64}

/-- `udpReader` on the socket that `d` comes to hears it. -/
def heardAt (me : Peer) (now : UInt64) (t : ConnTable) (d : SockAddr × SockAddr) : ConnTable :=
  match readerOf me d.2 with
  | none => t
  | some j => hear t (UInt32.ofNat j) d.1 now

theorem heardAt_eq (t : ConnTable) (d : SockAddr × SockAddr) : heardAt me now t d =
    { t with allSlots := (refreshes me t d).elim t.allSlots fun slot ↦
        t.allSlots.modify slot fun s ↦ { s with lastSeen := now } } := by
  rw [heardAt, refreshes]
  cases readerOf me d.2 with
  | none => rfl
  | some j =>
    dsimp only
    rw [hear, Option.bind_some]
    cases t.lookupSlot (UInt32.ofNat j) d.1 with
    | none => rfl
    | some slot => rfl

theorem refreshes_heardAt (t : ConnTable) (d : SockAddr × SockAddr) :
    refreshes me (heardAt me now t d) = refreshes me t := by
  rw [heardAt_eq]
  rfl

/-- The slots that `refreshes` names are heard, and no other. -/
theorem foldl_heardAt (t : ConnTable) (ds : List (SockAddr × SockAddr)) (x : ℕ) :
    (ds.foldl (heardAt me now) t).allSlots[x]? = t.allSlots[x]?.map fun s ↦
      if x ∈ ds.filterMap (refreshes me t) then { s with lastSeen := now } else s := by
  induction ds generalizing t with
  | nil => simp
  | cons d ds ih =>
    rw [List.foldl_cons, ih, refreshes_heardAt, heardAt_eq, List.filterMap_cons]
    cases refreshes me t d with
    | none => rfl
    | some slot =>
      dsimp only [Option.elim]
      rw [List.getElem?_modify]
      cases t.allSlots[x]? with
      | none => rfl
      | some s =>
        by_cases hx : slot = x
        · simp [hx]
        · have hmem : x ∈ slot :: ds.filterMap (refreshes me t) ↔ x ∈ ds.filterMap (refreshes me t) :=
            List.mem_cons.trans (or_iff_right (Ne.symm hx))
          simp only [hx, if_false, Option.map_some, hmem]
          rfl

end Hear

/-- No endpoint of the table shares its address with one of `p`. -/
def OwnAddrs (peers : PeerTable) (p : Peer) : Prop :=
  ∀ d ∈ p.dsts, ((peers.peers.flatMap Peer.dsts).map SockAddr.sinAddr).count d.sinAddr = 1

variable {peers : PeerTable}

theorem ownAddrs_of_nodup (h : ((peers.peers.flatMap Peer.dsts).map SockAddr.sinAddr).Nodup) {p : Peer}
    (hp : p ∈ peers.peers) : OwnAddrs peers p := fun _ hd ↦
  List.count_eq_one_of_mem h (List.mem_map_of_mem (List.mem_flatMap.mpr ⟨p, hp, hd⟩))

theorem dsts_sublist {ps : List Peer} {p : Peer} (hp : p ∈ ps) :
    (p.dsts.map SockAddr.sinAddr).Sublist ((ps.flatMap Peer.dsts).map SockAddr.sinAddr) := by
  refine List.Sublist.map _ ?_
  rw [List.flatMap_def]
  exact List.sublist_flatten_of_mem (List.mem_map_of_mem hp)

/-- An address of `p` occurs once among the endpoints of any rows with `p`. -/
theorem OwnAddrs.count {p : Peer} (h : OwnAddrs peers p) {ps : List Peer}
    (hps : ps.Sublist peers.peers) (hp : p ∈ ps) {d : SockAddr} (hd : d ∈ p.dsts) :
    ((ps.flatMap Peer.dsts).map SockAddr.sinAddr).count d.sinAddr = 1 := by
  have hle := ((hps.flatMap Peer.dsts).map SockAddr.sinAddr).count_le d.sinAddr
  have hpos : 0 < ((ps.flatMap Peer.dsts).map SockAddr.sinAddr).count d.sinAddr :=
    List.count_pos_iff.mpr (List.mem_map_of_mem (List.mem_flatMap.mpr ⟨p, hp, hd⟩))
  rw [h d hd] at hle
  omega

theorem OwnAddrs.nodup {p : Peer} (h : OwnAddrs peers p) (hp : p ∈ peers.peers) :
    (p.dsts.map SockAddr.sinAddr).Nodup := by
  rw [List.nodup_iff_count_le_one]
  intro w
  by_cases hw : w ∈ p.dsts.map SockAddr.sinAddr
  · obtain ⟨d, hd, rfl⟩ := List.mem_map.mp hw
    exact ((dsts_sublist hp).count_le _).trans (h d hd).le
  · rw [List.count_eq_zero.mpr hw]
    exact Nat.zero_le 1

theorem OwnAddrs.length_le {p : Peer} (h : OwnAddrs peers p) (hp : p ∈ peers.peers) :
    p.dsts.length ≤ 2 ^ 32 := by
  have hinj : Function.Injective UInt32.toNat := fun _ _ ↦ UInt32.toNat_inj.mp
  have hsub : (p.dsts.map SockAddr.sinAddr).map UInt32.toNat ⊆ List.range (2 ^ 32) := by
    intro n hn
    obtain ⟨w, -, rfl⟩ := List.mem_map.mp hn
    exact List.mem_range.mpr w.toNat_lt
  have hle := (List.subperm_of_subset ((h.nodup hp).map hinj) hsub).length_le
  rwa [List.length_range, List.length_map, List.length_map] at hle

theorem readerOf_eq {p : Peer} (h : (p.dsts.map SockAddr.sinAddr).Nodup) {j : ℕ} {dst : SockAddr}
    (hj : p.dsts[j]? = some dst) : readerOf p dst = some j := by
  obtain ⟨hlt, rfl⟩ := List.getElem?_eq_some_iff.mp hj
  refine List.findIdx?_eq_some_iff_getElem.mpr ⟨hlt, by simp, fun i hi hbeq ↦ ?_⟩
  have hilt := hi.trans hlt
  have heq : p.dsts[i] = p.dsts[j] := by simpa using hbeq
  have hij := h.of_map.getElem_inj_iff.mp heq
  omega

theorem readerOf_eq_none {p : Peer} {dst : SockAddr} (h : dst ∉ p.dsts) : readerOf p dst = none := by
  refine List.findIdx?_eq_none_iff.mpr fun d hd ↦ ?_
  simpa using fun e : d = dst ↦ h (e ▸ hd)

/-- Row `a` is the `k`-th of the rows without `b`. -/
structure At (peers : PeerTable) (a b : Fin peers.peers.length) (k : ℕ) : Prop where
  ne : a ≠ b
  row : (peers.peers.eraseIdx b)[k]? = some (peers.at a)

theorem exists_at {a b : Fin peers.peers.length} (hab : a ≠ b) : ∃ k, At peers a b k := by
  have hne : a.1 ≠ b.1 := fun h ↦ hab (Fin.ext h)
  have ha : peers.peers[a.1]? = some (peers.at a) := List.getElem?_eq_getElem a.2
  rcases Nat.lt_or_gt_of_ne hne with hlt | hgt
  · exact ⟨a, hab, by rw [List.getElem?_eraseIdx_of_lt hlt, ha]⟩
  · exact ⟨a - 1, hab, by
      rw [List.getElem?_eraseIdx_of_ge (by omega), show a.1 - 1 + 1 = a.1 by omega, ha]⟩

section Receive

variable {a b : Fin peers.peers.length} {k : ℕ} {fds : List ℤ} {startMs timeout : UInt64} {t : ConnTable}
variable (hat : At peers a b k) (hfds : fds.length = (peers.at b).dsts.length)
variable (h : Built (peers.at b) fds startMs timeout (peers.peers.eraseIdx b) t)
include hat hfds h

/-- What `b` reads on its socket `j` from the `i`-th endpoint of `a` belongs to
the slot from `j` to that endpoint. -/
theorem lookupSlot_eq (hA : OwnAddrs peers (peers.at a)) (hB : OwnAddrs peers (peers.at b))
    {i j : ℕ} {d : SockAddr} (hi : (peers.at a).dsts[i]? = some d) (hj : j < (peers.at b).dsts.length) :
    t.lookupSlot (UInt32.ofNat j) d =
      some ((firstDst (peers.peers.eraseIdx b) k + i) * (peers.at b).dsts.length + j) := by
  have hM := hB.length_le (List.getElem_mem b.2)
  obtain ⟨hilt, -⟩ := List.getElem?_eq_some_iff.mp hi
  have hq := (getElem?_firstDst hat.row hilt).trans hi
  obtain ⟨s, hs, hof⟩ := allSlots_slotOf hfds h hq hj
  have hword (q : ℕ) (d' : SockAddr) (hd' : ((peers.peers.eraseIdx b).flatMap Peer.dsts)[q]? = some d') :
      (((peers.peers.eraseIdx b).flatMap Peer.dsts).map SockAddr.sinAddr)[q]? = some d'.sinAddr := by
    rw [List.getElem?_map, hd', Option.map_some]
  have honce := hA.count (List.eraseIdx_sublist _ _) (List.mem_of_getElem? hat.row) (List.mem_of_getElem? hi)
  rw [ConnTable.lookupSlot, h.byEntry]
  refine lookup_insertAll_of_unique (mem_slotEntries.mpr ⟨s, hs, ?_⟩) fun x' hx' ↦ ?_
  · rw [hof.srcIdx, hof.dstAddr]
  · obtain ⟨s', hs', hkey⟩ := mem_slotEntries.mp hx'
    obtain ⟨q', j', rfl, hj', hq', hof'⟩ := slotOf_of_allSlots hfds h hs'
    obtain ⟨hidx, haddr⟩ := entryKey_inj.mp hkey
    have hjj : j' = j := by
      have hn := congrArg UInt32.toNat (hof'.srcIdx.symm.trans hidx)
      rw [UInt32.toNat_ofNat_of_lt' (by simp only [UInt32.size]; omega),
        UInt32.toNat_ofNat_of_lt' (by simp only [UInt32.size]; omega)] at hn
      exact hn
    have hqq := eq_of_count_eq_one honce (haddr ▸ hword q' _ hq') (hword _ d hq)
    rw [hqq, hjj]

end Receive

theorem map_slotsFor {me : Peer} {fds : List ℤ} (hfds : fds.length = me.dsts.length) (startMs : UInt64)
    (dst : SockAddr) : (slotsFor me fds startMs dst).map (fun s ↦ (s.srcAddr, s.dstAddr)) =
      me.dsts.map fun src ↦ (src, dst) := by
  conv_rhs => rw [← List.map_fst_zip hfds.ge, ← List.zipIdx_map_fst 0 (me.dsts.zip fds)]
  simp only [slotsFor, List.map_map]
  rfl

/-- Only the datagrams to the endpoints of `b` are read at `b`. -/
theorem refreshes_of_dsts {a b : Fin peers.peers.length} {k : ℕ} (hat : At peers b a k)
    (hB : OwnAddrs peers (peers.at b)) (tB : ConnTable) (srcs : List SockAddr) :
    ((peers.peers.eraseIdx a).flatMap Peer.dsts).flatMap (fun dst ↦ (srcs.map fun src ↦ (src, dst)).filterMap
        (refreshes (peers.at b) tB)) =
      (peers.at b).dsts.flatMap fun dst ↦ (srcs.map fun src ↦ (src, dst)).filterMap
        (refreshes (peers.at b) tB) := by
  obtain ⟨hk, hrow⟩ := List.getElem?_eq_some_iff.mp hat.row
  have hsplit : (peers.peers.eraseIdx a).flatMap Peer.dsts =
      ((peers.peers.eraseIdx a).take k).flatMap Peer.dsts ++ ((peers.at b).dsts ++
        ((peers.peers.eraseIdx a).drop (k + 1)).flatMap Peer.dsts) := by
    rw [← hrow, ← List.flatMap_cons, ← List.flatMap_append, ← List.drop_eq_getElem_cons hk,
      List.take_append_drop]
  have hnil {l : List SockAddr} (hl : ∀ d ∈ l, d ∉ (peers.at b).dsts) : l.flatMap (fun dst ↦
      (srcs.map fun src ↦ (src, dst)).filterMap (refreshes (peers.at b) tB)) = [] := by
    refine List.flatMap_eq_nil_iff.mpr fun d hd ↦ List.filterMap_eq_nil_iff.mpr fun e he ↦ ?_
    obtain ⟨src, -, rfl⟩ := List.mem_map.mp he
    rw [refreshes, readerOf_eq_none (hl d hd), Option.bind_none]
  have honce (d : SockAddr) (hd : d ∈ (peers.at b).dsts) :=
    hB.count (List.eraseIdx_sublist _ _) (List.mem_of_getElem? hat.row) hd
  simp only [hsplit, List.map_append, List.count_append] at honce
  have hpos {l : List SockAddr} {d : SockAddr} (hd : d ∈ l) :
      0 < (l.map SockAddr.sinAddr).count d.sinAddr := List.count_pos_iff.mpr (List.mem_map_of_mem hd)
  have hpre : ∀ d ∈ ((peers.peers.eraseIdx a).take k).flatMap Peer.dsts, d ∉ (peers.at b).dsts := by
    intro d hd hd'
    have h₁ := honce d hd'
    have h₂ := hpos hd
    have h₃ := hpos hd'
    omega
  have hpost : ∀ d ∈ ((peers.peers.eraseIdx a).drop (k + 1)).flatMap Peer.dsts,
      d ∉ (peers.at b).dsts := by
    intro d hd hd'
    have h₁ := honce d hd'
    have h₂ := hpos hd
    have h₃ := hpos hd'
    omega
  rw [hsplit, List.flatMap_append, List.flatMap_append, hnil hpre, hnil hpost, List.nil_append,
    List.append_nil]

/-- A round of probes from `a` refreshes the slots of `b` towards `a`, each once. -/
theorem probes_perm {a b : Fin peers.peers.length} {kA kB : ℕ} {fdsA fdsB : List ℤ}
    {startA startB timeoutA timeoutB : UInt64} {tA tB : ConnTable} (hatA : At peers b a kA)
    (hatB : At peers a b kB) (hfdsA : fdsA.length = (peers.at a).dsts.length)
    (hfdsB : fdsB.length = (peers.at b).dsts.length)
    (hbA : Built (peers.at a) fdsA startA timeoutA (peers.peers.eraseIdx a) tA)
    (hbB : Built (peers.at b) fdsB startB timeoutB (peers.peers.eraseIdx b) tB)
    (hA : OwnAddrs peers (peers.at a)) (hB : OwnAddrs peers (peers.at b)) :
    ((probeRound tA).filterMap (refreshes (peers.at b) tB)).Perm
      (List.range' (firstDst (peers.peers.eraseIdx b) kB * (peers.at b).dsts.length)
        ((peers.at a).dsts.length * (peers.at b).dsts.length)) := by
  have hnodupB := hB.nodup (List.getElem_mem b.2)
  have hround : (probeRound tA).filterMap (refreshes (peers.at b) tB) =
      (peers.at b).dsts.flatMap fun dst ↦ ((peers.at a).dsts.map fun src ↦ (src, dst)).filterMap
        (refreshes (peers.at b) tB) := by
    rw [← refreshes_of_dsts hatA hB, probeRound, hbA.allSlots, flatMap_slotsTo, List.map_flatMap,
      List.filterMap_flatMap]
    simp only [map_slotsFor hfdsA]
  have hinner (j : ℕ) (dst : SockAddr) (hj : (peers.at b).dsts[j]? = some dst) :
      ((peers.at a).dsts.map fun src ↦ (src, dst)).filterMap (refreshes (peers.at b) tB) =
        (List.range (peers.at a).dsts.length).map fun i ↦
          firstDst (peers.peers.eraseIdx b) kB * (peers.at b).dsts.length +
            (i * (peers.at b).dsts.length + j) := by
    rw [List.filterMap_map]
    refine filterMap_eq_range fun i src hi ↦ ?_
    obtain ⟨hjlt, -⟩ := List.getElem?_eq_some_iff.mp hj
    simp only [Function.comp_apply, refreshes]
    rw [readerOf_eq hnodupB hj, Option.bind_some, lookupSlot_eq hatB hfdsB hbB hA hB hi hjlt,
      Nat.add_mul, Nat.add_assoc]
  rw [hround, flatMap_eq_range hinner, ← flatMap_range_block]
  exact flatMap_map_swap _ _ _

/-- The two connections between rows `a` and `b`, as the hosts of these rows
see them. -/
structure Mirrored (A B : Peer) (tA tB : ConnTable) (cA cB : Conn) (kB : ℕ) : Prop where
  lengthA : cA.slots.length = A.dsts.length * B.dsts.length
  lengthB : cB.slots.length = B.dsts.length * A.dsts.length
  bijOn : Set.BijOn (mirror A.dsts.length B.dsts.length) (Set.Iio cA.slots.length)
    (Set.Iio cB.slots.length)
  slot : ∀ i < A.dsts.length, ∀ j < B.dsts.length, ∃ x s y s',
    cA.slots[j * A.dsts.length + i]? = some x ∧ tA.allSlots[x]? = some s ∧
    s.srcIdx = UInt32.ofNat i ∧ A.dsts[i]? = some s.srcAddr ∧ B.dsts[j]? = some s.dstAddr ∧
    mirror A.dsts.length B.dsts.length (j * A.dsts.length + i) = i * B.dsts.length + j ∧
    cB.slots[i * B.dsts.length + j]? = some y ∧ tB.allSlots[y]? = some s' ∧
    s'.srcIdx = UInt32.ofNat j ∧ s'.dstAddr = s.srcAddr ∧ readerOf B s.dstAddr = some j ∧
    tB.lookupSlot (UInt32.ofNat j) s.srcAddr = some y
  nodup : cB.slots.Nodup
  probes : ((probeRound tA).filterMap (refreshes B tB)).Perm cB.slots
  others : ∀ k c, k ≠ kB → tB.conns[k]? = some c →
    ((probeRound tA).filterMap (refreshes B tB)).Disjoint c.slots

theorem create_mirrored {a b : Fin peers.peers.length} (hab : a ≠ b) (hvip : (peers.peers.map Peer.vip).Nodup)
    (hA : OwnAddrs peers (peers.at a)) (hB : OwnAddrs peers (peers.at b))
    {hostA hostB : Host} {rcvA sndA rcvB sndB : ℤ} {timeoutA timeoutB : UInt64} {tA tB : ConnTable}
    (htA : ConnTable.create hostA peers a rcvA sndA timeoutA = .ok tA)
    (htB : ConnTable.create hostB peers b rcvB sndB timeoutB = .ok tB) :
    ∃ kA cA kB cB, tA.lookup (peers.at b).vip = some kA ∧ tA.conns[kA]? = some cA ∧
      tB.lookup (peers.at a).vip = some kB ∧ tB.conns[kB]? = some cB ∧
      Mirrored (peers.at a) (peers.at b) tA tB cA cB kB := by
  obtain ⟨fdsA, hfdsA, hbA⟩ := ConnTable.create_built htA
  obtain ⟨fdsB, hfdsB, hbB⟩ := ConnTable.create_built htB
  obtain ⟨kA, hatA⟩ := exists_at (Ne.symm hab)
  obtain ⟨kB, hatB⟩ := exists_at hab
  have hvips (c : Fin peers.peers.length) : ((peers.peers.eraseIdx c).map Peer.vip).Nodup :=
    hvip.sublist ((List.eraseIdx_sublist _ _).map _)
  have hnodupB := hB.nodup (List.getElem_mem b.2)
  refine ⟨kA, _, kB, _, lookup_eq hbA (hvips a) hatA.row, conns_eq hfdsA hbA hatA.row,
    lookup_eq hbB (hvips b) hatB.row, conns_eq hfdsB hbB hatB.row, ?_⟩
  have hprobes := probes_perm hatA hatB hfdsA hfdsB hbA hbB hA hB
  constructor
  case lengthA => rw [List.length_range', Nat.mul_comm]
  case lengthB => rw [List.length_range', Nat.mul_comm]
  case bijOn =>
    rw [List.length_range', List.length_range', Nat.mul_comm]
    nth_rewrite 2 [Nat.mul_comm]
    exact mirror_bijOn _ _
  case slot =>
    intro i hi j hj
    have hiA := List.getElem?_eq_getElem hi
    have hjB := List.getElem?_eq_getElem hj
    obtain ⟨s, hs, hof⟩ := allSlots_slotOf hfdsA hbA ((getElem?_firstDst hatA.row hj).trans hjB) hi
    obtain ⟨s', hs', hof'⟩ := allSlots_slotOf hfdsB hbB ((getElem?_firstDst hatB.row hi).trans hiA) hj
    have hsrc : (peers.at a).dsts[i] = s.srcAddr := Option.some.inj (hiA.symm.trans hof.srcAddr)
    have hdst : (peers.at b).dsts[j] = s.dstAddr := hof.dstAddr.symm
    refine ⟨_, s, _, s', ?_, hs, hof.srcIdx, hof.srcAddr, hdst ▸ hjB, mirror_block hi, ?_, hs',
      hof'.srcIdx, hof'.dstAddr.trans hsrc, ?_, ?_⟩
    · rw [List.getElem?_range' (block_lt hi hj), Nat.one_mul, Nat.add_mul, Nat.add_assoc]
    · rw [List.getElem?_range' (block_lt hj hi), Nat.one_mul, Nat.add_mul, Nat.add_assoc]
    · exact readerOf_eq hnodupB (hdst ▸ hjB)
    · exact lookupSlot_eq hatB hfdsB hbB hA hB (hsrc ▸ hiA) hj
  case nodup => exact List.nodup_range'
  case probes => exact hprobes
  case others =>
    intro k c hk hc y hy
    exact conns_disjoint hfdsB hbB (conns_eq hfdsB hbB hatB.row) hc (Ne.symm hk) (hprobes.mem_iff.mp hy)

theorem create_mirrored_sample : ∃ (tA tB : ConnTable) (kA : ℕ) (cA : Conn) (kB : ℕ) (cB : Conn),
    ConnTable.create sampleHost threeHosts ⟨0, by decide⟩ 0 0 1000 = .ok tA ∧
    ConnTable.create sampleHost threeHosts ⟨1, by decide⟩ 0 0 1000 = .ok tB ∧
    tA.conns[kA]? = some cA ∧ tB.conns[kB]? = some cB ∧
    Mirrored (threeHosts.peers.get ⟨0, by decide⟩) (threeHosts.peers.get ⟨1, by decide⟩) tA tB cA cB kB := by
  have htA : ConnTable.create sampleHost threeHosts ⟨0, by decide⟩ 0 0 1000 = .ok _ := rfl
  have htB : ConnTable.create sampleHost threeHosts ⟨1, by decide⟩ 0 0 1000 = .ok _ := rfl
  have hown : ((threeHosts.peers.flatMap Peer.dsts).map SockAddr.sinAddr).Nodup := by decide
  obtain ⟨kA, cA, kB, cB, -, hcA, -, hcB, hm⟩ := create_mirrored (by decide) (by decide)
    (ownAddrs_of_nodup hown (List.getElem_mem _)) (ownAddrs_of_nodup hown (List.getElem_mem _)) htA htB
  exact ⟨_, _, kA, cA, kB, cB, htA, htB, hcA, hcB, hm⟩

end Gofra.Mirror
