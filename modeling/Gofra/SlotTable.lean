import Gofra.Lib.Blocks
import Gofra.Conns

namespace Gofra.SlotTable

open Lib.Blocks Lib.LastWins Addr Peers Conns

/-- `s` is the slot from source `i` of `me` to `dst`. -/
structure SlotOf (me : Peer) (fds : List ℤ) (i : ℕ) (dst : SockAddr) (s : ConnSlot) : Prop where
  srcAddr : me.dsts[i]? = some s.srcAddr
  srcFd : fds[i]? = some s.srcFd
  srcIdx : s.srcIdx = UInt32.ofNat i
  dstAddr : s.dstAddr = dst

/-- The endpoints of the peers before the `k`-th, which comes next. -/
def firstDst (ps : List Peer) (k : ℕ) : ℕ := ((ps.take k).flatMap Peer.dsts).length

theorem getElem?_firstDst {ps : List Peer} {k : ℕ} {p : Peer} (hp : ps[k]? = some p) {j : ℕ}
    (hj : j < p.dsts.length) : (ps.flatMap Peer.dsts)[firstDst ps k + j]? = p.dsts[j]? := by
  obtain ⟨hk, rfl⟩ := List.getElem?_eq_some_iff.mp hp
  have hsplit : ps.flatMap Peer.dsts = (ps.take k).flatMap Peer.dsts ++
      (ps[k].dsts ++ (ps.drop (k + 1)).flatMap Peer.dsts) := by
    rw [← List.flatMap_cons, ← List.flatMap_append, ← List.drop_eq_getElem_cons hk,
      List.take_append_drop]
  rw [hsplit, firstDst, List.getElem?_append_right (by omega), Nat.add_sub_cancel_left,
    List.getElem?_append_left hj]

theorem firstDst_le {ps : List Peer} {k k' : ℕ} {p : Peer} (hp : ps[k]? = some p) (hlt : k < k') :
    firstDst ps k + p.dsts.length ≤ firstDst ps k' := by
  have hsub := (((List.take_prefix_take_left (l := ps) hlt).sublist).flatMap Peer.dsts).length_le
  rw [List.take_add_one, hp, List.flatMap_append, List.length_append] at hsub
  simpa [firstDst] using hsub

theorem flatMap_slotsTo (me : Peer) (fds : List ℤ) (startMs : UInt64) (ps : List Peer) :
    ps.flatMap (slotsTo me fds startMs) =
      (ps.flatMap Peer.dsts).flatMap (slotsFor me fds startMs) := List.flatMap_assoc.symm

section Built

variable {me : Peer} {fds : List ℤ} {startMs timeout : UInt64} {ps : List Peer} {t : ConnTable}
variable (hfds : fds.length = me.dsts.length)
include hfds

theorem length_slotsFor (dst : SockAddr) : (slotsFor me fds startMs dst).length = me.dsts.length := by
  simp [slotsFor, hfds]

theorem slotsFor_slotOf {i : ℕ} (hi : i < me.dsts.length) (dst : SockAddr) :
    ∃ s, (slotsFor me fds startMs dst)[i]? = some s ∧ SlotOf me fds i dst s := by
  have hsrc := List.getElem?_eq_getElem hi
  have hfd := List.getElem?_eq_getElem (hfds ▸ hi)
  refine ⟨⟨me.dsts[i], fds[i], UInt32.ofNat i, dst, startMs⟩, ?_, hsrc, hfd, rfl, rfl⟩
  have hzip : (me.dsts.zip fds)[i]? = some (me.dsts[i], fds[i]) :=
    List.getElem?_zip_eq_some.mpr ⟨hsrc, hfd⟩
  rw [slotsFor, List.getElem?_map, List.getElem?_zipIdx, hzip, Nat.zero_add]
  rfl

variable (h : Built me fds startMs timeout ps t)
include h

/-- Entry `q * N + i` is the slot from source `i` to the `q`-th endpoint. -/
theorem allSlots_slotOf {q i : ℕ} {dst : SockAddr} (hq : (ps.flatMap Peer.dsts)[q]? = some dst)
    (hi : i < me.dsts.length) :
    ∃ s, t.allSlots[q * me.dsts.length + i]? = some s ∧ SlotOf me fds i dst s := by
  rw [h.allSlots, flatMap_slotsTo, getElem?_flatMap_block (length_slotsFor hfds) hi, hq]
  exact slotsFor_slotOf hfds hi dst

theorem slotOf_of_allSlots {x : ℕ} {s : ConnSlot} (hs : t.allSlots[x]? = some s) :
    ∃ q i, x = q * me.dsts.length + i ∧ i < me.dsts.length ∧
      (ps.flatMap Peer.dsts)[q]? = some s.dstAddr ∧ SlotOf me fds i s.dstAddr s := by
  have hpos := List.length_pos_iff.mpr me.nonempty
  have hi := Nat.mod_lt x hpos
  have hx := Nat.div_add_mod' x me.dsts.length
  obtain ⟨hlt, -⟩ := List.getElem?_eq_some_iff.mp hs
  have hq : x / me.dsts.length < (ps.flatMap Peer.dsts).length := by
    rw [h.allSlots, flatMap_slotsTo, length_flatMap_block (length_slotsFor hfds), Nat.mul_comm] at hlt
    exact Nat.div_lt_of_lt_mul hlt
  obtain ⟨s', hs', hof⟩ := allSlots_slotOf hfds h (List.getElem?_eq_getElem hq) hi
  rw [hx, hs, Option.some_inj] at hs'
  subst hs'
  refine ⟨_, _, hx.symm, hi, ?_, ?_⟩
  · rw [hof.dstAddr]
    exact List.getElem?_eq_getElem hq
  · rw [hof.dstAddr]
    exact hof

theorem conns_eq {k : ℕ} {p : Peer} (hp : ps[k]? = some p) : t.conns[k]? = some ⟨p.vip, timeout,
    List.range' (firstDst ps k * me.dsts.length) (p.dsts.length * me.dsts.length), 0⟩ := by
  rw [h.conns, hp, Option.map_some, flatMap_slotsTo, slotsTo,
    length_flatMap_block (length_slotsFor hfds), length_flatMap_block (length_slotsFor hfds), firstDst]

theorem conn_slot {k : ℕ} {p : Peer} (hp : ps[k]? = some p) {x : ℕ}
    (hx : x ∈ List.range' (firstDst ps k * me.dsts.length) (p.dsts.length * me.dsts.length)) :
    ∃ s, t.allSlots[x]? = some s ∧ s.dstAddr ∈ p.dsts := by
  have hpos := List.length_pos_iff.mpr me.nonempty
  obtain ⟨hle, hlt⟩ := List.mem_range'_1.mp hx
  obtain ⟨y, rfl⟩ := Nat.exists_eq_add_of_le hle
  have hj : y / me.dsts.length < p.dsts.length :=
    Nat.div_lt_of_lt_mul (by rw [Nat.mul_comm]; omega)
  have hq := (getElem?_firstDst hp hj).trans (List.getElem?_eq_getElem hj)
  obtain ⟨s, hs, hof⟩ := allSlots_slotOf hfds h hq (Nat.mod_lt y hpos)
  refine ⟨s, ?_, hof.dstAddr ▸ List.getElem_mem hj⟩
  rwa [Nat.add_mul, Nat.add_assoc, Nat.div_add_mod'] at hs

theorem conns_disjoint {k k' : ℕ} {c c' : Conn} (hk : t.conns[k]? = some c)
    (hk' : t.conns[k']? = some c') (hne : k ≠ k') : c.slots.Disjoint c'.slots := by
  have hrow {k : ℕ} {c : Conn} (hk : t.conns[k]? = some c) : ∃ p, ps[k]? = some p ∧ c.slots =
      List.range' (firstDst ps k * me.dsts.length) (p.dsts.length * me.dsts.length) := by
    obtain ⟨p, hp, -⟩ := Option.map_eq_some_iff.mp ((h.conns k).symm.trans hk)
    have hc := (conns_eq hfds h hp).symm.trans hk
    exact ⟨p, hp, by rw [← Option.some.inj hc]⟩
  obtain ⟨p, hp, hs⟩ := hrow hk
  obtain ⟨p', hp', hs'⟩ := hrow hk'
  rw [hs, hs']
  intro x hx hx'
  rw [List.mem_range'_1, ← Nat.add_mul] at hx hx'
  rcases Nat.lt_or_gt_of_ne hne with hlt | hgt
  · have hle := Nat.mul_le_mul_right me.dsts.length (firstDst_le hp hlt)
    omega
  · have hle := Nat.mul_le_mul_right me.dsts.length (firstDst_le hp' hgt)
    omega

end Built

/-- A VIP that no later peer has is found at its own place. -/
theorem lookup_eq {me : Peer} {fds : List ℤ} {startMs timeout : UInt64} {ps : List Peer} {t : ConnTable}
    (h : Built me fds startMs timeout ps t) (hv : (ps.map Peer.vip).Nodup) {k : ℕ} {p : Peer}
    (hp : ps[k]? = some p) : t.lookup p.vip = some k := by
  rw [ConnTable.lookup, h.byVip]
  refine lookup_insertAll_of_nodup ?_ ?_ ∅
  · have hmap : (vipEntries ps).map Prod.fst = (ps.map Peer.vip).map UInt32.toUInt64 := by
      rw [vipEntries, List.map_map, List.map_map]
      conv_rhs => rw [← List.zipIdx_map_fst 0 ps, List.map_map]
      rfl
    rw [hmap]
    refine hv.map fun a b hab ↦ ?_
    exact UInt32.toNat_inj.mp (by simpa using congrArg UInt64.toNat hab)
  · rw [vipEntries, List.mem_map]
    exact ⟨(p, k), List.mem_zipIdx_iff_getElem?.mpr hp, rfl⟩

end Gofra.SlotTable
