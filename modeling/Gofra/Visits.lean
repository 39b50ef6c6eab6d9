import Mathlib.Data.Bool.Count
import Gofra.Mirror
import Gofra.Obligations

namespace Gofra.Visits

open Lib.Calls Addr Peers Gso Conns NumericText Plane Obligations

theorem runs_act {α : Type} {c : Act} {f : Ans c → Thread α} {tr : List (Event Ans)} {b : α}
    (h : Runs (act c >>= f) tr (.done b)) : ∃ r tr', tr = ⟨c, r⟩ :: tr' ∧ Runs (f r) tr' (.done b) := by
  cases h with
  | call r h => exact ⟨r, _, rfl, h⟩

theorem runs_act_done {c : Act} {tr : List (Event Ans)} {b : Ans c}
    (h : Runs (act c : Thread (Ans c)) tr (.done b)) : tr = [⟨c, b⟩] := by
  cases h with
  | call r h =>
    cases h
    rfl

/-- What a call that may fail leaves in the log. -/
def warned (what : Str) : Except ℕ Unit → List (Event Ans)
  | .ok () => []
  | .error err => [⟨.warnErrno what err, ()⟩]

theorem orWarn_done {what : Str} {r : Except ℕ Unit} {tr : List (Event Ans)} {u : Unit}
    (h : Runs (orWarn what r) tr (.done u)) : tr = warned what r := by
  cases r with
  | ok _ =>
    cases h
    rfl
  | error err => exact runs_act_done h

section Prober

variable {t : ConnTable}

/-- What `prober` does about a slot when `sendto` answers `r`. -/
def probed (s : ConnSlot) (r : Except ℕ Unit) : List (Event Ans) :=
  ⟨.sendto s.srcFd [] s.dstAddr, r⟩ :: warned (str "probe sendto") r

theorem probes_done {slots : List ℕ} {ss : List ConnSlot} (hslots : slots.map (t.allSlots[·]?) = ss.map some)
    {us : List Unit} {tr : List (Event Ans)} (h : Runs (slots.mapM (probe t)) tr (.done us)) :
    ∃ rs, rs.length = ss.length ∧ tr = (List.zipWith probed ss rs).flatten := by
  induction slots generalizing ss us tr with
  | nil =>
    obtain rfl := List.map_eq_nil_iff.mp hslots.symm
    cases h
    exact ⟨[], rfl, rfl⟩
  | cons slot slots ih =>
    cases ss with
    | nil => cases hslots
    | cons s ss =>
      obtain ⟨hs, hslots⟩ := List.cons.inj hslots
      rw [List.mapM_cons] at h
      obtain ⟨u, tr₁, tr', hprobe, hrest, rfl⟩ := runs_bind_done h
      obtain ⟨us', tr₂, tr₃, hprobes, hret, rfl⟩ := runs_bind_done hrest
      cases hret
      rw [probe, must_bind hs] at hprobe
      obtain ⟨r, tr₄, rfl, hwarn⟩ := runs_act hprobe
      obtain ⟨rs, hlength, rfl⟩ := ih hslots hprobes
      refine ⟨r :: rs, congrArg (· + 1) hlength, ?_⟩
      rw [orWarn_done hwarn, List.append_nil, List.zipWith_cons_cons, List.flatten_cons]
      rfl

theorem visited_slots (t : ConnTable) : (visited t).map (t.allSlots[·]?) = t.allSlots.map some := by
  rw [visited_eq]
  exact Lib.Blocks.map_getElem?_range t.allSlots

/-- A turn of `prober` visits every slot once, whatever becomes of the others. -/
theorem prober_done {intervalMs : UInt64} {tr : List (Event Ans)}
    (h : Runs (prober t intervalMs) tr (.done ())) : ∃ rs, rs.length = t.allSlots.length ∧
      tr = (List.zipWith probed t.allSlots rs).flatten ++ [⟨.usleep (intervalMs * 1000).toUInt32, ()⟩] := by
  rw [prober] at h
  obtain ⟨us, tr₁, tr₂, hprobes, hsleep, rfl⟩ := runs_bind_done h
  obtain ⟨rs, hlength, rfl⟩ := probes_done (visited_slots t) hprobes
  exact ⟨rs, hlength, congrArg _ (runs_act_done hsleep)⟩

/-- The descriptor and the destination of a probe. -/
def probeOf : Event Ans → Option (ℤ × SockAddr)
  | ⟨.sendto fd [] dst, _⟩ => some (fd, dst)
  | _ => none

theorem filterMap_probed (s : ConnSlot) (r : Except ℕ Unit) :
    (probed s r).filterMap probeOf = [(s.srcFd, s.dstAddr)] := by
  cases r <;> rfl

theorem filterMap_probes {ss : List ConnSlot} {rs : List (Except ℕ Unit)} (h : rs.length = ss.length) :
    (List.zipWith probed ss rs).flatten.filterMap probeOf = ss.map fun s ↦ (s.srcFd, s.dstAddr) := by
  induction ss generalizing rs with
  | nil => rfl
  | cons s ss ih =>
    cases rs with
    | nil => cases h
    | cons r rs =>
      rw [List.zipWith_cons_cons, List.flatten_cons, List.filterMap_append, filterMap_probed, ih (Nat.succ.inj h)]
      rfl

/-- Every call succeeds at once, and the clock stands at 5 seconds. -/
def calm : (c : Act) → Ans c
  | .nowMs => 5000
  | .addAndFetchRr _ => 1
  | .fetchLastSeen _ => 0
  | .read .. => .ok []
  | .sendto .. | .sendmsg .. | .write .. => .ok ()
  | .recvmmsg .. => .error 11
  | .storeLastSeen .. | .warnErrno .. | .warn _ | .print _ | .usleep _ | .sleep _ => ()

section

variable {host : Host} {peers : PeerTable} {self : Fin peers.peers.length} {rcvBuf sndBuf : ℤ} {timeoutMs : UInt64}

/-- The datagram that a probe puts on the wire: the address of its slot's socket
is its source. -/
def Carries (t : ConnTable) (p : ℤ × SockAddr) (d : SockAddr × SockAddr) : Prop :=
  ∃ s ∈ t.allSlots, p = (s.srcFd, s.dstAddr) ∧ d = (s.srcAddr, s.dstAddr)

theorem prober_round {intervalMs : UInt64} {tr : List (Event Ans)} (h : Runs (prober t intervalMs) tr (.done ())) :
    List.Forall₂ (Carries t) (tr.filterMap probeOf) (Mirror.probeRound t) := by
  obtain ⟨rs, hlength, rfl⟩ := prober_done h
  rw [List.filterMap_append, filterMap_probes hlength, Mirror.probeRound]
  change List.Forall₂ _ (_ ++ []) _
  rw [List.append_nil, List.forall₂_map_left_iff, List.forall₂_map_right_iff, List.forall₂_same]
  exact fun s hs ↦ ⟨s, hs, rfl, rfl⟩

/-- A turn of `prober` at `a`, once `b` has heard it, refreshes the slots of `b`
towards `a` and no other. -/
theorem prober_refreshes {a b : Fin peers.peers.length} (hab : a ≠ b)
    (hA : Mirror.OwnAddrs peers (peers.at a)) (hB : Mirror.OwnAddrs peers (peers.at b)) {hostA hostB : Host}
    {rcvA sndA rcvB sndB : ℤ} {timeoutA timeoutB : UInt64} {tA tB : ConnTable}
    (htA : ConnTable.create hostA peers a rcvA sndA timeoutA = .ok tA)
    (htB : ConnTable.create hostB peers b rcvB sndB timeoutB = .ok tB) {intervalMs : UInt64}
    {tr : List (Event Ans)} (h : Runs (prober tA intervalMs) tr (.done ())) :
    ∃ (kB : ℕ) (cB : Conn) (ds : List (SockAddr × SockAddr)), (peers.peers.eraseIdx b)[kB]? = some (peers.at a) ∧
      tB.conns[kB]? = some cB ∧
      List.Forall₂ (Carries tA) (tr.filterMap probeOf) ds ∧ ∀ (now : UInt64) (x : ℕ),
        (ds.foldl (Mirror.heardAt (peers.at b) now) tB).allSlots[x]? =
          tB.allSlots[x]?.map fun s ↦ if x ∈ cB.slots then { s with lastSeen := now } else s := by
  obtain ⟨fdsA, hfdsA, hbA⟩ := ConnTable.create_built htA
  obtain ⟨fdsB, hfdsB, hbB⟩ := ConnTable.create_built htB
  obtain ⟨kA, hatA⟩ := Mirror.exists_at (Ne.symm hab)
  obtain ⟨kB, hatB⟩ := Mirror.exists_at hab
  have hperm := Mirror.probes_perm hatA hatB hfdsA hfdsB hbA hbB hA hB
  refine ⟨kB, _, Mirror.probeRound tA, hatB.row, SlotTable.conns_eq hfdsB hbB hatB.row, prober_round h, fun now x ↦ ?_⟩
  simp only [Mirror.foldl_heardAt, hperm.mem_iff]

end

end Prober

section Stats

variable {t : ConnTable}

/-- What `slotsStats` loads from the slots, and in this order. -/
def loaded (slots : List ℕ) (loads : List UInt64) : List (Event Ans) :=
  List.zipWith (fun slot ls ↦ ⟨.fetchLastSeen slot, ls⟩) slots loads

def snapshots (ss : List ConnSlot) (bs : List Bool) : Str := (List.zipWith snapshot ss bs).flatten

theorem statsLoop_done {now timeoutMs : UInt64} {slots : List ℕ} {ss : List ConnSlot}
    (hslots : slots.map (t.allSlots[·]?) = ss.map some) {sb : Str} {aliveCount deadCount : UInt64}
    {res : Str × UInt64 × UInt64} {tr : List (Event Ans)}
    (h : Runs (statsLoop t now timeoutMs slots sb aliveCount deadCount) tr (.done res)) :
    ∃ loads bs, loads.length = ss.length ∧ tr = loaded slots loads ∧ bs = loads.map (alive now · timeoutMs) ∧
      res = (sb ++ snapshots ss bs, aliveCount + UInt64.ofNat (bs.count true),
        deadCount + UInt64.ofNat (bs.count false)) := by
  induction slots generalizing ss sb aliveCount deadCount tr with
  | nil =>
    obtain rfl := List.map_eq_nil_iff.mp hslots.symm
    cases h
    refine ⟨[], [], rfl, rfl, rfl, ?_⟩
    simp [snapshots]
  | cons slot slots ih =>
    cases ss with
    | nil => cases hslots
    | cons s ss =>
      obtain ⟨hs, hslots⟩ := List.cons.inj hslots
      rw [statsLoop, must_bind hs] at h
      obtain ⟨ls, tr', rfl, hrest⟩ := runs_act h
      by_cases halive : alive now ls timeoutMs = true
      · rw [if_pos halive] at hrest
        obtain ⟨loads, bs, hlength, rfl, rfl, rfl⟩ := ih hslots hrest
        refine ⟨ls :: loads, _, congrArg (· + 1) hlength, rfl, rfl, ?_⟩
        simp [snapshots, halive, UInt64.ofNat_add, UInt64.add_assoc, UInt64.add_comm]
      · rw [if_neg halive] at hrest
        obtain ⟨loads, bs, hlength, rfl, rfl, rfl⟩ := ih hslots hrest
        refine ⟨ls :: loads, _, congrArg (· + 1) hlength, rfl, rfl, ?_⟩
        simp [snapshots, halive, UInt64.ofNat_add, UInt64.add_assoc, UInt64.add_comm]

/-- The slots' line, from the tests of the slots. -/
def slotsLine (t : ConnTable) (bs : List Bool) : Str := str "gofra slots:" ++ snapshots t.allSlots bs

/-- The summary line. -/
def healthLine (aliveCount deadCount : UInt64) : Str :=
  str "gofra slot_health alive=" ++ decimal aliveCount.toNat ++ str " dead=" ++ decimal deadCount.toNat

theorem slotsStats_done {timeoutMs intervalSec : UInt64} {tr : List (Event Ans)}
    (h : Runs (slotsStats t timeoutMs intervalSec) tr (.done ())) :
    ∃ now loads bs, loads.length = t.allSlots.length ∧ bs = loads.map (alive now · timeoutMs) ∧
      tr = ⟨.nowMs, now⟩ :: (loaded (List.range t.allSlots.length) loads ++ [⟨.print (slotsLine t bs), ()⟩,
        ⟨.print (healthLine (UInt64.ofNat (bs.count true)) (UInt64.ofNat (bs.count false))), ()⟩,
        ⟨.sleep intervalSec.toUInt32, ()⟩]) := by
  rw [slotsStats] at h
  obtain ⟨now, tr', rfl, hrest⟩ := runs_act h
  obtain ⟨res, tr₁, tr₂, hloop, hprint, rfl⟩ := runs_bind_done hrest
  obtain ⟨loads, bs, hlength, rfl, hbs, rfl⟩ := statsLoop_done (visited_slots t) hloop
  dsimp only at hprint
  obtain ⟨_, tr₃, rfl, hhealth⟩ := runs_act hprint
  obtain ⟨_, tr₄, rfl, hsleep⟩ := runs_act hhealth
  refine ⟨now, loads, bs, hlength, hbs, ?_⟩
  rw [runs_act_done hsleep, visited_eq, UInt64.zero_add, UInt64.zero_add]
  rfl

/-- An entry of the slots' line without the space before it. -/
def entry (s : ConnSlot) (alive : Bool) : Str :=
  [44].intercalate [91 :: inetNtop s.srcAddr, inetNtop s.dstAddr, [if alive then 49 else 48, 93]]

theorem snapshot_eq (s : ConnSlot) (alive : Bool) : snapshot s alive = 32 :: entry s alive := by
  have hdigit : decimal (if alive then 1 else 0) = [if alive then 49 else 48] := by
    cases alive
    · rfl
    · simp [decimal]
  rw [snapshot, hdigit, entry]
  simp [str, List.intercalate]

theorem inetNtop_chars (sa : SockAddr) : ∀ c ∈ inetNtop sa, 46 ≤ c.toNat ∧ c.toNat ≤ 57 := by
  intro c hc
  rcases dotted_numeric _ c hc with ⟨h₁, h₂⟩ | rfl
  · omega
  · decide

theorem splitOn_entry (s : ConnSlot) (alive : Bool) : (entry s alive).splitOn 44 =
    [91 :: inetNtop s.srcAddr, inetNtop s.dstAddr, [if alive then 49 else 48, 93]] := by
  refine List.splitOn_intercalate 44 ?_ (List.cons_ne_nil _ _)
  have hcomma (sa : SockAddr) : 44 ∉ inetNtop sa := fun hmem ↦ absurd (inetNtop_chars sa 44 hmem).1 (by decide)
  simp only [List.forall_mem_cons, List.not_mem_nil, false_implies, implies_true, and_true]
  refine ⟨?_, hcomma s.dstAddr, ?_⟩
  · simp [hcomma]
  · cases alive <;> decide

theorem space_entry (s : ConnSlot) (alive : Bool) : 32 ∉ entry s alive := by
  have hspace (sa : SockAddr) : 32 ∉ inetNtop sa := fun hmem ↦ absurd (inetNtop_chars sa 32 hmem).1 (by decide)
  cases alive <;> simp [entry, List.intercalate, hspace]

theorem intercalate_cons (a : Str) (l : List Str) : [32].intercalate (a :: l) = a ++ (l.map (32 :: ·)).flatten := by
  induction l generalizing a with
  | nil => simp [List.intercalate]
  | cons b l ih =>
    rw [List.intercalate_cons_cons, ih, List.append_assoc, List.map_cons, List.flatten_cons]
    rfl

/-- The words of the slots' line. -/
theorem splitOn_slotsLine (t : ConnTable) (bs : List Bool) :
    (slotsLine t bs).splitOn 32 = str "gofra" :: str "slots:" :: List.zipWith entry t.allSlots bs := by
  have hline : slotsLine t bs = [32].intercalate (str "gofra" :: str "slots:" :: List.zipWith entry t.allSlots bs) := by
    have hmap : (List.zipWith entry t.allSlots bs).map (32 :: ·) = List.zipWith snapshot t.allSlots bs := by
      have hsnapshot : snapshot = fun s alive ↦ 32 :: entry s alive := funext fun s ↦ funext (snapshot_eq s)
      rw [hsnapshot, List.map_zipWith]
    rw [intercalate_cons, List.map_cons, List.flatten_cons, hmap]
    rfl
  rw [hline]
  refine List.splitOn_intercalate 32 ?_ (List.cons_ne_nil _ _)
  refine List.forall_mem_cons.mpr ⟨by decide, List.forall_mem_cons.mpr ⟨by decide, fun e he ↦ ?_⟩⟩
  obtain ⟨i, hi, rfl⟩ := List.mem_iff_getElem.mp he
  rw [List.getElem_zipWith]
  exact space_entry _ _

/-- The summary ends with the number of dead slots, which stands behind the last `=`. -/
theorem splitOn_healthLine (aliveCount deadCount : UInt64) : (healthLine aliveCount deadCount).splitOn 61 =
    [str "gofra slot_health alive", decimal aliveCount.toNat ++ str " dead", decimal deadCount.toNat] := by
  have hline : healthLine aliveCount deadCount = [61].intercalate
      [str "gofra slot_health alive", decimal aliveCount.toNat ++ str " dead", decimal deadCount.toNat] := by
    simp [healthLine, str, List.intercalate]
  have hequals (n : ℕ) : 61 ∉ decimal n := fun hmem ↦ absurd (decimal_digits n 61 hmem).2 (by decide)
  rw [hline]
  refine List.splitOn_intercalate 61 ?_ (List.cons_ne_nil _ _)
  simp only [List.forall_mem_cons, List.not_mem_nil, false_implies, implies_true, and_true]
  refine ⟨by decide, ?_, hequals _⟩
  rw [List.mem_append, not_or]
  exact ⟨hequals _, by decide⟩

theorem returns_statsLoop (now timeoutMs : UInt64) {slots : List ℕ} (h : ∀ slot ∈ slots, slot < t.allSlots.length)
    (sb : Str) (aliveCount deadCount : UInt64) : (statsLoop t now timeoutMs slots sb aliveCount deadCount).Returns := by
  induction slots generalizing sb aliveCount deadCount with
  | nil => trivial
  | cons slot slots ih =>
    obtain ⟨hslot, hslots⟩ := List.forall_mem_cons.mp h
    rw [statsLoop, must_bind (List.getElem?_eq_getElem hslot)]
    refine returns_bind (fun _ ↦ trivial) fun ls ↦ ?_
    by_cases halive : alive now ls timeoutMs = true
    · simpa [halive] using ih hslots _ _ _
    · simpa [halive] using ih hslots _ _ _

theorem returns_slotsStats (t : ConnTable) (timeoutMs intervalSec : UInt64) :
    (slotsStats t timeoutMs intervalSec).Returns := by
  refine returns_bind (fun _ ↦ trivial) fun now ↦ ?_
  refine returns_bind (returns_statsLoop now timeoutMs (fun slot hslot ↦ ?_) _ 0 0) fun _ _ _ _ ↦ trivial
  rw [visited_eq] at hslot
  exact List.mem_range.mp hslot

/-- What a turn of `slotsStats` prints: a word for each slot in the order of the
table, which says whether the slot has passed the test of `Conn::next`, and the
numbers, in `u64`, of those that have and have not. -/
structure Reports (t : ConnTable) (timeoutMs intervalSec : UInt64) (now : UInt64) (loads : List UInt64)
    (line health : Str) (tr : List (Event Ans)) : Prop where
  length : loads.length = t.allSlots.length
  calls : tr = ⟨.nowMs, now⟩ :: (loaded (List.range t.allSlots.length) loads ++
    [⟨.print line, ()⟩, ⟨.print health, ()⟩, ⟨.sleep intervalSec.toUInt32, ()⟩])
  words : line.splitOn 32 = str "gofra" :: str "slots:" ::
    List.zipWith (fun s ls ↦ entry s (alive now ls timeoutMs)) t.allSlots loads
  fields : ∀ s b, (entry s b).splitOn 44 = [91 :: inetNtop s.srcAddr, inetNtop s.dstAddr, [if b then 49 else 48, 93]]
  counts : ∃ aliveCount deadCount : UInt64, health.splitOn 61 =
      [str "gofra slot_health alive", decimal aliveCount.toNat ++ str " dead", decimal deadCount.toNat] ∧
    aliveCount = UInt64.ofNat (loads.countP (alive now · timeoutMs)) ∧
      aliveCount + deadCount = UInt64.ofNat t.allSlots.length

theorem slotsStats_reports {timeoutMs intervalSec : UInt64} {tr : List (Event Ans)} {o : Outcome Undefined Unit}
    (h : Runs (slotsStats t timeoutMs intervalSec) tr o) : (∀ e, o ≠ .failed e) ∧
      (o = .done () → ∃ now loads line health, Reports t timeoutMs intervalSec now loads line health tr) := by
  constructor
  · rintro e rfl
    exact returns_not_failed (returns_slotsStats t timeoutMs intervalSec) h
  rintro rfl
  obtain ⟨now, loads, bs, hlength, rfl, rfl⟩ := slotsStats_done h
  refine ⟨now, loads, _, _, hlength, rfl, ?_, splitOn_entry, _, _, splitOn_healthLine _ _, ?_, ?_⟩
  · rw [splitOn_slotsLine, List.zipWith_map_right]
  · rw [List.count, List.countP_map]
    refine congrArg _ (List.countP_congr fun ls _ ↦ ?_)
    rw [Function.comp_apply, beq_iff_eq]
  · rw [← UInt64.ofNat_add, Nat.add_comm, List.count_false_add_count_true, List.length_map, hlength]

theorem slotsStats_reports_sample : ∃ tr, Runs (slotsStats LastSeen.sampleTable 1000 60) tr (.done ()) ∧
    ∃ now loads line health, Reports LastSeen.sampleTable 1000 60 now loads line health tr := by
  have hrun := runs_exec (fun _ ↦ calm) (slotsStats LastSeen.sampleTable 1000 60) []
  exact ⟨_, hrun, (slotsStats_reports hrun).2 rfl⟩

end Stats

end Gofra.Visits
