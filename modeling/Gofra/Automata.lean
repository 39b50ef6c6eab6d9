import Gofra.Obligations
import Gofra.Threads

namespace Gofra.Automata

open Lib.Calls Lib.Interleaving Addr Peers Gso Conns Kernel TunReader UdpReader Threads Plane Obligations

/-- Where a thread is in its automaton. -/
inductive Control where
  | reader (r : Reader)
  | sender (s : Sender)
  | stats (s : Stats)
  | nothing

/-- A sender without what its thread does not know. -/
def forget : Sender → Sender
  | .scanning conn now calls _ ticket loads => .scanning conn now calls 0 ticket loads
  | s => s

/-- The steps of the automata at which nothing is called. -/
inductive Silent (t : ConnTable) (srcIdx : UInt32) : Control → Control → Prop
  | sent (conn : ℕ) (now : UInt64) : Silent t srcIdx (.sender (.sending conn now 0)) (.sender .idle)
  | unknown {addr : SockAddr} (h : t.lookupSlot srcIdx addr = none) (now : UInt64) (addrs : List SockAddr) :
      Silent t srcIdx (.reader (.hearing now (addr :: addrs))) (.reader (.hearing now addrs))
  | batchDone (now : UInt64) : Silent t srcIdx (.reader (.hearing now [])) (.reader .waiting)
  | report {i : ℕ} (h : t.allSlots[i]? = none) (now : UInt64) (aliveCount deadCount : ℕ) :
      Silent t srcIdx (.stats (.counting now i aliveCount deadCount)) (.stats .sleeping)

/-- The calls that access what the threads share, or the clock. -/
def shared : Act → Bool
  | .nowMs | .addAndFetchRr _ | .fetchLastSeen _ | .storeLastSeen .. => true
  | _ => false

/-- The steps of the automata with the calls that they stand for. -/
inductive Visible (t : ConnTable) (srcIdx : UInt32) : (c : Act) → Ans c → Control → Control → Prop
  | send (conn calls : ℕ) (now : UInt64) :
      Visible t srcIdx .nowMs now (.sender .idle) (.sender (.sending conn now calls))
  | drawTicket {conn : ℕ} {c : Conn} (hc : t.conns[conn]? = some c) (hslots : c.slots ≠ []) (sum : UInt64)
      (now : UInt64) (calls : ℕ) : Visible t srcIdx (.addAndFetchRr conn) sum
        (.sender (.sending conn now (calls + 1))) (.sender (.scanning conn now calls 0 (sum - 1) []))
  | takeSlot {conn slot : ℕ} {c : Conn} {now ls ticket : UInt64} {loads : List UInt64}
      (hc : t.conns[conn]? = some c) (hslot : c.slots[position c ticket loads.length]? = some slot)
      (halive : alive now ls c.timeoutMs = true) (calls : ℕ) : Visible t srcIdx (.fetchLastSeen slot) ls
        (.sender (.scanning conn now calls 0 ticket loads)) (.sender (.sending conn now calls))
  | skipSlot {conn slot : ℕ} {c : Conn} {now ls ticket : UInt64} {loads : List UInt64}
      (hc : t.conns[conn]? = some c) (hslot : c.slots[position c ticket loads.length]? = some slot)
      (hdead : alive now ls c.timeoutMs = false) (hmore : loads.length + 1 < c.slots.length) (calls : ℕ) :
      Visible t srcIdx (.fetchLastSeen slot) ls (.sender (.scanning conn now calls 0 ticket loads))
        (.sender (.scanning conn now calls 0 ticket (loads ++ [ls])))
  | allDead {conn slot base : ℕ} {c : Conn} {now ls ticket : UInt64} {loads : List UInt64}
      (hc : t.conns[conn]? = some c) (hslot : c.slots[position c ticket loads.length]? = some slot)
      (hdead : alive now ls c.timeoutMs = false) (hlast : loads.length + 1 = c.slots.length)
      (hbase : c.slots[ticket.toNat % c.slots.length]? = some base) (calls : ℕ) :
      Visible t srcIdx (.fetchLastSeen slot) ls (.sender (.scanning conn now calls 0 ticket loads))
        (.sender (.sending conn now calls))
  | recvmmsg (udpFd : ℤ) (sc sc' : UdpReaderScratch) (n : ℕ) : Visible t srcIdx (.recvmmsg udpFd sc) (.ok (sc', n))
      (.reader .waiting) (.reader (.received ((sc'.msgs.take n).map Msg.addr)))
  | readClock (now : UInt64) (addrs : List SockAddr) :
      Visible t srcIdx .nowMs now (.reader (.received addrs)) (.reader (.hearing now addrs))
  | stored {addr : SockAddr} {slot : ℕ} (h : t.lookupSlot srcIdx addr = some slot) (now : UInt64)
      (addrs : List SockAddr) : Visible t srcIdx (.storeLastSeen slot now) ()
        (.reader (.hearing now (addr :: addrs))) (.reader (.hearing now addrs))
  | survey (now : UInt64) : Visible t srcIdx .nowMs now (.stats .sleeping) (.stats (.counting now 0 0 0))
  | count (now ls : UInt64) (i aliveCount deadCount : ℕ) : Visible t srcIdx (.fetchLastSeen i) ls
      (.stats (.counting now i aliveCount deadCount))
      (.stats (if alive now ls t.timeoutMs then .counting now (i + 1) (aliveCount + 1) deadCount
        else .counting now (i + 1) aliveCount (deadCount + 1)))
  | other {c : Act} (h : shared c = false) (r : Ans c) (s : Control) : Visible t srcIdx c r s s

def moves (t : ConnTable) (srcIdx : UInt32) : Moves Act Ans Control := ⟨Silent t srcIdx, Visible t srcIdx⟩

section Rules

variable {t : ConnTable} {srcIdx : UInt32} {α β : Type} {Q : α → Control → Prop} {s s' : Control}

theorem accompanies_other {c : Act} (h : shared c = false) {f : Ans c → Thread α}
    (hf : ∀ r, Accompanies (moves t srcIdx) Q (f r) s) : Accompanies (moves t srcIdx) Q (act c >>= f) s :=
  accompanies_perform fun r ↦ ⟨s, .other h r s, hf r⟩

theorem accompanies_step {p : Thread α} (hs : Silent t srcIdx s s') (h : Accompanies (moves t srcIdx) Q p s') :
    Accompanies (moves t srcIdx) Q p s := accompanies_silent (.single hs) h

theorem accompanies_must {o : Option β} {f : β → Thread α}
    (h : ∀ b, o = some b → Accompanies (moves t srcIdx) Q (f b) s) :
    Accompanies (moves t srcIdx) Q (must o >>= f) s := by
  cases o with
  | none => trivial
  | some b => exact h b rfl

theorem accompanies_orWarn (what : Str) (r : Except ℕ Unit) (s : Control) :
    Accompanies (moves t srcIdx) (fun _ s' ↦ s' = s) (orWarn what r) s := by
  cases r with
  | ok _ => exact accompanies_pure rfl
  | error err =>
    rw [orWarn, ← bind_pure (act _)]
    exact accompanies_other rfl fun _ ↦ accompanies_pure rfl

end Rules

section Send

variable {t : ConnTable} {srcIdx : UInt32} {conn calls : ℕ} {now : UInt64}

theorem accompanies_scan {c : Conn} {ticket : UInt64} {loads : List UInt64} (hc : t.conns[conn]? = some c)
    {is : List ℕ} (hmore : loads.length < c.slots.length)
    (his : is = (scanOrder c.slots.length (ticket.toNat % c.slots.length)).drop loads.length) :
    Accompanies (moves t srcIdx) (fun _ s ↦ s = .sender (.sending conn now calls))
      (scan c now (ticket.toNat % c.slots.length) is) (.sender (.scanning conn now calls 0 ticket loads)) := by
  have hlen : (scanOrder c.slots.length (ticket.toNat % c.slots.length)).length = c.slots.length := by
    rw [scanOrder, List.length_map, List.length_range]
  induction is generalizing loads with
  | nil =>
    rw [eq_comm, List.drop_eq_nil_iff, hlen] at his
    omega
  | cons i is ih =>
    rw [List.drop_eq_getElem_cons (by omega)] at his
    obtain ⟨hi, his⟩ := List.cons.inj his
    have hposition : i = position c ticket loads.length := by
      rw [hi, position]
      simp only [scanOrder, List.getElem_map, List.getElem_range]
    rw [scan]
    refine accompanies_must fun slot hslot ↦ ?_
    rw [hposition] at hslot
    refine accompanies_perform fun ls ↦ ?_
    by_cases halive : alive now ls c.timeoutMs = true
    · rw [if_pos halive]
      exact ⟨_, .takeSlot hc hslot halive calls, accompanies_pure rfl⟩
    · rw [if_neg halive]
      rw [Bool.not_eq_true] at halive
      by_cases hlast : loads.length + 1 = c.slots.length
      · obtain ⟨base, hbase⟩ : ∃ base, c.slots[ticket.toNat % c.slots.length]? = some base :=
          ⟨_, List.getElem?_eq_getElem (Nat.mod_lt _ (by omega))⟩
        rw [List.drop_eq_nil_of_le (by omega)] at his
        rw [his, scan, hbase]
        exact ⟨_, .allDead hc hslot halive hlast hbase calls, accompanies_pure rfl⟩
      · have hmore' : loads.length + 1 < c.slots.length := by omega
        refine ⟨_, .skipSlot hc hslot halive hmore' calls, ih ?_ ?_⟩
        · rwa [List.length_append, List.length_singleton]
        · rw [his, List.length_append, List.length_singleton]

variable (hslots : ∀ (k : ℕ) (c : Conn), t.conns[k]? = some c → c.slots ≠ [])

include hslots

theorem accompanies_next : Accompanies (moves t srcIdx) (fun _ s ↦ s = .sender (.sending conn now calls))
    (next t conn now) (.sender (.sending conn now (calls + 1))) := by
  rw [next]
  refine accompanies_must fun c hc ↦ ?_
  have hpos := List.length_pos_iff.mpr (hslots conn c hc)
  refine accompanies_perform fun sum ↦ ⟨_, .drawTicket hc (hslots conn c hc) sum now calls, ?_⟩
  rw [if_neg (by omega)]
  exact accompanies_scan hc hpos rfl

theorem accompanies_sendOne (pkt : List UInt8) : Accompanies (moves t srcIdx) (fun _ s ↦ s = .sender .idle)
    (Plane.sendOne t conn pkt) (.sender .idle) := by
  rw [Plane.sendOne]
  refine accompanies_perform fun now ↦ ⟨_, .send conn 1 now, ?_⟩
  refine accompanies_bind (accompanies_next hslots) ?_
  rintro slot _ rfl
  refine accompanies_must fun s _ ↦ accompanies_other rfl fun r ↦ ?_
  exact accompanies_step (.sent conn now) (accompanies_orWarn _ r _)

/-- How many calls of `Conn::next` there will be is known from the start. -/
theorem accompanies_usoLoop (segBufs : List (List UInt8)) (segSizes : List ℕ) (gsoSize : UInt16)
    (partSize segs fuel i : ℕ) : ∃ calls, Accompanies (moves t srcIdx) (fun _ s ↦ s = .sender (.sending conn now 0))
      (Plane.usoLoop t conn now segBufs segSizes gsoSize partSize segs fuel i)
      (.sender (.sending conn now calls)) := by
  induction fuel generalizing i with
  | zero => exact ⟨0, accompanies_pure rfl⟩
  | succ fuel ih =>
    rw [Plane.usoLoop]
    split
    · obtain ⟨calls, hrest⟩ := ih (min (i + partSize) segs)
      refine ⟨calls + 1, accompanies_must fun iov _ ↦ accompanies_bind (accompanies_next hslots) ?_⟩
      rintro slot _ rfl
      refine accompanies_must fun s _ ↦ accompanies_other rfl fun r ↦ accompanies_bind (accompanies_orWarn _ r _) ?_
      rintro - _ rfl
      exact hrest
    · exact ⟨0, accompanies_pure rfl⟩

theorem accompanies_sendUso (segBufs : List (List UInt8)) (segSizes : List ℕ) (segs : ℕ) :
    Accompanies (moves t srcIdx) (fun _ s ↦ s = .sender .idle) (Plane.sendUso t conn segBufs segSizes segs)
      (.sender .idle) := by
  rw [Plane.sendUso]
  refine accompanies_must fun size _ ↦ accompanies_perform fun now ↦ ?_
  obtain ⟨calls, hloop⟩ := @accompanies_usoLoop t srcIdx conn now hslots segBufs segSizes
    (UInt16.ofNat size) ((segs + usoParts - 1) / usoParts) segs segs 0
  refine ⟨_, .send conn calls now, ?_⟩
  rw [← bind_pure (Plane.usoLoop ..)]
  refine accompanies_bind hloop ?_
  rintro - _ rfl
  exact accompanies_step (.sent conn now) (accompanies_pure rfl)

theorem accompanies_forward (sc : Scratch) (innerLen : ℕ) (hdr : VirtioNetHdr) :
    Accompanies (moves t srcIdx) (fun _ s ↦ s = .sender .idle) (Plane.forward t conn sc innerLen hdr)
      (.sender .idle) := by
  have hwarn (msg : Str) (sc : Scratch) : Accompanies (moves t srcIdx) (fun _ s ↦ s = .sender .idle)
      (act (.warn msg) >>= fun _ ↦ pure sc : Thread Scratch) (.sender .idle) :=
    accompanies_other rfl fun _ ↦ accompanies_pure rfl
  rw [Plane.forward]
  split
  · refine accompanies_must fun sc _ ↦ accompanies_bind (accompanies_sendOne hslots _) ?_
    rintro - _ rfl
    exact accompanies_pure rfl
  · split
    · refine accompanies_must fun p _ ↦ ?_
      dsimp only
      split
      · exact hwarn _ _
      · refine accompanies_bind (accompanies_sendUso hslots _ _ _) ?_
        rintro - _ rfl
        exact accompanies_pure rfl
    · exact hwarn _ _

theorem accompanies_tunReader (tunFd : ℤ) (sc : Scratch) : Accompanies (moves t srcIdx) (fun _ s ↦ s = .sender .idle)
    (Plane.tunReader t tunFd sc) (.sender .idle) := by
  rw [Plane.tunReader]
  refine accompanies_other rfl fun r ↦ ?_
  cases r with
  | error err => exact accompanies_other rfl fun _ ↦ accompanies_pure rfl
  | ok data =>
    dsimp only
    split
    · exact accompanies_pure rfl
    · refine accompanies_must fun hdr _ ↦ ?_
      cases (dstFromIPv4 (sc.read data).inner (min data.length readSize - virtioNetHdrLen)).bind t.lookup with
      | none => exact accompanies_pure rfl
      | some k => exact accompanies_forward hslots _ _ _

end Send

section Receive

variable {t : ConnTable} {srcIdx : UInt32} {now : UInt64} {addrs : List SockAddr}

theorem accompanies_hear (addr : SockAddr) : Accompanies (moves t srcIdx) (fun _ s ↦ s = .reader (.hearing now addrs))
    (Plane.hear t srcIdx addr now) (.reader (.hearing now (addr :: addrs))) := by
  rw [Plane.hear]
  cases hfound : t.lookupSlot srcIdx addr with
  | none => exact accompanies_step (.unknown hfound now addrs) (accompanies_pure rfl)
  | some slot =>
    dsimp only
    rw [← bind_pure (act _)]
    exact accompanies_perform fun _ ↦ ⟨_, .stored hfound now addrs, accompanies_pure rfl⟩

theorem accompanies_write (tunFd : ℤ) (x : TunWrite) (what : Str) (s : Control) :
    Accompanies (moves t srcIdx) (fun _ s' ↦ s' = s) (act (.write tunFd x) >>= fun r ↦ orWarn what r) s :=
  accompanies_other rfl fun r ↦ accompanies_orWarn what r s

theorem accompanies_splitLoop (tunFd : ℤ) (zeroHdr buf : List UInt8) (gsoSize payloadLen fuel off : ℕ) (s : Control) :
    Accompanies (moves t srcIdx) (fun _ s' ↦ s' = s) (Plane.splitLoop tunFd zeroHdr buf gsoSize payloadLen fuel off)
      s := by
  induction fuel generalizing off with
  | zero => exact accompanies_pure rfl
  | succ fuel ih =>
    rw [Plane.splitLoop]
    split
    · refine accompanies_must fun data _ ↦ accompanies_other rfl fun w ↦ accompanies_bind (accompanies_orWarn _ w s) ?_
      rintro - _ rfl
      exact ih _
    · exact accompanies_pure rfl

theorem accompanies_writeMsg (tunFd : ℤ) (zeroHdr : List UInt8) (m : Msg) (gsoSize : ℤ) (s : Control) :
    Accompanies (moves t srcIdx) (fun _ s' ↦ s' = s) (Plane.writeMsg tunFd zeroHdr m gsoSize) s := by
  rw [Plane.writeMsg]
  split
  · exact accompanies_pure rfl
  · split
    · exact accompanies_splitLoop tunFd zeroHdr m.buf _ _ _ _ s
    · exact accompanies_must fun data _ ↦ accompanies_write tunFd [data] _ s

/-- The automaton hears the messages of a batch in the order of the loop. -/
theorem accompanies_batchLoop (tunFd : ℤ) {fuel i : ℕ} {sc : UdpReaderScratch}
    (haddrs : addrs = ((sc.msgs.take (i + fuel)).drop i).map Msg.addr) :
    Accompanies (moves t srcIdx) (fun _ s ↦ s = .reader .waiting) (batchLoop t tunFd srcIdx now fuel i sc)
      (.reader (.hearing now addrs)) := by
  induction fuel generalizing i sc addrs with
  | zero =>
    rw [Nat.add_zero, List.drop_eq_nil_of_le (List.length_take_le i sc.msgs)] at haddrs
    subst haddrs
    exact accompanies_step (.batchDone now) (accompanies_pure rfl)
  | succ fuel ih =>
    rw [batchLoop]
    refine accompanies_must fun m hm ↦ ?_
    have hnext : (sc.msgs.take (i + (fuel + 1)))[i]? = some m := by
      rw [List.getElem?_take_of_lt (by omega), hm]
    obtain ⟨hi, hm'⟩ := List.getElem?_eq_some_iff.mp hnext
    rw [List.drop_eq_getElem_cons hi, hm', List.map_cons] at haddrs
    subst haddrs
    refine accompanies_bind (accompanies_hear m.addr) ?_
    rintro - _ rfl
    refine accompanies_must fun gsoSize _ ↦ accompanies_bind (accompanies_writeMsg tunFd sc.zeroHdr m gsoSize _) ?_
    rintro - _ rfl
    refine ih ?_
    rw [List.take_set, List.drop_set_of_lt (by omega), Nat.add_right_comm i 1 fuel]
    rfl

theorem accompanies_udpReader (udpFd tunFd : ℤ) (sc : UdpReaderScratch) :
    Accompanies (moves t srcIdx) (fun _ s ↦ s = .reader .waiting) (Plane.udpReader t udpFd tunFd srcIdx sc)
      (.reader .waiting) := by
  rw [Plane.udpReader]
  refine accompanies_perform fun r ↦ ?_
  cases r with
  | error err => exact ⟨_, .other rfl _ _, accompanies_other rfl fun _ ↦ accompanies_pure rfl⟩
  | ok p =>
    obtain ⟨sc', n⟩ := p
    refine ⟨_, .recvmmsg udpFd sc sc' n, accompanies_perform fun now ↦ ⟨_, .readClock now _, ?_⟩⟩
    exact accompanies_batchLoop tunFd (by rw [Nat.zero_add, List.drop_zero])

end Receive

section Visit

variable {t : ConnTable} {srcIdx : UInt32}

theorem accompanies_probe (slot : ℕ) (s : Control) :
    Accompanies (moves t srcIdx) (fun _ s' ↦ s' = s) (probe t slot) s := by
  rw [probe]
  exact accompanies_must fun _ _ ↦ accompanies_other rfl fun r ↦ accompanies_orWarn _ r s

theorem accompanies_prober (intervalMs : UInt64) (s : Control) :
    Accompanies (moves t srcIdx) (fun _ s' ↦ s' = s) (prober t intervalMs) s := by
  have hprobes : Accompanies (moves t srcIdx) (fun _ s' ↦ s' = s) ((visited t).mapM (probe t)) s := by
    refine accompanies_mapM (fun slot _ s' hs' ↦ ?_) rfl
    subst hs'
    exact accompanies_probe slot s'
  rw [prober]
  refine accompanies_bind hprobes ?_
  rintro - _ rfl
  rw [← bind_pure (act _)]
  exact accompanies_other rfl fun _ ↦ accompanies_pure rfl

theorem accompanies_statsLoop {now : UInt64} {n i : ℕ} (hn : i + n = t.allSlots.length) (sb : Str) (al de : UInt64)
    (aliveCount deadCount : ℕ) : Accompanies (moves t srcIdx) (fun _ s ↦ s = .stats .sleeping)
      (statsLoop t now t.timeoutMs (List.range' i n) sb al de)
      (.stats (.counting now i aliveCount deadCount)) := by
  induction n generalizing i sb al de aliveCount deadCount with
  | zero =>
    have hend : t.allSlots[i]? = none := List.getElem?_eq_none (by omega)
    exact accompanies_step (.report hend now aliveCount deadCount) (accompanies_pure rfl)
  | succ n ih =>
    rw [List.range'_succ, statsLoop]
    refine accompanies_must fun s _ ↦ accompanies_perform fun ls ↦ ⟨_, .count now ls i aliveCount deadCount, ?_⟩
    split
    · exact ih (by omega) ..
    · exact ih (by omega) ..

theorem accompanies_slotsStats (intervalSec : UInt64) : Accompanies (moves t srcIdx) (fun _ s ↦ s = .stats .sleeping)
    (slotsStats t t.timeoutMs intervalSec) (.stats .sleeping) := by
  rw [slotsStats, visited_eq, List.range_eq_range']
  refine accompanies_perform fun now ↦ ⟨_, .survey now, ?_⟩
  refine accompanies_bind (accompanies_statsLoop (Nat.zero_add _) _ 0 0 0 0) ?_
  rintro ⟨sb, aliveCount, deadCount⟩ _ rfl
  refine accompanies_other rfl fun _ ↦ accompanies_other rfl fun _ ↦ ?_
  rw [← bind_pure (act _)]
  exact accompanies_other rfl fun _ ↦ accompanies_pure rfl

end Visit

/-- The source index that a thread looks slots up with; only a `udpReader` does. -/
def srcIdxOf : Runnable → UInt32
  | .udpReader _ _ srcIdx => srcIdx
  | _ => 0

/-- Where a thread's automaton is between two turns. -/
def resting : Runnable → Control
  | .tunReader _ => .sender .idle
  | .udpReader .. => .reader .waiting
  | .prober _ => .nothing
  | .slotsStats .. => .stats .sleeping

/-- In a turn of its loop a thread goes once round its automaton. -/
theorem accompanies_turn {t : ConnTable} (hslots : ∀ (k : ℕ) (c : Conn), t.conns[k]? = some c → c.slots ≠ [])
    {r : Runnable} (htimeout : ∀ timeoutMs intervalSec, r = .slotsStats timeoutMs intervalSec →
      timeoutMs = t.timeoutMs) (x : Local) :
    Accompanies (moves t (srcIdxOf r)) (fun _ s ↦ s = resting r) (turn t r x) (resting r) := by
  cases r <;> cases x <;> try trivial
  case tunReader tunFd sc =>
    refine accompanies_bind (accompanies_tunReader hslots tunFd sc) ?_
    rintro _ _ rfl
    exact accompanies_pure rfl
  case udpReader udpFd tunFd srcIdx sc =>
    refine accompanies_bind (accompanies_udpReader udpFd tunFd sc) ?_
    rintro _ _ rfl
    exact accompanies_pure rfl
  case prober intervalMs =>
    refine accompanies_bind (accompanies_prober intervalMs .nothing) ?_
    rintro _ _ rfl
    exact accompanies_pure rfl
  case slotsStats timeoutMs intervalSec =>
    obtain rfl := htimeout timeoutMs intervalSec rfl
    refine accompanies_bind (accompanies_slotsStats intervalSec) ?_
    rintro _ _ rfl
    exact accompanies_pure rfl

end Gofra.Automata
