import Mathlib.Logic.Function.Basic
import Mathlib.Logic.Relation
import Gofra.UdpReader

namespace Gofra.Threads

open Addr Peers Conns UdpReader

/-- Where a `udpReader` thread is: before `recvmmsg`, before `nowMs`, or in the
loop over a batch, with the source addresses of the messages still to come. -/
inductive Reader where
  | waiting
  | received (addrs : List SockAddr)
  | hearing (now : UInt64) (addrs : List SockAddr)

/-- Where a `tunReader` thread is. Between `nowMs` and the end of `sendOne` or
`sendUso` it makes `calls` more calls of `Conn::next`; within a call it has its
ticket and the `lastSeen` values it has loaded. The thread does not know `turn`,
the number of calls that drew a ticket of the connection before. -/
inductive Sender where
  | idle
  | sending (conn : ℕ) (now : UInt64) (calls : ℕ)
  | scanning (conn : ℕ) (now : UInt64) (calls turn : ℕ) (ticket : UInt64) (loads : List UInt64)

/-- Where the `slotsStats` thread is: asleep, or at slot `i` with its two counts. -/
inductive Stats where
  | sleeping
  | counting (now : UInt64) (i aliveCount deadCount : ℕ)

structure Store where
  srcIdx : UInt32
  slot : ℕ
  now : UInt64

structure Return where
  conn : ℕ
  turn : ℕ
  ticket : UInt64
  now : UInt64
  loads : List UInt64
  slot : ℕ

/-- A liveness test, by `Conn::next` or by `slotsStats`. -/
structure Test where
  now : UInt64
  lastSeen : UInt64
  timeoutMs : UInt64
  passed : Bool

/-- All threads, what they share, and what has happened so far. One `udpReader`
runs for each source index; there may be any number of `tunReader`s. -/
structure State where
  table : ConnTable
  clock : UInt64
  readers : UInt32 → Reader
  senders : List Sender
  stats : Stats
  stores : List Store
  drawn : ℕ → ℕ
  returns : List Return
  tests : List Test

/-- What a `lookupSlot` that finds something leads to. -/
def storesOf (t : ConnTable) (srcIdx : UInt32) (addr : SockAddr) (now : UInt64) : List Store :=
  ((t.lookupSlot srcIdx addr).map fun slot ↦ ⟨srcIdx, slot, now⟩).toList

def draw (t : ConnTable) (conn : ℕ) : ConnTable :=
  { t with conns := t.conns.modify conn fun c ↦ { c with rr := c.rr + 1 } }

/-- The position that a call looks at after `k` others. -/
def position (c : Conn) (ticket : UInt64) (k : ℕ) : ℕ :=
  (ticket.toNat % c.slots.length + k) % c.slots.length

/-- One atomic step of one thread, or of the clock. -/
inductive Step : State → State → Prop
  | tick {st : State} {clock : UInt64} (h : st.clock ≤ clock) : Step st { st with clock }
  | recvmmsg {st : State} {i : UInt32} (addrs : List SockAddr) (h : st.readers i = .waiting) :
      Step st { st with readers := Function.update st.readers i (.received addrs) }
  | readClock {st : State} {i : UInt32} {addrs : List SockAddr} (h : st.readers i = .received addrs) :
      Step st { st with readers := Function.update st.readers i (.hearing st.clock addrs) }
  | hear {st : State} {i : UInt32} {now : UInt64} {addr : SockAddr} {addrs : List SockAddr}
      (h : st.readers i = .hearing now (addr :: addrs)) :
      Step st { st with
        table := hear st.table i addr now
        stores := st.stores ++ storesOf st.table i addr now
        readers := Function.update st.readers i (.hearing now addrs) }
  | batchDone {st : State} {i : UInt32} {now : UInt64} (h : st.readers i = .hearing now []) :
      Step st { st with readers := Function.update st.readers i .waiting }
  | send {st : State} {i : ℕ} (conn calls : ℕ) (h : st.senders[i]? = some .idle) :
      Step st { st with senders := st.senders.set i (.sending conn st.clock calls) }
  | drawTicket {st : State} {i conn calls : ℕ} {now : UInt64} {c : Conn}
      (h : st.senders[i]? = some (.sending conn now (calls + 1))) (hc : st.table.conns[conn]? = some c)
      (hslots : c.slots ≠ []) :
      Step st { st with
        table := draw st.table conn
        drawn := Function.update st.drawn conn (st.drawn conn + 1)
        senders := st.senders.set i (.scanning conn now calls (st.drawn conn) c.rr []) }
  | takeSlot {st : State} {i conn calls turn slot : ℕ} {now ticket : UInt64} {loads : List UInt64}
      {c : Conn} {s : ConnSlot} (h : st.senders[i]? = some (.scanning conn now calls turn ticket loads))
      (hc : st.table.conns[conn]? = some c) (hslot : c.slots[position c ticket loads.length]? = some slot)
      (hs : st.table.allSlots[slot]? = some s) (halive : alive now s.lastSeen c.timeoutMs = true) :
      Step st { st with
        senders := st.senders.set i (.sending conn now calls)
        tests := st.tests ++ [⟨now, s.lastSeen, c.timeoutMs, true⟩]
        returns := st.returns ++ [⟨conn, turn, ticket, now, loads ++ [s.lastSeen], slot⟩] }
  | skipSlot {st : State} {i conn calls turn slot : ℕ} {now ticket : UInt64} {loads : List UInt64}
      {c : Conn} {s : ConnSlot} (h : st.senders[i]? = some (.scanning conn now calls turn ticket loads))
      (hc : st.table.conns[conn]? = some c) (hslot : c.slots[position c ticket loads.length]? = some slot)
      (hs : st.table.allSlots[slot]? = some s) (hdead : alive now s.lastSeen c.timeoutMs = false)
      (hmore : loads.length + 1 < c.slots.length) :
      Step st { st with
        senders := st.senders.set i (.scanning conn now calls turn ticket (loads ++ [s.lastSeen]))
        tests := st.tests ++ [⟨now, s.lastSeen, c.timeoutMs, false⟩] }
  | allDead {st : State} {i conn calls turn slot base : ℕ} {now ticket : UInt64} {loads : List UInt64}
      {c : Conn} {s : ConnSlot} (h : st.senders[i]? = some (.scanning conn now calls turn ticket loads))
      (hc : st.table.conns[conn]? = some c) (hslot : c.slots[position c ticket loads.length]? = some slot)
      (hs : st.table.allSlots[slot]? = some s) (hdead : alive now s.lastSeen c.timeoutMs = false)
      (hlast : loads.length + 1 = c.slots.length)
      (hbase : c.slots[ticket.toNat % c.slots.length]? = some base) :
      Step st { st with
        senders := st.senders.set i (.sending conn now calls)
        tests := st.tests ++ [⟨now, s.lastSeen, c.timeoutMs, false⟩]
        returns := st.returns ++ [⟨conn, turn, ticket, now, loads ++ [s.lastSeen], base⟩] }
  | sent {st : State} {i conn : ℕ} {now : UInt64} (h : st.senders[i]? = some (.sending conn now 0)) :
      Step st { st with senders := st.senders.set i .idle }
  | survey {st : State} (h : st.stats = .sleeping) : Step st { st with stats := .counting st.clock 0 0 0 }
  | count {st : State} {i aliveCount deadCount : ℕ} {now : UInt64} {s : ConnSlot}
      (h : st.stats = .counting now i aliveCount deadCount) (hs : st.table.allSlots[i]? = some s) :
      Step st { st with
        stats := if alive now s.lastSeen st.table.timeoutMs then .counting now (i + 1) (aliveCount + 1) deadCount
          else .counting now (i + 1) aliveCount (deadCount + 1)
        tests := st.tests ++ [⟨now, s.lastSeen, st.table.timeoutMs, alive now s.lastSeen st.table.timeoutMs⟩] }
  | report {st : State} {i aliveCount deadCount : ℕ} {now : UInt64}
      (h : st.stats = .counting now i aliveCount deadCount) (hi : st.table.allSlots[i]? = none) :
      Step st { st with stats := .sleeping }

/-- Any number of steps, in any order. -/
abbrev Steps : State → State → Prop := Relation.ReflTransGen Step

/-- The threads as `run` starts them, after the table was built at `startMs`. -/
structure Start (startMs : UInt64) (t : ConnTable) (st : State) : Prop where
  table : st.table = t
  clock : startMs ≤ st.clock
  readers : ∀ i, st.readers i = .waiting
  senders : ∀ s ∈ st.senders, s = .idle
  stats : st.stats = .sleeping
  stores : st.stores = []
  drawn : ∀ conn, st.drawn conn = 0
  returns : st.returns = []
  tests : st.tests = []

def Reachable (startMs : UInt64) (t : ConnTable) (st : State) : Prop :=
  ∃ st₀, Start startMs t st₀ ∧ Steps st₀ st

theorem Reachable.step {startMs : UInt64} {t : ConnTable} {st st' : State} (h : Reachable startMs t st)
    (hstep : Step st st') : Reachable startMs t st' := by
  obtain ⟨st₀, hstart, hsteps⟩ := h
  exact ⟨st₀, hstart, hsteps.tail hstep⟩

/-- What holds at the start and is kept by every step holds always. -/
theorem Reachable.invariant {startMs : UInt64} {t : ConnTable} {P : State → Prop}
    (hstart : ∀ st, Start startMs t st → P st)
    (hstep : ∀ st st', Reachable startMs t st → P st → Step st st' → P st') {st : State}
    (h : Reachable startMs t st) : P st := by
  obtain ⟨st₀, h₀, hsteps⟩ := h
  induction hsteps with
  | refl => exact hstart st₀ h₀
  | tail hsteps hs ih => exact hstep _ _ ⟨st₀, h₀, hsteps⟩ ih hs

/-- A table without what the threads change: `rr` and `lastSeen`. -/
def fixed (t : ConnTable) : ConnTable :=
  { t with
    conns := t.conns.map fun c ↦ { c with rr := 0 }
    allSlots := t.allSlots.map fun s ↦ { s with lastSeen := 0 } }

theorem map_modify_of_eq {α β : Type} {f : α → α} {g : α → β} (h : ∀ a, g (f a) = g a) (l : List α)
    (i : ℕ) : (l.modify i f).map g = l.map g := by
  apply List.ext_getElem? fun j ↦ ?_
  rw [List.getElem?_map, List.getElem?_map, List.getElem?_modify]
  cases l[j]? with
  | none => rfl
  | some a =>
    by_cases hij : i = j
    · simp [hij, h]
    · simp [hij]

theorem fixed_hear (t : ConnTable) (srcIdx : UInt32) (addr : SockAddr) (now : UInt64) :
    fixed (UdpReader.hear t srcIdx addr now) = fixed t := by
  rw [UdpReader.hear]
  cases t.lookupSlot srcIdx addr with
  | none => rfl
  | some slot =>
    have hslots := @map_modify_of_eq _ _ (fun s ↦ { s with lastSeen := now })
      (fun s : ConnSlot ↦ { s with lastSeen := 0 }) (fun _ ↦ rfl) t.allSlots slot
    exact congrArg (fun slots ↦ { fixed t with allSlots := slots }) hslots

theorem fixed_draw (t : ConnTable) (conn : ℕ) : fixed (draw t conn) = fixed t := by
  have hconns := @map_modify_of_eq _ _ (fun c ↦ { c with rr := c.rr + 1 })
    (fun c : Conn ↦ { c with rr := 0 }) (fun _ ↦ rfl) t.conns conn
  exact congrArg (fun conns ↦ { fixed t with conns := conns }) hconns

/-- Whatever happens, only `rr` and `lastSeen` change. -/
theorem Reachable.fixed_eq {startMs : UInt64} {t : ConnTable} {st : State} (h : Reachable startMs t st) :
    fixed st.table = fixed t := by
  refine h.invariant (fun st hst ↦ congrArg fixed hst.table) fun st st' _ ih hstep ↦ ?_
  cases hstep with
  | hear => exact (fixed_hear ..).trans ih
  | drawTicket => exact (fixed_draw ..).trans ih
  | _ => exact ih

theorem conns_of_fixed {t t₀ : ConnTable} (h : fixed t = fixed t₀) {k : ℕ} {c : Conn}
    (hc : t.conns[k]? = some c) : ∃ rr, t₀.conns[k]? = some { c with rr } := by
  have hmap := congrArg (fun t : ConnTable ↦ t.conns[k]?) h
  simp only [fixed, List.getElem?_map, hc, Option.map_some] at hmap
  obtain ⟨c₀, hc₀, he⟩ := Option.map_eq_some_iff.mp hmap.symm
  refine ⟨c₀.rr, hc₀.trans (congrArg some ?_)⟩
  cases c
  cases c₀
  cases he
  rfl

theorem slots_of_fixed {t t₀ : ConnTable} (h : fixed t = fixed t₀) {x : ℕ} {s : ConnSlot}
    (hs : t.allSlots[x]? = some s) : ∃ lastSeen, t₀.allSlots[x]? = some { s with lastSeen } := by
  have hmap := congrArg (fun t : ConnTable ↦ t.allSlots[x]?) h
  simp only [fixed, List.getElem?_map, hs, Option.map_some] at hmap
  obtain ⟨s₀, hs₀, he⟩ := Option.map_eq_some_iff.mp hmap.symm
  refine ⟨s₀.lastSeen, hs₀.trans (congrArg some ?_)⟩
  cases s
  cases s₀
  cases he
  rfl

theorem lookupSlot_of_fixed {t t₀ : ConnTable} (h : fixed t = fixed t₀) (srcIdx : UInt32) (addr : SockAddr) :
    t.lookupSlot srcIdx addr = t₀.lookupSlot srcIdx addr := by
  have hentry := congrArg ConnTable.byEntry h
  change t.byEntry = t₀.byEntry at hentry
  rw [ConnTable.lookupSlot, hentry, ConnTable.lookupSlot]

/-- How a step can change the table: a datagram from an unknown source does not,
one from a known source changes the `lastSeen` of its slot, and a call that
draws a ticket changes a counter. -/
inductive TableStep (st st' : State) : Prop
  | same (table : st'.table = st.table) (stores : st'.stores = st.stores)
  | unknown {i : UInt32} {now : UInt64} {addr : SockAddr} {addrs : List SockAddr}
      (reader : st.readers i = .hearing now (addr :: addrs))
      (readers : st'.readers = Function.update st.readers i (.hearing now addrs))
      (notFound : st.table.lookupSlot i addr = none)
      (table : st'.table = st.table) (stores : st'.stores = st.stores)
  | stored {i : UInt32} {now : UInt64} {addr : SockAddr} {addrs : List SockAddr} {slot : ℕ}
      (reader : st.readers i = .hearing now (addr :: addrs))
      (readers : st'.readers = Function.update st.readers i (.hearing now addrs))
      (found : st.table.lookupSlot i addr = some slot)
      (table : st'.table = { st.table with
        allSlots := st.table.allSlots.modify slot fun s ↦ { s with lastSeen := now } })
      (stores : st'.stores = st.stores ++ [⟨i, slot, now⟩])
  | drew {conn : ℕ} (readers : st'.readers = st.readers) (table : st'.table = draw st.table conn)
      (stores : st'.stores = st.stores)

theorem step_table {st st' : State} (h : Step st st') : TableStep st st' := by
  cases h with
  | @hear i now addr addrs h =>
    cases hfound : st.table.lookupSlot i addr with
    | none =>
      refine .unknown h rfl hfound ?_ ?_
      · simp only [UdpReader.hear, hfound]
      · simp only [storesOf, hfound, Option.map_none, Option.toList_none, List.append_nil]
    | some slot =>
      refine .stored h rfl hfound ?_ ?_
      · simp only [UdpReader.hear, hfound]
      · simp only [storesOf, hfound, Option.map_some, Option.toList_some]
  | drawTicket => exact .drew rfl rfl rfl
  | _ => exact .same rfl rfl

end Gofra.Threads
