import Mathlib.Data.List.Count
import Gofra.Lib.CyclicScan
import Gofra.LastSeen

namespace Gofra.LoadShare

open Lib.CyclicScan Addr Peers Conns Threads

def inCall (conn turn : ℕ) : Sender → Bool
  | .scanning conn' _ _ turn' _ _ => conn' = conn ∧ turn' = turn
  | _ => false

def isReturn (conn turn : ℕ) (r : Return) : Bool := r.conn = conn ∧ r.turn = turn

/-- How many calls there are that were the `turn`-th to draw a ticket of a
connection, under way or returned. -/
def callCount (st : State) (conn turn : ℕ) : ℕ :=
  st.senders.countP (inCall conn turn) + st.returns.countP (isReturn conn turn)

/-- A call that has loaded `loads`, all too old. -/
structure Scanning (t : ConnTable) (conn : ℕ) (now : UInt64) (turn : ℕ) (ticket : UInt64)
    (loads : List UInt64) : Prop where
  ticket : ticket = UInt64.ofNat turn
  loads : ∃ c, t.conns[conn]? = some c ∧ loads.length < c.slots.length ∧
    ∀ l ∈ loads, alive now l c.timeoutMs = false

/-- A call that has returned the slot of its last load, or the slot it started
at after loading them all. -/
structure Returned (t : ConnTable) (r : Return) : Prop where
  ticket : r.ticket = UInt64.ofNat r.turn
  loads : ∃ c earlier last, t.conns[r.conn]? = some c ∧ r.loads = earlier ++ [last] ∧
    earlier.length < c.slots.length ∧ (∀ l ∈ earlier, alive r.now l c.timeoutMs = false) ∧
    (alive r.now last c.timeoutMs = true ∧ c.slots[position c r.ticket earlier.length]? = some r.slot ∨
      alive r.now last c.timeoutMs = false ∧ earlier.length + 1 = c.slots.length ∧
        c.slots[r.ticket.toNat % c.slots.length]? = some r.slot)

/-- Every number below `drawn` is the turn of one call. -/
structure Tickets (t : ConnTable) (st : State) : Prop where
  rr : ∀ (k : ℕ) c, st.table.conns[k]? = some c → c.rr = UInt64.ofNat (st.drawn k)
  once : ∀ k turn, callCount st k turn = if turn < st.drawn k then 1 else 0
  scanning : ∀ conn now calls turn ticket loads, Sender.scanning conn now calls turn ticket loads ∈ st.senders →
    Scanning t conn now turn ticket loads
  returned : ∀ r ∈ st.returns, Returned t r

theorem countP_set_add {α : Type} {p : α → Bool} {l : List α} {i : ℕ} {b : α} (h : l[i]? = some b) (a : α) :
    (l.set i a).countP p + (if p b then 1 else 0) = l.countP p + if p a then 1 else 0 := by
  obtain ⟨hi, rfl⟩ := List.getElem?_eq_some_iff.mp h
  have hle := @List.boole_getElem_le_countP _ p l i hi
  rw [List.countP_set hi]
  omega

/-- A sender that moves on, and may return from a call. -/
theorem callCount_set {st st' : State} {i : ℕ} {s s' : Sender} {new : List Return}
    (hs : st.senders[i]? = some s) (hsenders : st'.senders = st.senders.set i s')
    (hreturns : st'.returns = st.returns ++ new) (k turn : ℕ) :
    callCount st' k turn + (if inCall k turn s then 1 else 0) =
      callCount st k turn + (if inCall k turn s' then 1 else 0) + new.countP (isReturn k turn) := by
  have hset := @countP_set_add _ (inCall k turn) _ _ _ hs s'
  rw [callCount, callCount, hsenders, hreturns, List.countP_append]
  omega

theorem tickets_start {host : Host} {peers : PeerTable} {self : Fin peers.peers.length} {rcvBuf sndBuf : ℤ}
    {timeoutMs startMs : UInt64} {t : ConnTable}
    (h : ConnTable.create host peers self rcvBuf sndBuf timeoutMs = .ok t) {st : State}
    (hst : Start startMs t st) : Tickets t st where
  rr k c hc := by
    obtain ⟨fds, -, hb⟩ := ConnTable.create_built h
    rw [hst.table, hb.conns] at hc
    obtain ⟨p, -, rfl⟩ := Option.map_eq_some_iff.mp hc
    rw [hst.drawn]
    rfl
  once k turn := by
    have hidle : st.senders.countP (inCall k turn) = 0 := by
      rw [List.countP_eq_zero]
      intro s hs
      rw [hst.senders s hs]
      exact Bool.false_ne_true
    rw [callCount, hidle, hst.returns, hst.drawn]
    rfl
  scanning conn now calls turn ticket loads hs := by cases hst.senders _ hs
  returned r hr := by
    rw [hst.returns] at hr
    cases hr

section

variable {t : ConnTable} {st st' : State}

theorem tickets_quiet (hi : Tickets t st) (hconns : st'.table.conns = st.table.conns)
    (hdrawn : st'.drawn = st.drawn) (hreturns : st'.returns = st.returns)
    (hsenders : ∀ k turn, st'.senders.countP (inCall k turn) = st.senders.countP (inCall k turn))
    (hscanning : ∀ conn now calls turn ticket loads, Sender.scanning conn now calls turn ticket loads ∈ st'.senders →
      Sender.scanning conn now calls turn ticket loads ∈ st.senders) : Tickets t st' where
  rr k c hc := by
    rw [hdrawn]
    exact hi.rr k c (hconns ▸ hc)
  once k turn := by
    rw [callCount, hsenders, hreturns, hdrawn]
    exact hi.once k turn
  scanning conn now calls turn ticket loads hs :=
    hi.scanning conn now calls turn ticket loads (hscanning _ _ _ _ _ _ hs)
  returned r hr := hi.returned r (hreturns ▸ hr)

theorem tickets_between (hi : Tickets t st) {i : ℕ} {s s' : Sender} (hs : st.senders[i]? = some s)
    (hout : ∀ k turn, inCall k turn s = false) (hout' : ∀ k turn, inCall k turn s' = false)
    (hconns : st'.table.conns = st.table.conns) (hdrawn : st'.drawn = st.drawn)
    (hreturns : st'.returns = st.returns) (hsenders : st'.senders = st.senders.set i s') : Tickets t st' := by
  refine tickets_quiet hi hconns hdrawn hreturns (fun k turn ↦ ?_) fun conn now calls turn ticket loads hmem ↦ ?_
  · have hset := @countP_set_add _ (inCall k turn) _ _ _ hs s'
    rw [hout, hout'] at hset
    rw [hsenders]
    exact hset
  · rw [hsenders] at hmem
    rcases List.mem_or_eq_of_mem_set hmem with hmem | rfl
    · exact hmem
    · have hcall := hout' conn turn
      simp [inCall] at hcall

theorem tickets_within (hi : Tickets t st) {i conn calls turn : ℕ} {now ticket : UInt64} {loads : List UInt64}
    {s' : Sender} {new : List Return}
    (hs : st.senders[i]? = some (.scanning conn now calls turn ticket loads))
    (hconns : st'.table.conns = st.table.conns) (hdrawn : st'.drawn = st.drawn)
    (hreturns : st'.returns = st.returns ++ new) (hsenders : st'.senders = st.senders.set i s')
    (hone : ∀ k turn', (if inCall k turn' s' then 1 else 0) + new.countP (isReturn k turn') =
      if inCall k turn' (.scanning conn now calls turn ticket loads) then 1 else 0)
    (hscanning : ∀ conn now calls turn ticket loads, s' = .scanning conn now calls turn ticket loads →
      Scanning t conn now turn ticket loads)
    (hreturned : ∀ r ∈ new, Returned t r) : Tickets t st' where
  rr k c hc := by
    rw [hdrawn]
    exact hi.rr k c (hconns ▸ hc)
  once k turn' := by
    have hset := callCount_set hs hsenders hreturns k turn'
    have hone := hone k turn'
    rw [hdrawn, ← hi.once k turn']
    omega
  scanning conn now calls turn ticket loads hmem := by
    rw [hsenders] at hmem
    rcases List.mem_or_eq_of_mem_set hmem with hmem | he
    · exact hi.scanning conn now calls turn ticket loads hmem
    · exact hscanning _ _ _ _ _ _ he.symm
  returned r hr := by
    rw [hreturns, List.mem_append] at hr
    rcases hr with hr | hr
    · exact hi.returned r hr
    · exact hreturned r hr

theorem tickets_drawTicket (hi : Tickets t st) (hfixed : fixed st.table = fixed t) {i conn calls : ℕ}
    {now : UInt64} {c : Conn} (hs : st.senders[i]? = some (.sending conn now (calls + 1)))
    (hc : st.table.conns[conn]? = some c) (hslots : c.slots ≠ []) (htable : st'.table = draw st.table conn)
    (hdrawn : st'.drawn = Function.update st.drawn conn (st.drawn conn + 1))
    (hreturns : st'.returns = st.returns)
    (hsenders : st'.senders = st.senders.set i (.scanning conn now calls (st.drawn conn) c.rr [])) :
    Tickets t st' where
  rr k c' hc' := by
    rw [htable, draw] at hc'
    rw [hdrawn]
    by_cases hk : conn = k
    · subst hk
      rw [List.getElem?_modify_eq, hc] at hc'
      obtain rfl := Option.some.inj hc'
      rw [Function.update_self, UInt64.ofNat_add, ← hi.rr conn c hc]
      rfl
    · rw [List.getElem?_modify_ne _ _ hk] at hc'
      rw [Function.update_of_ne (Ne.symm hk)]
      exact hi.rr k c' hc'
  once k turn := by
    have hset := @callCount_set st st' i _ _ [] hs hsenders (by rw [hreturns, List.append_nil]) k turn
    have honce := hi.once k turn
    rw [hdrawn]
    by_cases hk : conn = k
    · subst hk
      rw [Function.update_self]
      simp only [inCall, Bool.false_eq_true, if_false, List.countP_nil, true_and, decide_eq_true_eq] at hset
      split_ifs at hset honce ⊢ <;> omega
    · rw [Function.update_of_ne (Ne.symm hk), ← honce]
      simpa [inCall, hk] using hset
  scanning conn' now' calls' turn ticket loads hmem := by
    rw [hsenders] at hmem
    rcases List.mem_or_eq_of_mem_set hmem with hmem | he
    · exact hi.scanning conn' now' calls' turn ticket loads hmem
    · cases he
      obtain ⟨rr, hc₀⟩ := conns_of_fixed hfixed hc
      exact ⟨hi.rr conn c hc, _, hc₀, List.length_pos_iff.mpr hslots, fun _ hl ↦ absurd hl List.not_mem_nil⟩
  returned r hr := hi.returned r (hreturns ▸ hr)

/-- What a sender has found so far, about the connection as it is now. -/
theorem scanning_conn (hi : Tickets t st) (hfixed : fixed st.table = fixed t) {i conn calls turn : ℕ}
    {now ticket : UInt64} {loads : List UInt64} {c : Conn}
    (h : st.senders[i]? = some (.scanning conn now calls turn ticket loads))
    (hc : st.table.conns[conn]? = some c) : ticket = UInt64.ofNat turn ∧ ∃ rr, t.conns[conn]? = some { c with rr } ∧
      loads.length < c.slots.length ∧ ∀ l ∈ loads, alive now l c.timeoutMs = false := by
  obtain ⟨hticket, c', hc', hlt, hdead⟩ := hi.scanning _ _ _ _ _ _ (List.mem_of_getElem? h)
  obtain ⟨rr, hc₀⟩ := conns_of_fixed hfixed hc
  obtain rfl := Option.some.inj (hc'.symm.trans hc₀)
  exact ⟨hticket, rr, hc', hlt, hdead⟩

theorem tickets_step (hi : Tickets t st) (hfixed : fixed st.table = fixed t) (hstep : Step st st') :
    Tickets t st' := by
  cases hstep with
  | send conn calls h => exact tickets_between hi h (fun _ _ ↦ rfl) (fun _ _ ↦ rfl) rfl rfl rfl rfl
  | sent h => exact tickets_between hi h (fun _ _ ↦ rfl) (fun _ _ ↦ rfl) rfl rfl rfl rfl
  | drawTicket h hc hslots => exact tickets_drawTicket hi hfixed h hc hslots rfl rfl rfl rfl
  | @takeSlot i conn calls turn slot now ticket loads c s h hc hslot hs halive =>
    obtain ⟨hticket, rr, hc', hlt, hdead⟩ := scanning_conn hi hfixed h hc
    refine tickets_within hi h rfl rfl rfl rfl (fun k turn' ↦ ?_) nofun fun r hr ↦ ?_
    · simp [inCall, isReturn, List.countP_cons]
    · obtain rfl := List.mem_singleton.mp hr
      exact ⟨hticket, _, loads, s.lastSeen, hc', rfl, hlt, hdead, .inl ⟨halive, hslot⟩⟩
  | @skipSlot i conn calls turn slot now ticket loads c s h hc hslot hs hnot hmore =>
    obtain ⟨hticket, rr, hc', hlt, hdead⟩ := scanning_conn hi hfixed h hc
    refine tickets_within hi h rfl rfl (List.append_nil _).symm rfl (fun k turn' ↦ ?_) ?_ nofun
    · simp [inCall]
    · rintro _ _ _ _ _ _ ⟨⟩
      refine ⟨hticket, _, hc', by rw [List.length_append]; exact hmore, ?_⟩
      intro l hl
      rw [List.mem_append, List.mem_singleton] at hl
      rcases hl with hl | rfl
      · exact hdead l hl
      · exact hnot
  | @allDead i conn calls turn slot base now ticket loads c s h hc hslot hs hnot hlast hbase =>
    obtain ⟨hticket, rr, hc', hlt, hdead⟩ := scanning_conn hi hfixed h hc
    refine tickets_within hi h rfl rfl rfl rfl (fun k turn' ↦ ?_) nofun fun r hr ↦ ?_
    · simp [inCall, isReturn, List.countP_cons]
    · obtain rfl := List.mem_singleton.mp hr
      exact ⟨hticket, _, loads, s.lastSeen, hc', rfl, hlt, hdead, .inr ⟨hnot, hlast, hbase⟩⟩
  | @hear i now addr addrs h =>
    refine tickets_quiet hi ?_ rfl rfl (fun _ _ ↦ rfl) fun _ _ _ _ _ _ hs ↦ hs
    change (UdpReader.hear st.table i addr now).conns = _
    rw [UdpReader.hear]
    cases st.table.lookupSlot i addr <;> rfl
  | _ => exact tickets_quiet hi rfl rfl rfl (fun _ _ ↦ rfl) fun _ _ _ _ _ _ hs ↦ hs

end

theorem tickets_of_reachable {host : Host} {peers : PeerTable} {self : Fin peers.peers.length}
    {rcvBuf sndBuf : ℤ} {timeoutMs startMs : UInt64} {t : ConnTable}
    (h : ConnTable.create host peers self rcvBuf sndBuf timeoutMs = .ok t) {st : State}
    (hst : Reachable startMs t st) : Tickets t st :=
  hst.invariant (fun _ hst ↦ tickets_start h hst) fun _ _ hst hi hstep ↦ tickets_step hi hst.fixed_eq hstep

/-- A call's tests agree with `p`, a predicate on the connection's positions. -/
def TestsAgree (c : Conn) (r : Return) (p : ℕ → Bool) : Prop :=
  ∀ (j : ℕ) l, r.loads[j]? = some l → alive r.now l c.timeoutMs = p (position c r.ticket j)

/-- What a call returns is the first slot in its order that passes, or its base. -/
theorem returned_pick {t : ConnTable} {r : Return} (h : Returned t r) {c : Conn}
    (hc : t.conns[r.conn]? = some c) {p : ℕ → Bool} (hp : TestsAgree c r p) :
    c.slots[pick c.slots.length (r.ticket.toNat % c.slots.length) p]? = some r.slot := by
  obtain ⟨-, c', earlier, last, hc', hloads, hlt, hdead, hend⟩ := h
  obtain rfl := Option.some.inj (hc'.symm.trans hc)
  have hskipped : ∀ j < earlier.length, p (position c' r.ticket j) = false := by
    intro j hj
    rw [← hp j earlier[j] (by rw [hloads, List.getElem?_append_left hj, List.getElem?_eq_getElem hj])]
    exact hdead _ (List.getElem_mem hj)
  have hlast : alive r.now last c'.timeoutMs = p (position c' r.ticket earlier.length) :=
    hp earlier.length last (by rw [hloads, List.getElem?_concat_length])
  rcases hend with ⟨halive, hslot⟩ | ⟨hnot, hlen, hslot⟩
  · rw [pick_of_first hlt hskipped (hlast.symm.trans halive)]
    exact hslot
  · rw [pick_of_none fun k hk ↦ ?_]
    · exact hslot
    · by_cases hj : k < earlier.length
      · exact hskipped k hj
      · obtain rfl : k = earlier.length := by omega
        exact hlast.symm.trans hnot

/-- A call among other threads returns what `Conn::next` does on the values it
has loaded. -/
theorem returned_next {t : ConnTable} {r : Return} (h : Returned t r) {c : Conn}
    (hc : t.conns[r.conn]? = some c) {load : ℕ → UInt64}
    (hload : ∀ (j : ℕ) l, r.loads[j]? = some l → load (position c r.ticket j) = l) :
    { c with rr := r.ticket }.next r.now load = some (r.slot, { c with rr := r.ticket + 1 }) := by
  have hpick := @returned_pick t r h c hc (fun i ↦ alive r.now (load i) c.timeoutMs) fun j l hl ↦
    congrArg (alive r.now · c.timeoutMs) (hload j l hl).symm
  have hne : c.slots.length ≠ 0 := by
    intro h0
    rw [List.length_eq_zero_iff.mp h0] at hpick
    cases hpick
  rw [Conn.next, if_neg hne]
  change c.slots[pick _ _ _]?.map _ = _
  rw [hpick]
  rfl

def window (st : State) (conn m n : ℕ) : List Return :=
  st.returns.filter fun r ↦ r.conn = conn ∧ m ≤ r.turn ∧ r.turn < m + n

/-- Once they have all returned, the calls of a window are there once each. -/
theorem window_perm {t : ConnTable} {st : State} (hi : Tickets t st) {conn m n : ℕ}
    (hdone : ∀ turn, m ≤ turn → turn < m + n → ∃ r ∈ st.returns, r.conn = conn ∧ r.turn = turn) :
    ((window st conn m n).map Return.turn).Perm (List.range' m n) := by
  rw [List.perm_iff_count]
  intro turn
  have hcount : ((window st conn m n).map Return.turn).count turn = st.returns.countP fun r ↦
      r.turn == turn && decide (r.conn = conn ∧ m ≤ r.turn ∧ r.turn < m + n) := by
    rw [List.count, List.countP_map, window, List.countP_filter]
    rfl
  rw [hcount]
  by_cases hturn : m ≤ turn ∧ turn < m + n
  · obtain ⟨r, hr, hconn, hrt⟩ := hdone turn hturn.1 hturn.2
    have hpos : 0 < st.returns.countP (isReturn conn turn) := by
      rw [List.countP_pos_iff]
      exact ⟨r, hr, decide_eq_true ⟨hconn, hrt⟩⟩
    have honce := hi.once conn turn
    have hone : st.returns.countP (isReturn conn turn) = 1 := by
      rw [callCount] at honce
      split_ifs at honce <;> omega
    rw [List.count_eq_one_of_mem List.nodup_range' (List.mem_range'_1.mpr hturn), ← hone]
    refine List.countP_congr fun r' _ ↦ ?_
    simp only [isReturn, Bool.and_eq_true, beq_iff_eq, decide_eq_true_eq]
    constructor
    · rintro ⟨rfl, hconn', -⟩
      exact ⟨hconn', rfl⟩
    · rintro ⟨hconn', rfl⟩
      exact ⟨rfl, hconn', hturn⟩
  · rw [List.count_eq_zero.mpr (by rw [List.mem_range'_1]; exact hturn), List.countP_eq_zero]
    intro r' _ hr'
    simp only [Bool.and_eq_true, beq_iff_eq, decide_eq_true_eq] at hr'
    obtain ⟨rfl, -, hin⟩ := hr'
    exact hturn hin

theorem range'_mod {m n M : ℕ} (h : m % M + n ≤ M) :
    (List.range' m n).map (· % M) = List.range' (m % M) n := by
  apply List.ext_getElem?
  intro j
  rw [List.getElem?_map]
  by_cases hj : j < n
  · have hsplit := Nat.div_add_mod' m M
    rw [List.getElem?_range' hj, List.getElem?_range' hj, Option.map_some, Nat.one_mul,
      show m + j = m % M + j + M * (m / M) by rw [Nat.mul_comm M]; omega, Nat.add_mul_mod_self_left,
      Nat.mod_eq_of_lt (by omega)]
  · rw [List.getElem?_eq_none (by rw [List.length_range']; omega),
      List.getElem?_eq_none (by rw [List.length_range']; omega)]
    rfl

theorem window_slots {t : ConnTable} {st : State} (hi : Tickets t st) {conn m : ℕ} {c : Conn}
    (hc : t.conns[conn]? = some c) (hwrap : m % 2 ^ 64 + c.slots.length ≤ 2 ^ 64)
    (hdone : ∀ turn, m ≤ turn → turn < m + c.slots.length → ∃ r ∈ st.returns, r.conn = conn ∧ r.turn = turn)
    {p : ℕ → Bool} (hp : ∀ r ∈ window st conn m c.slots.length, TestsAgree c r p) :
    ((window st conn m c.slots.length).map (some ∘ Return.slot)).Perm
      ((List.range c.slots.length).map fun base ↦ c.slots[pick c.slots.length base p]?) := by
  have hslot : (window st conn m c.slots.length).map (some ∘ Return.slot) =
      ((window st conn m c.slots.length).map Return.turn).map fun turn ↦
        c.slots[pick c.slots.length (turn % 2 ^ 64 % c.slots.length) p]? := by
    rw [List.map_map]
    refine List.map_congr_left fun r hr ↦ ?_
    obtain ⟨hmem, hin⟩ := List.mem_filter.mp hr
    obtain ⟨hconn, -⟩ := of_decide_eq_true hin
    have hret := hi.returned r hmem
    have hpick := returned_pick hret (by rw [hconn, hc]) (hp r hr)
    rw [hret.ticket, UInt64.toNat_ofNat'] at hpick
    exact hpick.symm
  have hperm := (window_perm hi hdone).map fun turn ↦
    c.slots[pick c.slots.length (turn % 2 ^ 64 % c.slots.length) p]?
  have hrange : (List.range' m c.slots.length).map (fun turn ↦
      c.slots[pick c.slots.length (turn % 2 ^ 64 % c.slots.length) p]?) =
      ((List.range' (m % 2 ^ 64) c.slots.length).map fun turn ↦ pick c.slots.length (turn % c.slots.length) p).map
        fun i ↦ c.slots[i]? := by
    rw [← range'_mod hwrap, List.map_map, List.map_map]
    rfl
  have hpick := (perm_pick (m % 2 ^ 64) c.slots.length p).map fun i ↦ c.slots[i]?
  rw [hrange] at hperm
  rw [hslot]
  refine hperm.trans (hpick.trans (List.Perm.of_eq ?_))
  rw [List.map_map]
  rfl

theorem create_slots_nodup {host : Host} {peers : PeerTable} {self : Fin peers.peers.length}
    {rcvBuf sndBuf : ℤ} {timeoutMs : UInt64} {t : ConnTable}
    (h : ConnTable.create host peers self rcvBuf sndBuf timeoutMs = .ok t) {k : ℕ} {c : Conn}
    (hc : t.conns[k]? = some c) : c.slots.Nodup := by
  obtain ⟨fds, -, hb⟩ := ConnTable.create_built h
  rw [hb.conns] at hc
  obtain ⟨p, -, rfl⟩ := Option.map_eq_some_iff.mp hc
  exact List.nodup_range'

theorem count_slot {slots : List ℕ} (hnodup : slots.Nodup) {returned picks : List ℕ}
    (hperm : (returned.map some).Perm (picks.map fun i ↦ slots[i]?)) {i slot : ℕ} (hslot : slots[i]? = some slot) :
    returned.count slot = picks.count i := by
  obtain ⟨hi, -⟩ := List.getElem?_eq_some_iff.mp hslot
  rw [← List.count_map_of_injective returned some (Option.some_injective ℕ) slot, hperm.count_eq, List.count,
    List.countP_map]
  refine List.countP_congr fun j _ ↦ ?_
  simp only [Function.comp_apply, beq_iff_eq]
  rw [← hslot]
  exact ⟨fun he ↦ ((List.getElem?_inj hi hnodup).mp he.symm).symm, fun he ↦ he ▸ rfl⟩

/-- How the calls of a window share the slots of a connection among them, where
`p` holds of the positions of its live slots. -/
structure Shares (st : State) (conn m : ℕ) (c : Conn) (p : ℕ → Bool) : Prop where
  once : ((window st conn m c.slots.length).map Return.turn).Perm (List.range' m c.slots.length)
  tickets : ∀ r ∈ window st conn m c.slots.length, r.ticket = UInt64.ofNat r.turn
  allDead : (∀ i < c.slots.length, p i = false) → ∀ i slot : ℕ, c.slots[i]? = some slot →
    ((window st conn m c.slots.length).map Return.slot).count slot = 1
  dead : (∃ j < c.slots.length, p j = true) → ∀ i slot : ℕ, c.slots[i]? = some slot → p i = false →
    ((window st conn m c.slots.length).map Return.slot).count slot = 0
  alive : ∀ i slot : ℕ, c.slots[i]? = some slot → p i = true →
    ((window st conn m c.slots.length).map Return.slot).count slot = 1 + gapBefore c.slots.length i p

/-- A live slot takes its own turn and those of the dead slots right before it. -/
theorem reachable_shares {host : Host} {peers : PeerTable} {self : Fin peers.peers.length}
    {rcvBuf sndBuf : ℤ} {timeoutMs startMs : UInt64} {t : ConnTable}
    (h : ConnTable.create host peers self rcvBuf sndBuf timeoutMs = .ok t) {st : State}
    (hst : Reachable startMs t st) {conn m : ℕ} {c : Conn} (hc : t.conns[conn]? = some c)
    (hwrap : m % 2 ^ 64 + c.slots.length ≤ 2 ^ 64)
    (hdone : ∀ turn, m ≤ turn → turn < m + c.slots.length → ∃ r ∈ st.returns, r.conn = conn ∧ r.turn = turn)
    (p : ℕ → Bool) (hp : ∀ r ∈ window st conn m c.slots.length, TestsAgree c r p) : Shares st conn m c p := by
  have hi := tickets_of_reachable h hst
  have hperm := window_slots hi hc hwrap hdone hp
  have hcount {i slot : ℕ} (hslot : c.slots[i]? = some slot) :
      ((window st conn m c.slots.length).map Return.slot).count slot =
        ((List.range c.slots.length).map fun base ↦ pick c.slots.length base p).count i := by
    refine count_slot (create_slots_nodup h hc) ?_ hslot
    rw [List.map_map, List.map_map]
    exact hperm
  have hlt {i slot : ℕ} (hslot : c.slots[i]? = some slot) : i < c.slots.length :=
    (List.getElem?_eq_some_iff.mp hslot).1
  constructor
  case once => exact window_perm hi hdone
  case tickets => exact fun r hr ↦ (hi.returned r (List.mem_filter.mp hr).1).ticket
  case allDead =>
    intro hnone i slot hslot
    rw [hcount hslot, count_pick_of_none (hlt hslot) hnone]
  case dead =>
    rintro ⟨j, hj, hpj⟩ i slot hslot hpi
    rw [hcount hslot, count_pick_of_not hpi hj hpj]
  case alive =>
    intro i slot hslot hpi
    rw [hcount hslot, count_pick (hlt hslot) hpi]

def twoSenders : State := { LastSeen.sampleStart with senders := [.idle, .idle] }

theorem start_twoSenders : Start 0 LastSeen.sampleTable twoSenders :=
  ⟨rfl, by decide, fun _ ↦ rfl, by simp [twoSenders], rfl, rfl, fun _ ↦ rfl, rfl, rfl⟩

def otherReaders : UInt32 → Reader :=
  Function.update (Function.update (Function.update LastSeen.sampleStart.readers 0
    (.received [.inet 7000 0x026433c6])) 0 (.hearing 1500 [.inet 7000 0x026433c6])) 0 (.hearing 1500 [])

/-- The second slot has been heard at 1500 ms, the first one never. -/
def otherHeard : State :=
  { twoSenders with
    clock := 1500
    readers := otherReaders
    table := { LastSeen.sampleTable with
      allSlots := [⟨.inet 7000 0x010200c0, 3, 0, .inet 7000 0x020200c0, 0⟩,
        ⟨.inet 7000 0x010200c0, 3, 0, .inet 7000 0x026433c6, 1500⟩] }
    stores := [⟨0, 1, 1500⟩] }

theorem sample_otherHeard : Steps twoSenders otherHeard := by
  have hle : (1000 : UInt64) ≤ 1500 := by decide
  have h₁ : Step twoSenders { twoSenders with clock := 1500 } := .tick hle
  have h₂ : Step { twoSenders with clock := 1500 } _ := .recvmmsg (i := 0) [.inet 7000 0x026433c6] rfl
  have h₃ : Step { twoSenders with
      clock := 1500
      readers := Function.update LastSeen.sampleStart.readers 0 (.received [.inet 7000 0x026433c6]) } _ :=
    .readClock (i := 0) rfl
  have h₄ : Step { twoSenders with
      clock := 1500
      readers := Function.update (Function.update LastSeen.sampleStart.readers 0 (.received [.inet 7000 0x026433c6])) 0
        (.hearing 1500 [.inet 7000 0x026433c6]) } _ :=
    .hear (i := 0) rfl
  exact (((Relation.ReflTransGen.single h₁).tail h₂).tail h₃).tail h₄

/-- Two packets at 2000 ms, when the first slot is too old: the first sender draws
its ticket before the second, and passes over that slot after it. -/
theorem sample_sent : ∃ st, Steps otherHeard st ∧
    st.returns = [⟨0, 1, 1, 2000, [1500], 1⟩, ⟨0, 0, 0, 2000, [0, 1500], 1⟩] ∧
    st.tests = [⟨2000, 0, 1000, false⟩, ⟨2000, 1500, 1000, true⟩, ⟨2000, 1500, 1000, true⟩] := by
  have hle : (1500 : UInt64) ≤ 2000 := by decide
  have h₁ : Step otherHeard { otherHeard with clock := 2000 } := .tick hle
  have h₂ : Step { otherHeard with clock := 2000 } _ := .send (i := 0) 0 1 rfl
  have h₃ : Step { otherHeard with clock := 2000, senders := [.sending 0 2000 1, .idle] } _ :=
    .send (i := 1) 0 1 rfl
  have h₄ : Step { otherHeard with clock := 2000, senders := [.sending 0 2000 1, .sending 0 2000 1] } _ :=
    .drawTicket (i := 0) rfl rfl (List.cons_ne_nil _ _)
  have h₅ : Step { otherHeard with
      clock := 2000
      senders := [.scanning 0 2000 0 0 0 [], .sending 0 2000 1]
      table := draw otherHeard.table 0
      drawn := Function.update otherHeard.drawn 0 1 } _ :=
    .drawTicket (i := 1) rfl rfl (List.cons_ne_nil _ _)
  have h₆ : Step { otherHeard with
      clock := 2000
      senders := [.scanning 0 2000 0 0 0 [], .scanning 0 2000 0 1 1 []]
      table := draw (draw otherHeard.table 0) 0
      drawn := Function.update (Function.update otherHeard.drawn 0 1) 0 2 } _ :=
    .skipSlot (i := 0) rfl rfl rfl rfl (by decide) (by decide)
  have h₇ : Step { otherHeard with
      clock := 2000
      senders := [.scanning 0 2000 0 0 0 [0], .scanning 0 2000 0 1 1 []]
      table := draw (draw otherHeard.table 0) 0
      drawn := Function.update (Function.update otherHeard.drawn 0 1) 0 2
      tests := [⟨2000, 0, 1000, false⟩] } _ :=
    .takeSlot (i := 1) rfl rfl rfl rfl (by decide)
  have h₈ : Step { otherHeard with
      clock := 2000
      senders := [.scanning 0 2000 0 0 0 [0], .sending 0 2000 0]
      table := draw (draw otherHeard.table 0) 0
      drawn := Function.update (Function.update otherHeard.drawn 0 1) 0 2
      tests := [⟨2000, 0, 1000, false⟩, ⟨2000, 1500, 1000, true⟩]
      returns := [⟨0, 1, 1, 2000, [1500], 1⟩] } _ :=
    .takeSlot (i := 0) rfl rfl rfl rfl (by decide)
  have hsteps := ((((Relation.ReflTransGen.single h₁).tail h₂).tail h₃).tail h₄).tail h₅
  exact ⟨_, ((hsteps.tail h₆).tail h₇).tail h₈, rfl, rfl⟩

theorem reachable_shares_sample : ∃ st c, Reachable 0 LastSeen.sampleTable st ∧
    LastSeen.sampleTable.conns[0]? = some c ∧ c.slots = [0, 1] ∧ Shares st 0 0 c (· == 1) := by
  obtain ⟨st, hsteps, hreturns, -⟩ := sample_sent
  have hst : Reachable 0 LastSeen.sampleTable st := ⟨_, start_twoSenders, sample_otherHeard.trans hsteps⟩
  refine ⟨st, _, hst, rfl, rfl, reachable_shares LastSeen.create_sampleTable hst rfl (by decide) ?_ _ ?_⟩
  · intro turn _ hturn
    rw [hreturns]
    match turn, hturn with
    | 0, _ => exact ⟨_, List.mem_cons_of_mem _ List.mem_cons_self, rfl, rfl⟩
    | 1, _ => exact ⟨_, List.mem_cons_self, rfl, rfl⟩
  · intro r hr j l hl
    rw [window, hreturns] at hr
    have hr := (List.mem_filter.mp hr).1
    simp only [List.mem_cons, List.not_mem_nil, or_false] at hr
    rcases hr with rfl | rfl
    · match j, hl with
      | 0, rfl => decide
    · match j, hl with
      | 0, rfl => decide
      | 1, rfl => decide

end Gofra.LoadShare
