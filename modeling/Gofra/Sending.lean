import Gofra.TunReader

namespace Gofra.Sending

open Lib.Buffer Addr Gso GsoSplit Conns TunReader

/-- `t` after `n` more `Conn::next` calls on its connection `k`. -/
def bump (t : ConnTable) (k n : ℕ) : ConnTable :=
  { t with conns := t.conns.modify k fun c ↦ { c with rr := c.rr + UInt64.ofNat n } }

theorem bump_zero (t : ConnTable) (k : ℕ) : bump t k 0 = t := by
  have hid : (fun c : Conn ↦ { c with rr := c.rr + UInt64.ofNat 0 }) = id := by
    funext c
    simp
  rw [bump, hid, List.modify_id]

theorem bump_bump (t : ConnTable) (k n m : ℕ) : bump (bump t k n) k m = bump t k (n + m) := by
  have hadd : (fun c : Conn ↦ { c with rr := c.rr + UInt64.ofNat m }) ∘
      (fun c : Conn ↦ { c with rr := c.rr + UInt64.ofNat n }) =
      fun c : Conn ↦ { c with rr := c.rr + UInt64.ofNat (n + m) } := by
    funext c
    simp [UInt64.ofNat_add, UInt64.add_assoc]
  simp only [bump]
  rw [List.modify_modify_eq, hadd]

theorem bump_conns_self {t : ConnTable} {k : ℕ} {c : Conn} (h : t.conns[k]? = some c) (n : ℕ) :
    (bump t k n).conns[k]? = some { c with rr := c.rr + UInt64.ofNat n } := by
  rw [bump, List.getElem?_modify_eq, h]
  rfl

theorem bump_conns_ne {k k' : ℕ} (h : k ≠ k') (t : ConnTable) (n : ℕ) :
    (bump t k n).conns[k']? = t.conns[k']? := by
  exact List.getElem?_modify_ne _ _ h

/-- A connection that can send: it has slots, and they are in the table. -/
structure Sendable (t : ConnTable) (k : ℕ) (c : Conn) : Prop where
  conn : t.conns[k]? = some c
  slots : c.slots ≠ []
  slot : ∀ x ∈ c.slots, ∃ s, t.allSlots[x]? = some s

theorem Sendable.bump {t : ConnTable} {k : ℕ} {c : Conn} (h : Sendable t k c) (n : ℕ) :
    Sendable (bump t k n) k { c with rr := c.rr + UInt64.ofNat n } where
  conn := bump_conns_self h.conn n
  slots := h.slots
  slot := h.slot

theorem next_eq {c : Conn} (h : c.slots ≠ []) (now : UInt64) (load : ℕ → UInt64) :
    ∃ slot ∈ c.slots, c.next now load = some (slot, { c with rr := c.rr + 1 }) := by
  have hpos := List.length_pos_iff.mpr h
  have hbase : c.rr.toNat % c.slots.length < c.slots.length := Nat.mod_lt _ hpos
  have hlt : ((scanOrder c.slots.length (c.rr.toNat % c.slots.length)).find?
      fun i ↦ alive now (load i) c.timeoutMs).getD (c.rr.toNat % c.slots.length) < c.slots.length := by
    cases hfind : (scanOrder c.slots.length (c.rr.toNat % c.slots.length)).find?
        fun i ↦ alive now (load i) c.timeoutMs with
    | none => exact hbase
    | some i =>
      obtain ⟨k, -, rfl⟩ := List.mem_map.mp (List.mem_of_find?_eq_some hfind)
      exact Nat.mod_lt _ hpos
  refine ⟨_, List.getElem_mem hlt, ?_⟩
  rw [Conn.next, if_neg (by omega)]
  dsimp only
  rw [List.getElem?_eq_getElem hlt, Option.map_some]

/-- `s` is made for a slot of connection `k`. -/
def SentBy (t : ConnTable) (k : ℕ) (s : Send) : Prop :=
  ∃ c slot, t.conns[k]? = some c ∧ s.slot ∈ c.slots ∧ t.allSlots[s.slot]? = some slot ∧
    s.srcFd = slot.srcFd ∧ s.dstAddr = slot.dstAddr

theorem sentBy_bump {t : ConnTable} {k n : ℕ} {s : Send} (h : SentBy (bump t k n) k s) :
    SentBy t k s := by
  obtain ⟨c, slot, hc, hs⟩ := h
  rw [bump, List.getElem?_modify_eq] at hc
  obtain ⟨c', hc', rfl⟩ := Option.map_eq_some_iff.mp hc
  exact ⟨c', slot, hc', hs⟩

theorem takeSlot_eq {t : ConnTable} {k : ℕ} {c : Conn} (h : Sendable t k c) (env : Env) (call : ℕ) :
    ∃ slot s, takeSlot t k env call = some (bump t k 1, slot, s) ∧ slot ∈ c.slots ∧
      t.allSlots[slot]? = some s ∧
      c.next env.now (env.load call) = some (slot, { c with rr := c.rr + 1 }) := by
  obtain ⟨slot, hslot, hnext⟩ := next_eq h.slots env.now (env.load call)
  obtain ⟨s, hs⟩ := h.slot slot hslot
  have hset : t.conns.set k { c with rr := c.rr + 1 } = (bump t k 1).conns := by
    obtain ⟨hk, rfl⟩ := List.getElem?_eq_some_iff.mp h.conn
    rw [bump, List.modify_eq_set_getElem?, h.conn]
    rfl
  refine ⟨slot, s, ?_, hslot, hs, hnext⟩
  simp only [takeSlot, h.conn, hnext, hs, Option.bind_eq_bind, Option.bind_some, hset]
  rfl

theorem sendOne_eq {t : ConnTable} {k : ℕ} {c : Conn} (h : Sendable t k c) (env : Env)
    (pkt : List UInt8) : ∃ s, sendOne t k env pkt = some (bump t k 1, [s]) ∧ SentBy t k s ∧
      s.iov = [pkt] ∧ s.segment = none := by
  obtain ⟨slot, s, htake, hslot, hs, -⟩ := takeSlot_eq h env 0
  refine ⟨⟨slot, s.srcFd, s.dstAddr, [pkt], none⟩, ?_, ⟨c, s, h.conn, hslot, hs, rfl, rfl⟩, rfl, rfl⟩
  rw [sendOne, htake]
  rfl

variable {segBufs : List (List UInt8)} {segSizes : List ℕ}

theorem iovs_eq {i stop : ℕ} {seg : ℕ → List UInt8}
    (h : ∀ k, i ≤ k → k < stop → ∃ b n, segBufs[k]? = some b ∧ segSizes[k]? = some n ∧
      n ≤ b.length ∧ b.take n = seg k) :
    iovs segBufs segSizes i stop = some ((List.range' i (stop - i)).map seg) := by
  rw [iovs]
  have hmem : ∀ k ∈ List.range' i (stop - i), (do slice (← segBufs[k]?) 0 (← segSizes[k]?)) =
      some (seg k) := by
    intro k hk
    rw [List.mem_range'_1] at hk
    obtain ⟨b, n, hb, hn, hle, hseg⟩ := h k hk.1 (by omega)
    rw [hb, hn]
    simp only [Option.bind_eq_bind, Option.bind_some]
    rw [slice_eq (by omega), List.drop_zero, hseg]
  generalize List.range' i (stop - i) = l at hmem
  induction l with
  | nil => rfl
  | cons k l ih =>
    rw [List.mapM_cons, hmem k List.mem_cons_self, ih fun k' hk' ↦ hmem k' (List.mem_cons_of_mem k hk')]
    rfl

/-- Buffer `j` holds segment `j` of `segs`. -/
def Holds (segBufs : List (List UInt8)) (segSizes : List ℕ) (segs : ℕ) (seg : ℕ → List UInt8) : Prop :=
  ∀ j < segs, ∃ b n, segBufs[j]? = some b ∧ segSizes[j]? = some n ∧ n ≤ b.length ∧ b.take n = seg j

/-- The calls that send segments `i`, …, `segs - 1`: each takes a run of
segments, given by its first segment and its length, and the slot of one
`Conn::next` call, of which `call` is the first. -/
structure UsoSent (t : ConnTable) (k : ℕ) (c : Conn) (env : Env) (gsoSize : UInt16)
    (seg : ℕ → List UInt8) (segs partSize i call : ℕ) (sent : List Send) : Prop where
  length : sent.length = segCount (segs - i) partSize
  sentBy : ∀ s ∈ sent, SentBy t k s
  gsoSize : ∀ s ∈ sent, s.segment = some gsoSize
  slots : ∀ j s, sent[j]? = some s → { c with rr := c.rr + UInt64.ofNat j }.next env.now
    (env.load (call + j)) = some (s.slot, { c with rr := c.rr + UInt64.ofNat j + 1 })
  runs : ∃ runs : List (ℕ × ℕ), (∀ r ∈ runs, 0 < r.2 ∧ r.1 + r.2 ≤ segs) ∧
    sent.map Send.iov = runs.map (fun r ↦ (List.range' r.1 r.2).map seg) ∧
    (runs.flatMap fun r ↦ List.range' r.1 r.2) = List.range' i (segs - i)

theorem usoSent_nil {t : ConnTable} {k : ℕ} {c : Conn} {env : Env} {gsoSize : UInt16}
    {seg : ℕ → List UInt8} {segs partSize i call : ℕ} (hp : 1 ≤ partSize) (hi : segs - i = 0) :
    UsoSent t k c env gsoSize seg segs partSize i call [] where
  length := by
    rw [hi, segCount_zero _ hp]
    rfl
  sentBy := nofun
  gsoSize := nofun
  slots := nofun
  runs := ⟨[], nofun, rfl, by rw [hi]; rfl⟩

theorem usoLoop_eq {segs partSize k : ℕ} {seg : ℕ → List UInt8} (hsegs : Holds segBufs segSizes segs seg)
    (hp : 1 ≤ partSize) (env : Env) (gsoSize : UInt16) (fuel i call : ℕ) {t : ConnTable} {c : Conn}
    (h : Sendable t k c) (hfuel : segs - i ≤ fuel) :
    ∃ sent, usoLoop k env segBufs segSizes gsoSize partSize segs fuel i call t =
        some (bump t k sent.length, sent) ∧
      UsoSent t k c env gsoSize seg segs partSize i call sent := by
  induction fuel generalizing i call t c with
  | zero => exact ⟨[], by rw [usoLoop, List.length_nil, bump_zero], usoSent_nil hp (by omega)⟩
  | succ fuel ih =>
    rw [usoLoop]
    split
    · rename_i hlt
      obtain ⟨stop, hstop⟩ : ∃ n, n = min (i + partSize) segs := ⟨_, rfl⟩
      have hiov : iovs segBufs segSizes i stop = some ((List.range' i (stop - i)).map seg) :=
        iovs_eq fun j _ hj ↦ hsegs j (by omega)
      obtain ⟨slot, s, htake, hslot, hs, hnext⟩ := takeSlot_eq h env call
      obtain ⟨rest, hrest, hsent⟩ := ih stop (call + 1) (h.bump 1) (by omega)
      refine ⟨⟨slot, s.srcFd, s.dstAddr, (List.range' i (stop - i)).map seg, some gsoSize⟩ :: rest, ?_, ?_⟩
      · simp only [Option.bind_eq_bind, ← hstop]
        rw [hiov, Option.bind_some, htake, Option.bind_some, hrest, bump_bump, Nat.add_comm 1]
        rfl
      · constructor
        case length =>
          rw [List.length_cons, hsent.length, segCount_pos hp (show 0 < segs - i by omega),
            show segs - stop = segs - i - partSize by omega]
        case sentBy =>
          intro s' hs'
          rcases List.mem_cons.mp hs' with rfl | hs'
          · exact ⟨c, s, h.conn, hslot, hs, rfl, rfl⟩
          · exact sentBy_bump (hsent.sentBy s' hs')
        case gsoSize =>
          intro s' hs'
          rcases List.mem_cons.mp hs' with rfl | hs'
          · rfl
          · exact hsent.gsoSize s' hs'
        case slots =>
          intro j s' hs'
          cases j with
          | zero =>
            obtain rfl := Option.some.inj hs'
            have hrr : c.rr + UInt64.ofNat 0 = c.rr := by simp
            rw [hrr]
            exact hnext
          | succ j =>
            have hrr : c.rr + UInt64.ofNat (j + 1) = c.rr + UInt64.ofNat 1 + UInt64.ofNat j := by
              rw [Nat.add_comm j, UInt64.ofNat_add, UInt64.add_assoc]
            rw [hrr, Nat.succ_eq_add_one, Nat.add_comm j, ← Nat.add_assoc]
            exact hsent.slots j s' hs'
        case runs =>
          obtain ⟨runs, hmem, hiovs, hcover⟩ := hsent.runs
          refine ⟨(i, stop - i) :: runs, fun r hr ↦ ?_, ?_, ?_⟩
          · rcases List.mem_cons.mp hr with rfl | hr
            · exact ⟨by dsimp only; omega, by dsimp only; omega⟩
            · exact hmem r hr
          · rw [List.map_cons, List.map_cons, hiovs]
          · rw [List.flatMap_cons, hcover, show segs - i = (stop - i) + (segs - stop) by omega,
              ← List.range'_append_1, show i + (stop - i) = stop by omega]
    · exact ⟨[], by rw [List.length_nil, bump_zero], usoSent_nil hp (by omega)⟩

theorem usoParts_pos {segs : ℕ} (h : 0 < segs) : 1 ≤ (segs + usoParts - 1) / usoParts := by
  rw [Nat.le_div_iff_mul_le (by decide), usoParts]
  omega

theorem sendUso_eq {segs k : ℕ} {seg : ℕ → List UInt8} (hsegs : Holds segBufs segSizes segs seg)
    (env : Env) {t : ConnTable} {c : Conn} (h : Sendable t k c) {n : ℕ}
    (hn : segSizes[0]? = some n) :
    ∃ sent, sendUso t k env segBufs segSizes segs = some (bump t k sent.length, sent) ∧
      UsoSent t k c env (UInt16.ofNat n) seg segs ((segs + usoParts - 1) / usoParts) 0 0 sent := by
  rw [sendUso, hn]
  simp only [Option.bind_eq_bind, Option.bind_some]
  rcases Nat.eq_zero_or_pos segs with rfl | hpos
  · refine ⟨[], by rw [usoLoop, List.length_nil, bump_zero], ?_, nofun, nofun, nofun, [], nofun, rfl, rfl⟩
    simp [segCount, usoParts]
  · exact usoLoop_eq hsegs (usoParts_pos hpos) env _ segs 0 0 h (Nat.sub_le _ _)

end Gofra.Sending
