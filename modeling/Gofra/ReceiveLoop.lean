import Gofra.UdpReader

namespace Gofra.ReceiveLoop

open Lib.Buffer Lib.Chunks Addr Gso Conns UdpReader
open Csum (leNat)

/-- The GRO size of a message, from its own control data. -/
def groOf (d : Datagram) : ℤ :=
  if cmsgHdrLen ≤ d.controllen ∧ IsGro d.control then leInt ((d.control.drop cmsgHdrLen).take 4) else 0

/-- The writes for a message: the packets in it, each behind ten zero bytes. -/
def tunWrites (d : Datagram) : List TunWrite :=
  if d.payload.length < 20 then []
  else if 0 < groOf d ∧ (groOf d).toNat < d.payload.length then
    (cut (groOf d).toNat d.payload).map fun chunk ↦ [List.replicate virtioNetHdrLen 0, chunk]
  else [[List.replicate virtioNetHdrLen 0 ++ d.payload]]

theorem cmsgAt_append {control rest : List UInt8} (h : cmsgHdrLen ≤ control.length) :
    cmsgAt (control ++ rest) 0 = some ⟨leNat ((control.drop 0).take 8), leNat ((control.drop 8).take 4),
      leNat ((control.drop 12).take 4)⟩ := by
  rw [cmsgHdrLen] at h
  have hslice {off len : ℕ} (hle : off + len ≤ 16) :
      slice (control ++ rest) off len = some ((control.drop off).take len) := by
    rw [slice_append_left (by omega), slice_eq (by omega)]
  rw [cmsgAt, hslice (by omega), hslice (by omega), hslice (by omega)]
  rfl

/-- There is no room for a second header. -/
theorem cmsgNext_none {cbuf : List UInt8} {controllen : ℕ} (h : controllen ≤ cbufLen) (cm : Cmsghdr) :
    cmsgNext cbuf controllen 0 cm = some none := by
  rw [cmsgNext]
  refine if_pos ?_
  simp only [cbufLen, cmsgAlign, cmsgHdrLen] at h ⊢
  omega

theorem groSize_append (d : Datagram) (rest : List UInt8) :
    groSize (d.control ++ rest) d.controllen = some (groOf d) := by
  have hle := d.controllen_le
  rw [groSize, groOf]
  by_cases h : cmsgHdrLen ≤ d.controllen
  · have hfuel : d.controllen / cmsgHdrLen = 1 := by
      simp only [cbufLen, cmsgAlign, cmsgHdrLen] at h hle ⊢
      omega
    rw [if_pos h, hfuel, groScan, cmsgAt_append (d.whole h), Option.bind_eq_bind, Option.bind_some]
    dsimp only
    by_cases hgro : IsGro d.control
    · have hint : slice (d.control ++ rest) (0 + cmsgHdrLen) 4 = some ((d.control.drop cmsgHdrLen).take 4) := by
        rw [Nat.zero_add, slice_append_left (d.gro h hgro), slice_eq (d.gro h hgro)]
      rw [if_pos (by rwa [IsGro] at hgro), if_pos ⟨h, hgro⟩, hint]
      rfl
    · rw [if_neg (by rwa [IsGro] at hgro), if_neg (fun hc ↦ hgro hc.2), cmsgNext_none hle]
      rfl
  · rw [if_neg h, if_neg (fun hc ↦ h hc.1)]

theorem splitLoop_eq {zeroHdr buf payload : List UInt8} {gsoSize : ℕ}
    (hbuf : slice buf virtioNetHdrLen payload.length = some payload) (fuel off : ℕ) :
    splitLoop zeroHdr buf gsoSize payload.length fuel off =
      some ((cutFrom gsoSize fuel (payload.drop off)).map fun chunk ↦ [zeroHdr, chunk]) := by
  obtain ⟨hlen, hpayload⟩ := slice_eq_some.mp hbuf
  induction fuel generalizing off with
  | zero => rfl
  | succ fuel ih =>
    rw [splitLoop]
    by_cases hoff : off < payload.length
    · have hne : payload.drop off ≠ [] := by
        rw [Ne, List.drop_eq_nil_iff]
        omega
      have hchunk : slice buf (virtioNetHdrLen + off) (min gsoSize (payload.length - off)) =
          some ((payload.drop off).take gsoSize) := by
        rw [slice_eq (by omega)]
        conv_rhs => rw [← hpayload, List.drop_take, List.drop_drop, List.take_take]
      have hnext : payload.drop (off + min gsoSize (payload.length - off)) =
          (payload.drop off).drop gsoSize := by
        rw [List.drop_drop]
        rcases Nat.le_total gsoSize (payload.length - off) with hle | hle
        · rw [Nat.min_eq_left hle]
        · rw [Nat.min_eq_right hle, List.drop_of_length_le (by omega), List.drop_of_length_le (by omega)]
      simp only [if_pos hoff, hchunk, ih, hnext, Option.bind_eq_bind, Option.bind_some, cutFrom_cons hne,
        List.map_cons]
      rfl
    · have hnil : payload.drop off = [] := List.drop_of_length_le (by omega)
      rw [if_neg hoff, hnil]
      rfl

variable {m m' : Msg} {d : Datagram}

theorem groSize_delivered (hm : m.Ready) (h : Delivered m m' d) :
    groSize m'.cbuf m'.controllen = some (groOf d) := by
  obtain ⟨hlen, hcbuf⟩ := h.control (hm.controllen ▸ d.controllen_le)
  rw [hlen, hcbuf, groSize_append]

theorem delivered_fits (d : Datagram) (hm : m.Ready) :
    m.iovOff + d.payload.length ≤ m.buf.length := by
  have hle := d.payload_le
  rw [hm.iovOff, hm.length_buf]
  simp only [virtioNetHdrLen, msgSize] at hle ⊢
  omega

theorem payload_delivered (hm : m.Ready) (h : Delivered m m' d) :
    slice m'.buf virtioNetHdrLen d.payload.length = some d.payload := by
  rw [h.buf, ← hm.iovOff, slice_patch (delivered_fits d hm)]

theorem header_delivered (hm : m.Ready) (h : Delivered m m' d) :
    m'.buf.take virtioNetHdrLen = List.replicate virtioNetHdrLen 0 := by
  rw [h.buf, take_patch_of_le hm.iovOff.ge, hm.header]

theorem writeMsg_delivered (hm : m.Ready) (h : Delivered m m' d) :
    writeMsg (List.replicate virtioNetHdrLen 0) m' (groOf d) = some (tunWrites d) := by
  have hpayload := payload_delivered hm h
  rw [writeMsg, tunWrites, h.msgLen]
  split
  · rfl
  · split
    · rw [splitLoop_eq hpayload, List.drop_zero]
      rfl
    · obtain ⟨hlen, htake⟩ := slice_eq_some.mp hpayload
      have hwhole : slice m'.buf 0 (virtioNetHdrLen + d.payload.length) =
          some (List.replicate virtioNetHdrLen 0 ++ d.payload) := by
        rw [slice_eq (by omega), List.drop_zero, List.take_add, header_delivered hm h, htake]
      rw [hwhole]
      rfl

theorem reset_ready (hm : m.Ready) (h : Delivered m m' d) : m'.reset.Ready where
  iovOff := h.iovOff.trans hm.iovOff
  iovLen := h.iovLen.trans hm.iovLen
  namelen := rfl
  controllen := rfl
  length_cbuf := h.length_cbuf.trans hm.length_cbuf
  length_buf := by
    change m'.buf.length = msgSize
    rw [h.buf, length_patch, hm.length_buf]
  header := (header_delivered hm h : m'.buf.take virtioNetHdrLen = _)

/-- The scratch when the loop over the batch `ds` comes to message `i`. -/
structure Midway (ds : List Datagram) (i : ℕ) (sc : UdpReaderScratch) : Prop where
  length : sc.msgs.length = batch
  zeroHdr : sc.zeroHdr = List.replicate virtioNetHdrLen 0
  fresh : ∀ (j : ℕ) d, i ≤ j → ds[j]? = some d → ∃ m m', sc.msgs[j]? = some m' ∧ m.Ready ∧ Delivered m m' d
  ready : ∀ (j : ℕ) m, (j < i ∨ ds.length ≤ j) → sc.msgs[j]? = some m → m.Ready

theorem midway_zero {sc sc' : UdpReaderScratch} {ds : List Datagram} (h : Ready sc)
    (hrecv : Recvmmsg sc ds sc') : Midway ds 0 sc' where
  length := hrecv.length.trans h.length
  zeroHdr := hrecv.zeroHdr.trans h.zeroHdr
  fresh j d _ hd := by
    obtain ⟨m, m', hm, hm', hdel⟩ := hrecv.delivered j d hd
    exact ⟨m, m', hm', h.msgs m (List.mem_of_getElem? hm), hdel⟩
  ready j m hj hm := by
    rw [hrecv.rest j (by omega)] at hm
    exact h.msgs m (List.mem_of_getElem? hm)

theorem midway_succ {ds : List Datagram} {i : ℕ} {sc : UdpReaderScratch} (h : Midway ds i sc)
    (hd : ds[i]? = some d) : ∃ m m', sc.msgs[i]? = some m' ∧ m.Ready ∧ Delivered m m' d ∧
      Midway ds (i + 1) { sc with msgs := sc.msgs.set i m'.reset } := by
  obtain ⟨m, m', hm', hm, hdel⟩ := h.fresh i d le_rfl hd
  refine ⟨m, m', hm', hm, hdel, ?_⟩
  constructor
  case length => exact (List.length_set ..).trans h.length
  case zeroHdr => exact h.zeroHdr
  case fresh =>
    intro j d' hj hd'
    obtain ⟨m₁, m₁', hm₁', hm₁, hdel₁⟩ := h.fresh j d' (by omega) hd'
    exact ⟨m₁, m₁', by rwa [List.getElem?_set_ne (by omega)], hm₁, hdel₁⟩
  case ready =>
    intro j m₁ hj hm₁
    by_cases he : i = j
    · subst he
      rw [List.getElem?_set_self (List.getElem?_eq_some_iff.mp hm').1] at hm₁
      obtain rfl := Option.some.inj hm₁
      exact reset_ready hm hdel
    · rw [List.getElem?_set_ne he] at hm₁
      exact h.ready j m₁ (by omega) hm₁

theorem udpReaderLoop_eq (srcIdx : UInt32) (now : UInt64) {ds : List Datagram} {fuel i : ℕ}
    {sc : UdpReaderScratch} (h : Midway ds i sc) (hi : i + fuel = ds.length) (t : ConnTable) :
    ∃ t' sc', udpReaderLoop srcIdx now fuel i t sc = some (t', sc', (ds.drop i).map tunWrites) ∧ Ready sc' := by
  induction fuel generalizing i t sc with
  | zero =>
    refine ⟨t, sc, ?_, h.length, fun m hm ↦ ?_, h.zeroHdr⟩
    · rw [udpReaderLoop, List.drop_of_length_le (by omega), List.map_nil]
    · obtain ⟨j, hj⟩ := List.mem_iff_getElem?.mp hm
      exact h.ready j m (by omega) hj
  | succ fuel ih =>
    have hlt : i < ds.length := by omega
    obtain ⟨m, m', hm', hm, hdel, hmid⟩ := midway_succ h (List.getElem?_eq_getElem hlt)
    obtain ⟨t', sc', hrest, hready⟩ := ih hmid (by omega) (hear t srcIdx m'.addr now)
    refine ⟨t', sc', ?_, hready⟩
    rw [udpReaderLoop, hm', Option.bind_eq_bind, Option.bind_some, groSize_delivered hm hdel]
    simp only [Option.bind_eq_bind, Option.bind_some, h.zeroHdr, writeMsg_delivered hm hdel]
    rw [← h.zeroHdr, hrest, List.drop_eq_getElem_cons hlt]
    rfl

/-- From a scratch that is ready, a batch is read to the end, its writes depend
on its messages alone, and the scratch is ready again. -/
theorem udpReader_eq {sc sc' : UdpReaderScratch} {ds : List Datagram} (h : Ready sc)
    (hrecv : Recvmmsg sc ds sc') (t : ConnTable) (srcIdx : UInt32) (now : UInt64) :
    ∃ t' sc'', udpReader t srcIdx now sc' ds.length = some (t', sc'', ds.map tunWrites) ∧ Ready sc'' :=
  udpReaderLoop_eq srcIdx now (midway_zero h hrecv) (Nat.zero_add _) t

theorem raw_ready {raw : Raw} (h : raw.msg = some m) : m.Ready := by
  have hle : 0 + (List.replicate virtioNetHdrLen (0 : UInt8)).length ≤ raw.buf.length := by
    rw [raw.length_buf]
    decide
  rw [Raw.msg, zeroVirtioNetHdr, store_eq hle] at h
  obtain rfl := Option.some.inj h
  refine ⟨rfl, rfl, rfl, rfl, raw.length_cbuf, (length_patch ..).trans raw.length_buf, ?_⟩
  rw [patch_zero (by omega), List.take_left' (List.length_replicate ..)]

theorem mapM_ready {raws : List Raw} {msgs : List Msg} (h : raws.mapM Raw.msg = some msgs) :
    msgs.length = raws.length ∧ ∀ m ∈ msgs, m.Ready := by
  induction raws generalizing msgs with
  | nil =>
    obtain rfl := Option.some.inj h
    exact ⟨rfl, nofun⟩
  | cons raw raws ih =>
    rw [List.mapM_cons] at h
    obtain ⟨m, hm, h⟩ := Option.bind_eq_some_iff.mp h
    obtain ⟨ms, hms, h⟩ := Option.bind_eq_some_iff.mp h
    obtain rfl := Option.some.inj h
    obtain ⟨hlen, hready⟩ := ih hms
    refine ⟨by rw [List.length_cons, List.length_cons, hlen], ?_⟩
    exact List.forall_mem_cons.mpr ⟨raw_ready hm, hready⟩

theorem start_ready {mem : Fin batch → Raw} {sc : UdpReaderScratch} (h : makeUdpReaderScratch mem = some sc) :
    Ready sc := by
  obtain ⟨msgs, hmsgs, he⟩ := Option.bind_eq_some_iff.mp h
  obtain rfl := Option.some.inj he
  obtain ⟨hlen, hready⟩ := mapM_ready hmsgs
  exact ⟨hlen.trans (List.length_ofFn ..), hready, rfl⟩

theorem run_ready {srcIdx : UInt32} {sc : UdpReaderScratch} (h : Run srcIdx sc) : Ready sc := by
  induction h with
  | start h => exact start_ready h
  | failed _ ih => exact ih
  | @batch _ _ _ _ t _ now _ _ hrecv hread ih =>
    obtain ⟨t', sc'', hread', hready⟩ := udpReader_eq ih hrecv t srcIdx now
    rw [hread'] at hread
    obtain rfl := congrArg (fun r ↦ r.2.1) (Option.some.inj hread)
    exact hready

structure SameMessage (d₁ d₂ : Datagram) : Prop where
  payload : d₁.payload = d₂.payload
  control : d₁.control = d₂.control
  controllen : d₁.controllen = d₂.controllen

theorem tunWrites_congr {d₁ d₂ : Datagram} (h : SameMessage d₁ d₂) : tunWrites d₁ = tunWrites d₂ := by
  rw [tunWrites, tunWrites, groOf, groOf, h.payload, h.control, h.controllen]

/-- The scratch is the same at every `recvmmsg`, as far as what follows depends
on it: two threads write the same for the same message, wherever in a batch and
after whatever history it comes. -/
theorem batches_independent {srcIdx₁ srcIdx₂ : UInt32} {sc₁ sc₂ sc₁' sc₂' : UdpReaderScratch}
    (h₁ : Run srcIdx₁ sc₁) (h₂ : Run srcIdx₂ sc₂) {ds₁ ds₂ : List Datagram}
    (hrecv₁ : Recvmmsg sc₁ ds₁ sc₁') (hrecv₂ : Recvmmsg sc₂ ds₂ sc₂') (t₁ t₂ : ConnTable)
    (now₁ now₂ : UInt64) : Ready sc₁ ∧ Ready sc₂ ∧ ∃ r₁ r₂,
      udpReader t₁ srcIdx₁ now₁ sc₁' ds₁.length = some r₁ ∧
      udpReader t₂ srcIdx₂ now₂ sc₂' ds₂.length = some r₂ ∧
      ∀ (i j : ℕ) (d₁ d₂ : Datagram), ds₁[i]? = some d₁ → ds₂[j]? = some d₂ → SameMessage d₁ d₂ →
        ∃ out, r₁.2.2[i]? = some out ∧ r₂.2.2[j]? = some out := by
  have hready₁ := run_ready h₁
  have hready₂ := run_ready h₂
  obtain ⟨t₁', sc₁'', hread₁, -⟩ := udpReader_eq hready₁ hrecv₁ t₁ srcIdx₁ now₁
  obtain ⟨t₂', sc₂'', hread₂, -⟩ := udpReader_eq hready₂ hrecv₂ t₂ srcIdx₂ now₂
  refine ⟨hready₁, hready₂, _, _, hread₁, hread₂, ?_⟩
  intro i j d₁ d₂ hd₁ hd₂ hsame
  refine ⟨tunWrites d₁, ?_, ?_⟩
  · rw [List.getElem?_map, hd₁]
    rfl
  · rw [List.getElem?_map, hd₂, tunWrites_congr hsame]
    rfl

/-- An entry that the kernel has filled, leaving all that it may leave. -/
def fill (m : Msg) (d : Datagram) : Msg :=
  ⟨m.iovOff, m.iovLen, addrLen d.addr, d.controllen, d.payload.length, d.addr,
    d.control ++ m.cbuf.drop d.control.length, patch m.buf m.iovOff d.payload⟩

theorem fill_delivered {m : Msg} (hm : m.Ready) (d : Datagram) : Delivered m (fill m d) d where
  iovOff := rfl
  iovLen := rfl
  fits := hm.iovLen ▸ d.payload_le
  msgLen := rfl
  buf := rfl
  namelen := by
    have hle : addrLen d.addr ≤ 28 := by cases d.addr <;> simp [addrLen]
    rw [hm.namelen]
    exact hle.trans (by decide)
  addr _ := rfl
  controllen := hm.controllen ▸ d.controllen_le
  length_cbuf := by
    have hlen := d.control_le.trans d.controllen_le
    rw [← hm.length_cbuf] at hlen
    rw [fill, List.length_append, List.length_drop]
    omega
  control _ := ⟨rfl, rfl⟩

theorem recvmmsg_any {sc : UdpReaderScratch} (h : Ready sc) {ds : List Datagram} (hds : ds.length ≤ batch) :
    ∃ sc', Recvmmsg sc ds sc' := by
  refine ⟨{ sc with msgs := sc.msgs.mapIdx fun i m ↦ (ds[i]?.map (fill m)).getD m }, ?_⟩
  constructor
  case length_le => rwa [h.length]
  case length => exact List.length_mapIdx ..
  case delivered =>
    intro i d hd
    have hlt : i < sc.msgs.length := by
      have hi := (List.getElem?_eq_some_iff.mp hd).1
      rw [h.length]
      omega
    refine ⟨sc.msgs[i], fill sc.msgs[i] d, List.getElem?_eq_getElem hlt, ?_,
      fill_delivered (h.msgs _ (List.getElem_mem hlt)) d⟩
    rw [List.getElem?_mapIdx, List.getElem?_eq_getElem hlt, hd]
    rfl
  case rest =>
    intro i hi
    rw [List.getElem?_mapIdx, List.getElem?_eq_none hi]
    cases sc.msgs[i]? <;> rfl
  case zeroHdr => rfl

theorem start_any (mem : Fin batch → Raw) : ∃ sc, makeUdpReaderScratch mem = some sc := by
  have hmapM (raws : List Raw) : ∃ msgs, raws.mapM Raw.msg = some msgs := by
    induction raws with
    | nil => exact ⟨[], rfl⟩
    | cons raw raws ih =>
      obtain ⟨msgs, hmsgs⟩ := ih
      have hle : 0 + (List.replicate virtioNetHdrLen (0 : UInt8)).length ≤ raw.buf.length := by
        rw [raw.length_buf]
        decide
      rw [List.mapM_cons, hmsgs, Raw.msg, zeroVirtioNetHdr, store_eq hle]
      exact ⟨_, rfl⟩
  obtain ⟨msgs, hmsgs⟩ := hmapM (List.ofFn mem)
  rw [makeUdpReaderScratch, hmsgs]
  exact ⟨_, rfl⟩

def ones : Raw where
  addr := .inet 7000 0
  cbuf := List.replicate cbufLen 1
  buf := List.replicate msgSize 1
  length_cbuf := List.length_replicate ..
  length_buf := List.length_replicate ..

def shortMessage (n : Fin 21) : Datagram where
  addr := .inet 7000 0
  payload := List.replicate n 7
  control := []
  controllen := 0
  payload_le := by
    rw [List.length_replicate]
    simp only [msgSize, virtioNetHdrLen]
    omega
  control_le := le_rfl
  controllen_le := Nat.zero_le _
  whole := nofun
  gro := nofun

def noConns : ConnTable := ⟨0, [], [], [], ∅, ∅⟩

/-- A packet comes first, or behind a probe and after an earlier packet. -/
theorem batches_independent_probe : ∃ sc₁ sc₂ sc₁' sc₂', Run 0 sc₁ ∧ Run 0 sc₂ ∧
    Recvmmsg sc₁ [shortMessage 20] sc₁' ∧ Recvmmsg sc₂ [shortMessage 0, shortMessage 20] sc₂' ∧
    Ready sc₁ ∧ Ready sc₂ ∧ ∃ r₁ r₂, udpReader noConns 0 0 sc₁' 1 = some r₁ ∧
      udpReader noConns 0 5 sc₂' 2 = some r₂ ∧ ∃ out, r₁.2.2[0]? = some out ∧ r₂.2.2[1]? = some out := by
  obtain ⟨sc₁, hstart⟩ := start_any fun _ ↦ ones
  have h₁ : Run 0 sc₁ := .start hstart
  obtain ⟨sc₁', hrecv₁⟩ := recvmmsg_any (run_ready h₁) (show [shortMessage 20].length ≤ batch by decide)
  obtain ⟨t', sc₂, hread, hready₂⟩ := udpReader_eq (run_ready h₁) hrecv₁ noConns 0 0
  have h₂ : Run 0 sc₂ := .batch h₁ hrecv₁ hread
  obtain ⟨sc₂', hrecv₂⟩ := recvmmsg_any hready₂
    (show [shortMessage 0, shortMessage 20].length ≤ batch by decide)
  obtain ⟨hr₁, hr₂, r₁, r₂, hread₁, hread₂, hsame⟩ := batches_independent h₁ h₂ hrecv₁ hrecv₂ noConns noConns 0 5
  exact ⟨sc₁, sc₂, sc₁', sc₂', h₁, h₂, hrecv₁, hrecv₂, hr₁, hr₂, r₁, r₂, hread₁, hread₂,
    hsame 0 1 _ _ rfl rfl ⟨rfl, rfl, rfl⟩⟩

end Gofra.ReceiveLoop
