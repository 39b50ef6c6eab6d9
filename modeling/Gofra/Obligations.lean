import Gofra.Delivery
import Gofra.Processes

namespace Gofra.Obligations

open Lib.Calls Lib.Buffer Lib.Chunks Lib.Network Lib.Interleaving Addr Peers Gso Conns Kernel TunReader Sending Dispatch
open Transmission Routing UdpReader ReceiveLoop Tunnel Destination Mesh Delivery Plane Processes

variable {peers : PeerTable} {names : Naming peers}

/-- What a call hands on. -/
def pays (names : Naming peers) (a : Fin peers.peers.length) : Act → Multiset (Parcel peers)
  | .sendto _ pkt dst => ((names.carried dst pkt).toList : Multiset (Parcel peers))
  | .sendmsg _ iov gsoSize dst =>
    (((cut gsoSize.toNat iov.flatten).filterMap (names.carried dst) : List (Parcel peers)) : Multiset (Parcel peers))
  | .write _ x => {(a, x.flatten)}
  | _ => 0

/-- The calls that take something in. -/
def takesIn : Act → Bool
  | .read .. | .recvmmsg .. => true
  | _ => false

/-- What a thread has to hand on after the answer to a call. -/
inductive Incurs (names : Naming peers) (t : ConnTable) (a : Fin peers.peers.length) :
    (c : Act) → Ans c → Multiset (Parcel peers) → Prop
  | read {tunFd : ℤ} {sc : Scratch} {data : List UInt8} {pkts : List (List UInt8)} (hdata : FromTun t data)
      (hpkts : Packets t sc data pkts) : Incurs names t a (.read tunFd sc) (.ok data) (names.parcels data pkts)
  | readFailed {tunFd : ℤ} {sc : Scratch} (err : ℕ) : Incurs names t a (.read tunFd sc) (.error err) 0
  | recvmmsg {udpFd : ℤ} {sc sc' : UdpReaderScratch} {ds : List Datagram} (hrecv : Recvmmsg sc ds sc') :
      Incurs names t a (.recvmmsg udpFd sc) (.ok (sc', ds.length))
        (((ds.flatMap tunWrites).map fun x ↦ (a, x.flatten) : List (Parcel peers)) : Multiset (Parcel peers))
  | recvmmsgFailed {udpFd : ℤ} {sc : UdpReaderScratch} (err : ℕ) : Incurs names t a (.recvmmsg udpFd sc) (.error err) 0
  | other {c : Act} (h : takesIn c = false) (r : Ans c) : Incurs names t a c r 0

def ledger (names : Naming peers) (t : ConnTable) (a : Fin peers.peers.length) : Ledger Act Ans (Parcel peers) :=
  ⟨pays names a, Incurs names t a⟩

section Rules

variable {t : ConnTable} {a : Fin peers.peers.length} {α β : Type} {Q : α → Prop} {owed : Multiset (Parcel peers)}

theorem owes_other {c : Act} (h : takesIn c = false) {f : Ans c → Thread α}
    (hf : ∀ r, Owes (ledger names t a) Q (f r) owed) :
    Owes (ledger names t a) Q (act c >>= f) (pays names a c + owed) := by
  refine owes_perform fun r new hnew ↦ ?_
  cases hnew with
  | read => cases h
  | readFailed => cases h
  | recvmmsg => cases h
  | recvmmsgFailed => cases h
  | other _ r =>
    rw [add_zero]
    exact hf r

/-- A call that is none of the packets' business. -/
theorem owes_quiet {c : Act} (h : takesIn c = false) (hpays : pays names a c = 0) {f : Ans c → Thread α}
    (hf : ∀ r, Owes (ledger names t a) Q (f r) owed) : Owes (ledger names t a) Q (act c >>= f) owed := by
  have howes := owes_other h hf
  rwa [hpays, zero_add] at howes

theorem owes_orWarn (what : Str) (r : Except ℕ Unit) : Owes (ledger names t a) (fun _ ↦ True) (orWarn what r) 0 := by
  cases r with
  | ok _ => exact owes_pure trivial
  | error err =>
    rw [orWarn, ← bind_pure (act _)]
    exact owes_quiet rfl rfl fun _ ↦ owes_pure trivial

theorem must_bind {o : Option β} {b : β} (h : o = some b) (f : β → Thread α) : must o >>= f = f b := by
  rw [h]
  rfl

end Rules

section Next

variable {t t₀ : ConnTable} {a : Fin peers.peers.length} {c : Conn}

theorem owes_scan (now : UInt64) {base : ℕ} (hbase : base < c.slots.length) {is : List ℕ}
    (his : ∀ i ∈ is, i < c.slots.length) : Owes (ledger names t₀ a) (· ∈ c.slots) (scan c now base is) 0 := by
  induction is with
  | nil =>
    rw [scan, List.getElem?_eq_getElem hbase]
    exact owes_pure (List.getElem_mem hbase)
  | cons i is ih =>
    obtain ⟨hi, his⟩ := List.forall_mem_cons.mp his
    rw [scan, must_bind (List.getElem?_eq_getElem hi)]
    refine owes_quiet rfl rfl fun ls ↦ ?_
    split
    · exact owes_pure (List.getElem_mem hi)
    · exact ih his

/-- Whatever it reads, `Conn::next` comes back with a slot of the connection. -/
theorem owes_next {k : ℕ} (hc : t.conns[k]? = some c) (hslots : c.slots ≠ []) (now : UInt64) :
    Owes (ledger names t₀ a) (· ∈ c.slots) (next t k now) 0 := by
  have hpos := List.length_pos_iff.mpr hslots
  rw [next, must_bind hc]
  refine owes_quiet rfl rfl fun sum ↦ ?_
  rw [if_neg (by omega)]
  refine owes_scan now (Nat.mod_lt _ hpos) fun i hi ↦ ?_
  obtain ⟨j, -, rfl⟩ := List.mem_map.mp hi
  exact Nat.mod_lt _ hpos

end Next

/-- The slots of connection `k` all lead to the host `b`. -/
def LeadsTo (names : Naming peers) (t : ConnTable) (k : ℕ) (b : Fin peers.peers.length) : Prop :=
  ∃ c, Sendable t k c ∧ ∀ x ∈ c.slots, ∃ s, t.allSlots[x]? = some s ∧ names.ofDst s.dstAddr = some b

/-- The slots of a VIP's connection lead to the host that goes by this VIP. -/
def Fits (names : Naming peers) (t : ConnTable) : Prop :=
  ∀ vip k, t.lookup vip = some k → ∃ b, LeadsTo names t k b ∧ names.ofVip vip = some b

section Send

variable {t t₀ : ConnTable} {a b : Fin peers.peers.length} {k : ℕ}

theorem carried_eq {dst : SockAddr} (h : names.ofDst dst = some b) {p : List UInt8} (hp : p ≠ []) :
    names.carried dst p = some (b, withHeader p) := by
  rw [Naming.carried, if_neg hp, h]
  rfl

theorem owes_sendOne (h : LeadsTo names t k b) {pkt : List UInt8} (hne : pkt ≠ []) :
    Owes (ledger names t₀ a) (fun _ ↦ True) (Plane.sendOne t k pkt) {(b, withHeader pkt)} := by
  obtain ⟨c, hc, hto⟩ := h
  rw [Plane.sendOne]
  refine owes_quiet rfl rfl fun now ↦ ?_
  rw [← zero_add ({(b, withHeader pkt)} : Multiset (Parcel peers))]
  refine owes_bind (owes_next hc.conn hc.slots now) fun slot hslot ↦ ?_
  obtain ⟨s, hs, hhost⟩ := hto slot hslot
  have hpays : pays names a (.sendto s.srcFd pkt s.dstAddr) = {(b, withHeader pkt)} := by
    rw [pays, carried_eq hhost hne]
    rfl
  rw [must_bind hs, ← hpays, ← add_zero (pays names a _)]
  exact owes_other rfl fun r ↦ owes_orWarn _ r

/-- Under any interleaving `sendUso` hands on what it would hand on undisturbed. -/
theorem owes_usoLoop (h : LeadsTo names t k b) (now : UInt64) {env : Env} {segBufs : List (List UInt8)}
    {segSizes : List ℕ} {gsoSize : UInt16} {partSize segs fuel i call : ℕ} {t₁ t₂ : ConnTable} {sent : List Send}
    (hrun : TunReader.usoLoop k env segBufs segSizes gsoSize partSize segs fuel i call t₁ = some (t₂, sent))
    (hne : ∀ p ∈ sent.flatMap wire, p ≠ []) :
    Owes (ledger names t₀ a) (fun _ ↦ True) (Plane.usoLoop t k now segBufs segSizes gsoSize partSize segs fuel i)
      (((sent.flatMap wire).map fun p ↦ (b, withHeader p) : List (Parcel peers)) : Multiset (Parcel peers)) := by
  induction fuel generalizing i call t₁ t₂ sent with
  | zero =>
    obtain ⟨-, rfl⟩ := Prod.mk.inj (Option.some.inj hrun)
    exact owes_pure trivial
  | succ fuel ih =>
    rw [TunReader.usoLoop] at hrun
    rw [Plane.usoLoop]
    split at hrun
    · rename_i hlt
      simp only [Option.bind_eq_bind, Option.bind_eq_some_iff] at hrun
      obtain ⟨iov, hiov, ⟨t', slot', s'⟩, -, ⟨t'', rest⟩, hrest, he⟩ := hrun
      obtain ⟨-, rfl⟩ := Prod.mk.inj (Option.some.inj he)
      rw [List.flatMap_cons] at hne
      obtain ⟨hhead, htail⟩ := List.forall_mem_append.mp hne
      rw [if_pos hlt, List.flatMap_cons, List.map_append, ← Multiset.coe_add]
      dsimp only
      rw [must_bind hiov, ← zero_add (((_ : List (Parcel peers)) : Multiset (Parcel peers)) + _)]
      obtain ⟨c, hc, hto⟩ := h
      refine owes_bind (owes_next hc.conn hc.slots now) fun slot hslot ↦ ?_
      obtain ⟨s, hs, hhost⟩ := hto slot hslot
      have hpays : pays names a (.sendmsg s.srcFd iov gsoSize s.dstAddr) =
          (((cut gsoSize.toNat iov.flatten).map fun p ↦ (b, withHeader p) : List (Parcel peers)) :
            Multiset (Parcel peers)) := by
        rw [pays, ← List.filterMap_eq_map]
        exact congrArg _ (List.filterMap_congr fun p hp ↦ carried_eq hhost (hhead p hp))
      rw [must_bind hs]
      change Owes _ _ _ ((((cut gsoSize.toNat iov.flatten).map _ : List (Parcel peers)) : Multiset (Parcel peers)) + _)
      rw [← hpays]
      refine owes_other rfl fun r ↦ ?_
      rw [← zero_add (((_ : List (Parcel peers)) : Multiset (Parcel peers)))]
      exact owes_bind (owes_orWarn _ r) fun _ _ ↦ ih hrest htail
    · rename_i hge
      obtain ⟨-, rfl⟩ := Prod.mk.inj (Option.some.inj hrun)
      rw [if_neg hge]
      exact owes_pure trivial

theorem owes_sendUso (h : LeadsTo names t k b) {env : Env} {segBufs : List (List UInt8)} {segSizes : List ℕ} {segs : ℕ}
    {t₁ t₂ : ConnTable} {sent : List Send} (hrun : TunReader.sendUso t₁ k env segBufs segSizes segs = some (t₂, sent))
    (hne : ∀ p ∈ sent.flatMap wire, p ≠ []) :
    Owes (ledger names t₀ a) (fun _ ↦ True) (Plane.sendUso t k segBufs segSizes segs)
      (((sent.flatMap wire).map fun p ↦ (b, withHeader p) : List (Parcel peers)) : Multiset (Parcel peers)) := by
  rw [TunReader.sendUso] at hrun
  obtain ⟨size, hsize, hloop⟩ := Option.bind_eq_some_iff.mp hrun
  rw [Plane.sendUso, must_bind hsize]
  exact owes_quiet rfl rfl fun now ↦ owes_usoLoop h now hloop hne

theorem owes_forward (h : LeadsTo names t k b) {env : Env} {sc : Scratch} {innerLen : ℕ} {hdr : VirtioNetHdr}
    {t₁ : ConnTable} {st' : TunReader.State} {sent : List Send}
    (hrun : TunReader.forward ⟨t₁, sc⟩ k env innerLen hdr = some (st', sent)) (hne : ∀ p ∈ sent.flatMap wire, p ≠ []) :
    Owes (ledger names t₀ a) (fun _ ↦ True) (Plane.forward t k sc innerLen hdr)
      (((sent.flatMap wire).map fun p ↦ (b, withHeader p) : List (Parcel peers)) : Multiset (Parcel peers)) := by
  rw [TunReader.forward] at hrun
  rw [Plane.forward]
  split at hrun
  · rename_i hnone
    obtain ⟨sc', hsc', hsend⟩ := Option.bind_eq_some_iff.mp hrun
    obtain ⟨⟨t', sent'⟩, hsent, he⟩ := Option.bind_eq_some_iff.mp hsend
    obtain ⟨-, rfl⟩ := Prod.mk.inj (Option.some.inj he)
    obtain ⟨⟨t'', slot, s⟩, -, he⟩ := Option.bind_eq_some_iff.mp hsent
    obtain ⟨-, rfl⟩ := Prod.mk.inj (Option.some.inj he)
    have hwire : [(⟨slot, s.srcFd, s.dstAddr, [sc'.inner.take innerLen], none⟩ : Send)].flatMap wire =
        [sc'.inner.take innerLen] := by simp [wire]
    rw [hwire] at hne ⊢
    rw [if_pos hnone, must_bind hsc']
    exact owes_seq (owes_sendOne h (hne _ List.mem_cons_self)) fun _ _ ↦ owes_pure trivial
  · rename_i hnone
    rw [if_neg hnone]
    split at hrun
    · rename_i htcp
      obtain ⟨⟨segs, sc'⟩, hsplit, hrest⟩ := Option.bind_eq_some_iff.mp hrun
      rw [if_pos htcp, must_bind hsplit]
      dsimp only at hrest ⊢
      split at hrest
      · rename_i hneg
        obtain ⟨-, rfl⟩ := Prod.mk.inj (Option.some.inj hrest)
        rw [if_pos hneg]
        exact owes_quiet rfl rfl fun _ ↦ owes_pure trivial
      · rename_i hsegs
        obtain ⟨⟨t', sent'⟩, hsent, he⟩ := Option.bind_eq_some_iff.mp hrest
        obtain ⟨-, rfl⟩ := Prod.mk.inj (Option.some.inj he)
        rw [if_neg hsegs]
        exact owes_seq (owes_sendUso h hsent hne) fun _ _ ↦ owes_pure trivial
    · rename_i htcp
      obtain ⟨-, rfl⟩ := Prod.mk.inj (Option.some.inj hrun)
      rw [if_neg htcp]
      exact owes_quiet rfl rfl fun _ ↦ owes_pure trivial

end Send

section Receivers

variable {a : Fin peers.peers.length} {t : ConnTable} {data : List UInt8} {pkts : List (List UInt8)}

theorem find?_finRange {n : ℕ} {p : Fin n → Bool} {b : Fin n} (hb : p b = true) (hone : ∀ c, p c = true → c = b) :
    (List.finRange n).find? p = some b := by
  obtain ⟨c, hc⟩ := Option.isSome_iff_exists.mp (List.find?_isSome.mpr ⟨b, List.mem_finRange b, hb⟩)
  exact hc.trans (congrArg some (hone c (List.find?_some hc)))

theorem hostAt_eq (hd : Distinct peers) {b : Fin peers.peers.length} {dst : SockAddr} (h : dst ∈ (peers.at b).dsts) :
    hostAt peers dst = some b :=
  find?_finRange (decide_eq_true h) fun c hc ↦ hd.dsts c b dst (of_decide_eq_true hc) h

theorem hostWithVip_eq (hd : Distinct peers) (b : Fin peers.peers.length) :
    hostWithVip peers (peers.at b).vip = some b :=
  find?_finRange (decide_eq_true rfl) fun c hc ↦ hd.vip c b (of_decide_eq_true hc)

/-- Where VIPs and endpoints are distinct, the slots of a VIP's connection lead
to the host with that VIP. -/
theorem fits_naming (hd : Distinct peers) (hr : Routes peers a t) : Fits (naming peers) t := by
  intro vip k hk
  obtain ⟨c, p, hc, -, hp, rfl, hslots⟩ := hr.conn vip k hk
  obtain ⟨b, -, rfl⟩ := exists_row hp
  refine ⟨b, ⟨c, hc, fun x hx ↦ ?_⟩, hostWithVip_eq hd b⟩
  obtain ⟨s, hs, hdst⟩ := hslots x hx
  exact ⟨s, hs, hostAt_eq hd hdst⟩

/-- Nothing has to be distinct where every packet goes by the name of one host. -/
theorem fits_const (hr : Routes peers a t) (b : Fin peers.peers.length) :
    Fits (Naming.mk (fun _ ↦ some b) fun _ ↦ some b) t := by
  intro vip k hk
  obtain ⟨c, p, hc, -, -, -, hslots⟩ := hr.conn vip k hk
  refine ⟨b, ⟨c, hc, fun x hx ↦ ?_⟩, rfl⟩
  obtain ⟨s, hs, -⟩ := hslots x hx
  exact ⟨s, hs, rfl⟩

/-- What the sequential reader would send for a read, on any table. -/
theorem packets_sent (hr : Routes peers a t) (hdata : FromTun t data) {sc : Scratch} (hpkts : Packets t sc data pkts)
    (env : Env) : ∃ st' sent, TunReader.tunReader ⟨t, sc⟩ env data = some (st', sent) ∧ sent.flatMap wire = pkts := by
  cases hpkts with
  | accepted ha =>
    obtain ⟨st', sent, hrun, -, hwire⟩ := tunReader_wire hr ha env
    exact ⟨st', sent, hrun, hwire⟩
  | ignored hno =>
    obtain ⟨st', sent, hrun, -⟩ := @tunReader_handled _ _ ⟨t, sc⟩ _ hr hdata.consistent hdata.fitting env
    obtain ⟨-, rfl⟩ := (accepted_or_nil hdata.wellFormed hrun).resolve_left fun ⟨pkts, ha⟩ ↦ hno pkts ha
    exact ⟨st', [], hrun, rfl⟩

theorem packets_whole (hdata : FromTun t data) {sc : Scratch} (hpkts : Packets t sc data pkts) :
    ∀ p ∈ pkts, 20 ≤ p.length := by
  cases hpkts with
  | accepted ha => exact fun p hp ↦ (accepted_packets ha hdata.wellFormed p hp).2
  | ignored => exact fun p hp ↦ absurd hp List.not_mem_nil

theorem superRead_fromTun (t : ConnTable) : FromTun t Routing.superRead := by
  have hof {hdr : VirtioNetHdr} (h : decodeVirtioNetHdr Routing.superRead = some hdr) : hdr = Segmentation.sampleHdr :=
    Option.some.inj (h.symm.trans Routing.superRead_hdr)
  refine ⟨⟨fun hdr h hnone ↦ ?_, fun hdr h _ ↦ ?_⟩, fun _ hdr h ↦ ?_, fun _ _ _ hdr h ↦ ?_⟩
  · exact absurd (hof h ▸ hnone) (by decide)
  · exact hof h ▸ Segmentation.samplePacket_superPacket
  · exact hof h ▸ Routing.superRead_consistent
  · exact hof h ▸ Routing.superRead_fits

/-- A turn of `tunReader` hands on what its read brings in. -/
theorem owes_tunReader (hf : Fits names t) (hr : Routes peers a t) (tunFd : ℤ) (sc : Scratch) :
    Owes (ledger names t a) (fun _ ↦ True) (Plane.tunReader t tunFd sc) 0 := by
  rw [Plane.tunReader, ← add_zero (0 : Multiset (Parcel peers))]
  refine owes_perform fun r new hnew ↦ ?_
  rw [zero_add]
  cases hnew with
  | readFailed err => exact owes_quiet rfl rfl fun _ ↦ owes_pure trivial
  | other h => cases h
  | @read _ _ data pkts hdata hpkts =>
    obtain ⟨st', sent, hrun, hwire⟩ := packets_sent hr hdata hpkts ⟨0, fun _ _ ↦ 0⟩
    have hne : ∀ p ∈ sent.flatMap wire, p ≠ [] := by
      intro p hp
      have hlen := packets_whole hdata hpkts p (hwire ▸ hp)
      exact List.length_pos_iff.mp (by omega)
    rw [TunReader.tunReader] at hrun
    dsimp only at hrun ⊢
    have hnone (hsent : sent = []) : names.parcels data pkts = [] := by
      rw [Naming.parcels, ← hwire, hsent]
      split <;> rfl
    split at hrun
    · rename_i hshort
      obtain ⟨-, hsent⟩ := Prod.mk.inj (Option.some.inj hrun)
      rw [if_pos hshort, hnone hsent.symm]
      exact owes_pure trivial
    · rename_i hlong
      obtain ⟨hdr, hdec, hrun⟩ := Option.bind_eq_some_iff.mp hrun
      rw [if_neg hlong, must_bind hdec]
      cases hk : (dstFromIPv4 (sc.read data).inner (min data.length readSize - virtioNetHdrLen)).bind t.lookup with
      | none =>
        simp only [hk] at hrun ⊢
        obtain ⟨-, hsent⟩ := Prod.mk.inj (Option.some.inj hrun)
        rw [hnone hsent.symm]
        exact owes_pure trivial
      | some k =>
        simp only [hk] at hrun ⊢
        have hlook : t.lookup (vipOf data) = some k := by
          have hread : readSize = 65673 := rfl
          have hvnet : virtioNetHdrLen = 10 := rfl
          rw [← pktLen, dstFromIPv4_read sc (show 30 ≤ data.length by omega)] at hk
          split at hk
          · exact hk
          · cases hk
        obtain ⟨b, hto, hname⟩ := hf _ k hlook
        have hparcels : names.parcels data pkts = (sent.flatMap wire).map fun p ↦ (b, withHeader p) := by
          rw [Naming.parcels, hname, hwire]
        rw [hparcels]
        exact owes_forward hto hrun hne

end Receivers

section Write

variable {t t₀ : ConnTable} {a : Fin peers.peers.length} {tunFd : ℤ} {zeroHdr : List UInt8}

/-- What the writes `ws` put out at the TUN of `a`. -/
def written (a : Fin peers.peers.length) (ws : List TunWrite) : Multiset (Parcel peers) :=
  ((ws.map fun x ↦ (a, x.flatten) : List (Parcel peers)) : Multiset (Parcel peers))

theorem owes_write (w : TunWrite) (what : Str) :
    Owes (ledger names t₀ a) (fun _ ↦ True) (act (.write tunFd w) >>= fun r ↦ orWarn what r) (written a [w]) := by
  change Owes _ _ _ (pays names a (.write tunFd w) + 0)
  exact owes_other rfl fun r ↦ owes_orWarn what r

theorem owes_splitLoop {buf : List UInt8} {gsoSize payloadLen fuel off : ℕ} {ws : List TunWrite}
    (hrun : UdpReader.splitLoop zeroHdr buf gsoSize payloadLen fuel off = some ws) :
    Owes (ledger names t₀ a) (fun _ ↦ True) (Plane.splitLoop tunFd zeroHdr buf gsoSize payloadLen fuel off)
      (written a ws) := by
  induction fuel generalizing off ws with
  | zero =>
    obtain rfl := Option.some.inj hrun
    exact owes_pure trivial
  | succ fuel ih =>
    rw [UdpReader.splitLoop] at hrun
    rw [Plane.splitLoop]
    split at hrun
    · rename_i hlt
      simp only [Option.bind_eq_bind, Option.bind_eq_some_iff] at hrun
      obtain ⟨data, hdata, ws', hrest, he⟩ := hrun
      obtain rfl := Option.some.inj he
      rw [if_pos hlt, must_bind hdata]
      change Owes _ _ _ (pays names a (.write tunFd [zeroHdr, data]) + written a ws')
      refine owes_other rfl fun r ↦ ?_
      rw [← zero_add (written a ws')]
      exact owes_bind (owes_orWarn _ r) fun _ _ ↦ ih hrest
    · rename_i hge
      obtain rfl := Option.some.inj hrun
      rw [if_neg hge]
      exact owes_pure trivial

theorem owes_writeMsg {m : Msg} {gsoSize : ℤ} {ws : List TunWrite}
    (hrun : UdpReader.writeMsg zeroHdr m gsoSize = some ws) :
    Owes (ledger names t₀ a) (fun _ ↦ True) (Plane.writeMsg tunFd zeroHdr m gsoSize) (written a ws) := by
  rw [UdpReader.writeMsg] at hrun
  rw [Plane.writeMsg]
  split at hrun
  · rename_i hshort
    obtain rfl := Option.some.inj hrun
    rw [if_pos hshort]
    exact owes_pure trivial
  · rename_i hlong
    rw [if_neg hlong]
    split at hrun
    · rename_i hgro
      rw [if_pos hgro]
      exact owes_splitLoop hrun
    · rename_i hgro
      obtain ⟨data, hdata, he⟩ := Option.bind_eq_some_iff.mp hrun
      obtain rfl := Option.some.inj he
      rw [if_neg hgro, must_bind hdata]
      exact owes_write [data] _

theorem owes_hear (srcIdx : UInt32) (addr : SockAddr) (now : UInt64) :
    Owes (ledger names t₀ a) (fun _ ↦ True) (Plane.hear t srcIdx addr now) 0 := by
  rw [Plane.hear]
  cases t.lookupSlot srcIdx addr with
  | none => exact owes_pure trivial
  | some slot =>
    dsimp only
    rw [← bind_pure (act _)]
    exact owes_quiet rfl rfl fun _ ↦ owes_pure trivial

/-- Under any interleaving a batch is written as it would be undisturbed. -/
theorem owes_batchLoop (srcIdx : UInt32) (now : UInt64) {fuel i : ℕ} {sc sc' : UdpReaderScratch} {t₁ t₂ : ConnTable}
    {outs : List (List TunWrite)} (hrun : udpReaderLoop srcIdx now fuel i t₁ sc = some (t₂, sc', outs)) :
    Owes (ledger names t₀ a) (· = sc') (batchLoop t tunFd srcIdx now fuel i sc) (written a outs.flatten) := by
  induction fuel generalizing i t₁ sc outs with
  | zero =>
    obtain ⟨-, he⟩ := Prod.mk.inj (Option.some.inj hrun)
    obtain ⟨rfl, rfl⟩ := Prod.mk.inj he
    exact owes_pure rfl
  | succ fuel ih =>
    rw [udpReaderLoop] at hrun
    simp only [Option.bind_eq_bind, Option.bind_eq_some_iff] at hrun
    obtain ⟨m, hm, gsoSize, hgro, out, hout, ⟨t', sc₁, outs'⟩, hrest, he⟩ := hrun
    obtain ⟨rfl, he'⟩ := Prod.mk.inj (Option.some.inj he)
    obtain ⟨rfl, rfl⟩ := Prod.mk.inj he'
    have hsplit : written a (out :: outs').flatten = written a out + written a outs'.flatten := by
      rw [List.flatten_cons, written, List.map_append, ← Multiset.coe_add]
      rfl
    rw [batchLoop, must_bind hm, hsplit, ← zero_add (written a out + _)]
    refine owes_bind (owes_hear srcIdx m.addr now) fun _ _ ↦ ?_
    rw [must_bind hgro]
    exact owes_bind (owes_writeMsg hout) fun _ _ ↦ ih hrest

theorem owes_udpReader (udpFd tunFd : ℤ) (srcIdx : UInt32) {sc : UdpReaderScratch} (hsc : UdpReader.Ready sc) :
    Owes (ledger names t a) UdpReader.Ready (Plane.udpReader t udpFd tunFd srcIdx sc) 0 := by
  rw [Plane.udpReader, ← add_zero (0 : Multiset (Parcel peers))]
  refine owes_perform fun r new hnew ↦ ?_
  rw [zero_add]
  cases hnew with
  | recvmmsgFailed err => exact owes_quiet rfl rfl fun _ ↦ owes_pure hsc
  | other h => cases h
  | @recvmmsg _ _ sc' ds hrecv =>
    refine owes_quiet rfl rfl fun now ↦ ?_
    obtain ⟨t', sc'', hread, hready⟩ := udpReader_eq hsc hrecv t srcIdx now
    have howes := @owes_batchLoop peers names t t a tunFd srcIdx now _ _ _ _ _ _ _ hread
    rw [← List.flatMap_def] at howes
    refine owes_mono ?_ howes
    rintro _ rfl
    exact hready

end Write

section Quiet

variable {t t₀ : ConnTable} {a : Fin peers.peers.length}

theorem visited_eq (t : ConnTable) : visited t = List.range t.allSlots.length := by
  have hfold (l acc : List ℕ) : l.foldl (fun slots slot ↦ slots ++ [slot]) acc = acc ++ l := by
    induction l generalizing acc with
    | nil => exact (List.append_nil acc).symm
    | cons x l ih => rw [List.foldl_cons, ih, List.append_assoc, List.singleton_append]
  rw [visited, ConnTable.visitSlots, hfold, List.nil_append]

theorem owes_probe {slot : ℕ} {s : ConnSlot} (hs : t.allSlots[slot]? = some s) :
    Owes (ledger names t₀ a) (fun _ ↦ True) (Plane.probe t slot) 0 := by
  rw [Plane.probe, must_bind hs]
  exact owes_quiet rfl rfl fun r ↦ owes_orWarn _ r

theorem owes_prober (intervalMs : UInt64) : Owes (ledger names t₀ a) (fun _ ↦ True) (prober t intervalMs) 0 := by
  have hprobes : Owes (ledger names t₀ a) (fun rs ↦ ∀ r ∈ rs, True) ((visited t).mapM (Plane.probe t))
      ((visited t).map fun _ ↦ (0 : Multiset (Parcel peers))).sum := by
    refine owes_mapM fun slot hslot ↦ ?_
    rw [visited_eq] at hslot
    exact owes_probe (List.getElem?_eq_getElem (List.mem_range.mp hslot))
  rw [List.map_const', List.sum_replicate, nsmul_zero] at hprobes
  refine owes_seq hprobes fun _ _ ↦ ?_
  rw [← bind_pure (act _)]
  exact owes_quiet rfl rfl fun _ ↦ owes_pure trivial

theorem owes_statsLoop (now timeoutMs : UInt64) {slots : List ℕ} (h : ∀ slot ∈ slots, slot < t.allSlots.length)
    (sb : Str) (aliveCount deadCount : UInt64) :
    Owes (ledger names t₀ a) (fun _ ↦ True) (statsLoop t now timeoutMs slots sb aliveCount deadCount) 0 := by
  induction slots generalizing sb aliveCount deadCount with
  | nil => exact owes_pure trivial
  | cons slot slots ih =>
    obtain ⟨hslot, hslots⟩ := List.forall_mem_cons.mp h
    rw [statsLoop, must_bind (List.getElem?_eq_getElem hslot)]
    refine owes_quiet rfl rfl fun ls ↦ ?_
    dsimp only
    split
    · exact ih hslots _ _ _
    · exact ih hslots _ _ _

theorem owes_slotsStats (timeoutMs intervalSec : UInt64) :
    Owes (ledger names t₀ a) (fun _ ↦ True) (slotsStats t timeoutMs intervalSec) 0 := by
  refine owes_quiet rfl rfl fun now ↦ ?_
  refine owes_seq (owes_statsLoop now timeoutMs (fun slot hslot ↦ ?_) _ 0 0) fun _ _ ↦ ?_
  · rw [visited_eq] at hslot
    exact List.mem_range.mp hslot
  · refine owes_quiet rfl rfl fun _ ↦ owes_quiet rfl rfl fun _ ↦ ?_
    rw [← bind_pure (act _)]
    exact owes_quiet rfl rfl fun _ ↦ owes_pure trivial

end Quiet

/-- What a thread has between two turns. -/
def Keeps : Runnable → Local → Prop
  | .tunReader _, .tun _ => True
  | .udpReader .., .udp sc => UdpReader.Ready sc
  | .prober _, .nothing => True
  | .slotsStats .., .nothing => True
  | _, _ => False

theorem fresh_keeps {r : Runnable} {s : Local} (h : Fresh r s) : Keeps r s := by
  cases h with
  | udpReader h => exact start_ready h
  | tunReader | prober | slotsStats => trivial

/-- A turn of a loop leaves nothing behind, and can be followed by another. -/
theorem owes_turn {t : ConnTable} {a : Fin peers.peers.length} (hf : Fits names t) (hr : Routes peers a t)
    {r : Runnable} {s : Local} (h : Keeps r s) : Owes (ledger names t a) (Keeps r) (turn t r s) 0 := by
  cases r <;> cases s <;> try exact h.elim
  case tunReader tunFd sc => exact owes_seq (owes_tunReader hf hr tunFd sc) fun _ _ ↦ owes_pure trivial
  case udpReader udpFd tunFd srcIdx sc =>
    exact owes_seq (owes_udpReader udpFd tunFd srcIdx h) fun _ hsc ↦ owes_pure hsc
  case prober intervalMs => exact owes_seq (owes_prober intervalMs) fun _ _ ↦ owes_pure trivial
  case slotsStats timeoutMs intervalSec =>
    exact owes_seq (owes_slotsStats timeoutMs intervalSec) fun _ _ ↦ owes_pure trivial

end Gofra.Obligations
