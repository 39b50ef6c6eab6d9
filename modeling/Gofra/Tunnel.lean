import Gofra.ReceiveLoop
import Gofra.Routing
import Gofra.Transmission
import Mathlib.Data.List.Perm.Subperm

namespace Gofra.Tunnel

open Lib.Chunks Addr Peers Gso Conns TunReader Dispatch Transmission UdpReader ReceiveLoop

def Ungrouped (d : Datagram) : Prop := cmsgHdrLen ≤ d.controllen → ¬ IsGro d.control

/-- A message that reports the GRO size `g`. -/
structure Grouped (d : Datagram) (g : ℕ) : Prop where
  controllen : cmsgHdrLen ≤ d.controllen
  isGro : IsGro d.control
  gsoSize : leInt ((d.control.drop cmsgHdrLen).take 4) = g

/-- The messages that the receiving kernel makes of delivered datagrams: single
ones, and groups of non-empty ones of a common length, of which only the last
may be shorter. -/
inductive Reported : List (List UInt8) → List Datagram → Prop
  | nil : Reported [] []
  | single {delivered : List (List UInt8)} {ds : List Datagram} (d : Datagram) (hd : Ungrouped d)
      (h : Reported delivered ds) : Reported (d.payload :: delivered) (d :: ds)
  | group {delivered : List (List UInt8)} {ds : List Datagram} {g : ℕ} {pieces : List (List UInt8)}
      (d : Datagram) (hd : Grouped d g) (hp : Pieces g pieces) (hne : pieces ≠ [])
      (hpay : d.payload = pieces.flatten) (h : Reported delivered ds) :
      Reported (pieces ++ delivered) (d :: ds)

theorem groOf_ungrouped {d : Datagram} (h : Ungrouped d) : groOf d = 0 := by
  rw [groOf, if_neg fun hc ↦ h hc.1 hc.2]

theorem groOf_grouped {d : Datagram} {g : ℕ} (h : Grouped d g) : groOf d = g := by
  rw [groOf, if_pos ⟨h.controllen, h.isGro⟩, h.gsoSize]

/-- A packet behind a zero vnet header. -/
def withHeader (pkt : List UInt8) : List UInt8 := List.replicate virtioNetHdrLen 0 ++ pkt

/-- A probe is not written, a packet is. -/
theorem tunWrites_ungrouped {d : Datagram} (h : Ungrouped d) (hlen : d.payload ≠ [] → 20 ≤ d.payload.length) :
    (tunWrites d).map List.flatten = ([d.payload].filter (· ≠ [])).map withHeader := by
  rw [tunWrites, groOf_ungrouped h]
  by_cases hnil : d.payload = []
  · rw [hnil]
    rfl
  · have hle := hlen hnil
    rw [if_neg (by omega), if_neg (by omega)]
    simp [hnil, withHeader]

theorem Pieces.single {g : ℕ} {pieces : List (List UInt8)} (h : Pieces g pieces) (hne : pieces ≠ [])
    (hle : pieces.flatten.length ≤ g) : pieces = [pieces.flatten] := by
  cases h with
  | nil => exact absurd rfl hne
  | last hpos hle => simp
  | @cons l ls hl hne' hls =>
    obtain ⟨l', ls, rfl⟩ := List.exists_cons_of_ne_nil hne'
    have hpos := hls.length_pos List.mem_cons_self
    simp only [List.flatten_cons, List.length_append] at hle
    omega

/-- A group is cut back into the datagrams it was made of. -/
theorem tunWrites_grouped {d : Datagram} {g : ℕ} (h : Grouped d g) {pieces : List (List UInt8)}
    (hp : Pieces g pieces) (hne : pieces ≠ []) (hpay : d.payload = pieces.flatten)
    (hlen : ∀ p ∈ pieces, p ≠ [] → 20 ≤ p.length) :
    (tunWrites d).map List.flatten = (pieces.filter (· ≠ [])).map withHeader := by
  have hfull {p : List UInt8} (hmem : p ∈ pieces) : p ≠ [] :=
    List.length_pos_iff.mp (hp.length_pos hmem)
  have hfilter : pieces.filter (· ≠ []) = pieces :=
    List.filter_eq_self.mpr fun p hmem ↦ by simpa using hfull hmem
  have hg := hp.pos hne
  obtain ⟨p, rest, hcons⟩ := List.exists_cons_of_ne_nil hne
  have hfirst := hlen p (hcons ▸ List.mem_cons_self) (hfull (hcons ▸ List.mem_cons_self))
  have htotal : 20 ≤ d.payload.length := by
    rw [hpay, hcons, List.flatten_cons, List.length_append]
    omega
  rw [hfilter, tunWrites, groOf_grouped h, Int.toNat_natCast, if_neg (by omega)]
  split
  · rw [hpay, cut_flatten hp, List.map_map]
    apply List.map_congr_left fun p hmem ↦ ?_
    simp [withHeader]
  · rename_i hcond
    have hone := Pieces.single hp hne (by rw [← hpay]; omega)
    rw [hone, ← hpay]
    simp [withHeader]

theorem reported_writes {delivered : List (List UInt8)} {ds : List Datagram} (h : Reported delivered ds)
    (hlen : ∀ p ∈ delivered, p ≠ [] → 20 ≤ p.length) :
    (ds.flatMap tunWrites).map List.flatten = (delivered.filter (· ≠ [])).map withHeader := by
  induction h with
  | nil => rfl
  | @single delivered ds d hd _ ih =>
    rw [List.flatMap_cons, List.map_append, ih fun p hp ↦ hlen p (List.mem_cons_of_mem _ hp),
      tunWrites_ungrouped hd (hlen d.payload List.mem_cons_self), ← List.map_append, ← List.filter_append,
      List.singleton_append]
  | @group delivered ds g pieces d hd hp hne hpay _ ih =>
    rw [List.flatMap_cons, List.map_append, ih fun p hmem ↦ hlen p (List.mem_append_right _ hmem),
      tunWrites_grouped hd hp hne hpay fun p hmem ↦ hlen p (List.mem_append_left _ hmem), ← List.map_append,
      ← List.filter_append]

/-- What a receiving thread writes for the messages `ds`, which come in batches. -/
inductive Reads (srcIdx : UInt32) : UdpReaderScratch → List Datagram → List TunWrite →
    UdpReaderScratch → Prop
  | done (sc : UdpReaderScratch) : Reads srcIdx sc [] [] sc
  | batch {sc sc' sc'' scEnd : UdpReaderScratch} {ds ds' : List Datagram} {t t' : ConnTable} {now : UInt64}
      {outs : List (List TunWrite)} {writes : List TunWrite} (hrecv : Recvmmsg sc ds sc')
      (hread : udpReader t srcIdx now sc' ds.length = some (t', sc'', outs))
      (hrest : Reads srcIdx sc'' ds' writes scEnd) : Reads srcIdx sc (ds ++ ds') (outs.flatten ++ writes) scEnd

theorem reads_writes {srcIdx : UInt32} {sc sc' : UdpReaderScratch} {ds : List Datagram} {writes : List TunWrite}
    (hsc : Ready sc) (h : Reads srcIdx sc ds writes sc') : writes = ds.flatMap tunWrites ∧ Ready sc' := by
  induction h with
  | done sc => exact ⟨rfl, hsc⟩
  | @batch sc sc' sc'' scEnd ds ds' t t' now outs writes hrecv hread _ ih =>
    obtain ⟨t₁, sc₁, hread₁, hready⟩ := udpReader_eq hsc hrecv t srcIdx now
    obtain ⟨-, he⟩ := Prod.mk.inj (Option.some.inj (hread.symm.trans hread₁))
    obtain ⟨rfl, rfl⟩ := Prod.mk.inj he
    obtain ⟨rfl, hend⟩ := ih hready
    exact ⟨by rw [List.flatMap_append, ← List.flatMap_def], hend⟩

/-- The tunnel is transparent: what comes out of it is what was delivered of the
packets that went in, each once, whole and in the order of delivery. -/
theorem tunnel_transparent {host : Host} {peers : PeerTable} {me : Fin peers.peers.length}
    {rcvBuf sndBuf : ℤ} {timeoutMs : UInt64} {t₀ t : ConnTable}
    (ht : ConnTable.create host peers me rcvBuf sndBuf timeoutMs = .ok t₀) {sent : List Send}
    {built : List (List UInt8)} (hsession : Session t₀ t sent built) {delivered : List (List UInt8)}
    (hnet : (delivered.filter (· ≠ [])).Subperm (sent.flatMap wire)) {ds : List Datagram}
    (hgro : Reported delivered ds) {srcIdx : UInt32} {sc sc' : UdpReaderScratch} (hrun : Run srcIdx sc)
    {writes : List TunWrite} (hreads : Reads srcIdx sc ds writes sc') :
    sent.flatMap wire = built ∧
    writes.map List.flatten = (delivered.filter (· ≠ [])).map withHeader ∧
    (delivered.filter (· ≠ [])).Subperm built ∧
    (∀ sc data pkts env, Accepted t sc data pkts → ∃ st' sent', tunReader ⟨t, sc⟩ env data = some (st', sent') ∧
      sent'.flatMap wire = pkts) ∧
    ∀ ds' sc'' t' now, Recvmmsg sc' ds' sc'' → (udpReader t' srcIdx now sc'' ds'.length).isSome := by
  obtain ⟨hroutes, hwire, hlen⟩ := session_wire (create_routes ht) hsession
  obtain ⟨hwrites, hready⟩ := reads_writes (run_ready hrun) hreads
  rw [hwire] at hnet
  have hpkt : ∀ p ∈ delivered, p ≠ [] → 20 ≤ p.length := by
    intro p hp hne
    exact hlen p (hnet.subset (List.mem_filter.mpr ⟨hp, by simpa using hne⟩))
  refine ⟨hwire, ?_, hnet, ?_, ?_⟩
  · rw [hwrites]
    exact reported_writes hgro hpkt
  · intro sc data pkts env ha
    obtain ⟨st', sent', hrun', -, hpkts⟩ := tunReader_wire hroutes ha env
    exact ⟨st', sent', hrun', hpkts⟩
  · intro ds' sc'' t' now hrecv
    obtain ⟨t'', sc₃, hread, -⟩ := udpReader_eq hready hrecv t' srcIdx now
    rw [hread]
    rfl

theorem inner_read_take (sc : Scratch) (data : List UInt8) :
    (sc.read data).inner.take (pktLen data) = (data.drop virtioNetHdrLen).take (pktLen data) := by
  apply List.ext_getElem? fun j ↦ ?_
  rw [List.getElem?_take, List.getElem?_take]
  split
  · rename_i hj
    exact inner_read sc hj
  · rfl

def plainPkt : List UInt8 := 0x45 :: List.replicate 15 0 ++ [10, 0, 0, 2]

theorem plainRead_accepted {t : ConnTable} (h : t.lookup 0x0a000002 ≠ none) (sc : Scratch) :
    Accepted t sc Routing.plainRead [plainPkt] := by
  have hdec : decodeVirtioNetHdr Routing.plainRead = some ⟨0, 0, 0, 0, 0, 0⟩ := rfl
  have hbuilt : Built (sc.read Routing.plainRead) (pktLen Routing.plainRead) ⟨0, 0, 0, 0, 0, 0⟩
      [(sc.read Routing.plainRead).inner.take (pktLen Routing.plainRead)] := .plain rfl rfl
  rw [inner_read_take] at hbuilt
  exact ⟨by decide, rfl, h, _, hdec, hbuilt⟩

/-- The segments carry two, two and one bytes. -/
theorem superRead_accepted {t : ConnTable} (h : t.lookup 0x0a000002 ≠ none) (sc : Scratch) :
    ∃ s₁ s₂ s₃ : List UInt8, Accepted t sc Routing.superRead [s₁, s₂, s₃] ∧ s₁.length = 42 ∧ s₂.length = 42 ∧
      s₃.length = 41 := by
  obtain ⟨sc', hsplit⟩ := Routing.superRead_split sc
  have hsuper := Routing.superRead_superPacket sc
  have hbuilt : Built (sc.read Routing.superRead) (pktLen Routing.superRead) Segmentation.sampleHdr
      [segmentAt sc' 0, segmentAt sc' 1, segmentAt sc' 2] := .super hsuper hsplit (by decide)
  have hlen (j : ℕ) (hj : j < 3) := length_segmentAt hsuper hsplit (by decide) hj
  exact ⟨_, _, _, ⟨by decide, rfl, h, _, Routing.superRead_hdr, hbuilt⟩, hlen 0 (by decide), hlen 1 (by decide),
    hlen 2 (by decide)⟩

def probe : Datagram := shortMessage 0

/-- A control message with the GRO size `g`. -/
def groControl (g : UInt8) : List UInt8 := [20, 0, 0, 0, 0, 0, 0, 0, 17, 0, 0, 0, 104, 0, 0, 0, g, 0, 0, 0]

/-- Two packets of 20 bytes, as one message with a GRO size. -/
def twoPackets : Datagram where
  addr := .inet 7000 0
  payload := plainPkt ++ plainPkt
  control := groControl 20
  controllen := 24
  payload_le := by decide
  control_le := by decide
  controllen_le := by decide
  whole _ := by decide
  gro _ _ := by decide

/-- The segments of a super-packet, as one message. -/
def threeSegments {s₁ s₂ s₃ : List UInt8} (h₁ : s₁.length = 42) (h₂ : s₂.length = 42) (h₃ : s₃.length = 41) :
    Datagram where
  addr := .inet 7000 0
  payload := [s₁, s₂, s₃].flatten
  control := groControl 42
  controllen := 24
  payload_le := by
    simp only [List.flatten_cons, List.flatten_nil, List.length_append, h₁, h₂, h₃, List.length_nil]
    decide
  control_le := by decide
  controllen_le := by decide
  whole _ := by decide
  gro _ _ := by decide

/-- Two packets and the segments of a super-packet come out of the tunnel, behind
a probe and in two messages. -/
theorem tunnel_transparent_group : ∃ t₀ t sent sc sc' d writes s₁ s₂ s₃,
    ConnTable.create SlotKeys.sampleHost SlotKeys.threeHosts ⟨0, by decide⟩ 0 0 1000 = .ok t₀ ∧
    Session t₀ t sent [plainPkt, plainPkt, s₁, s₂, s₃] ∧ Run 0 sc ∧ Reads 0 sc [probe, d, twoPackets] writes sc' ∧
    writes.map List.flatten = [s₁, s₂, s₃, plainPkt, plainPkt].map withHeader := by
  obtain ⟨t₀, ht, hk⟩ : ∃ t₀, ConnTable.create SlotKeys.sampleHost SlotKeys.threeHosts ⟨0, by decide⟩ 0 0 1000 =
      .ok t₀ ∧ t₀.lookup 0x0a000002 = some 0 := ⟨_, rfl, rfl⟩
  have hroutes := create_routes ht
  have ha₁ := plainRead_accepted (hk ▸ Option.some_ne_none 0) Mtu.packetScratch
  obtain ⟨st₁, sent₁, hrun₁, hshape₁, hwire₁⟩ := tunReader_wire hroutes ha₁ ⟨0, fun _ _ ↦ 0⟩
  have hk₁ : st₁.conns.lookup 0x0a000002 = some 0 := by
    rw [← hk, ConnTable.lookup, ConnTable.lookup, hshape₁.byVip]
  have hroutes₁ := hroutes.of_sameShape hshape₁
  have ha₂ := plainRead_accepted (hk₁ ▸ Option.some_ne_none 0) st₁.sc
  obtain ⟨st₂, sent₂, hrun₂, hshape₂, hwire₂⟩ := tunReader_wire hroutes₁ ha₂ ⟨5, fun _ _ ↦ 0⟩
  have hk₂ : st₂.conns.lookup 0x0a000002 = some 0 := by
    rw [← hk₁, ConnTable.lookup, ConnTable.lookup, hshape₂.byVip]
  obtain ⟨s₁, s₂, s₃, ha₃, h₁, h₂, h₃⟩ := superRead_accepted (hk₂ ▸ Option.some_ne_none 0) st₂.sc
  obtain ⟨st₃, sent₃, hrun₃, -, hwire₃⟩ := tunReader_wire (hroutes₁.of_sameShape hshape₂) ha₃ ⟨7, fun _ _ ↦ 0⟩
  have hsession : Session t₀ st₃.conns ((([] ++ sent₁) ++ sent₂) ++ sent₃)
      ((([] ++ [plainPkt]) ++ [plainPkt]) ++ [s₁, s₂, s₃]) :=
    .read (.read (.read .start ha₁ hrun₁) ha₂ hrun₂) ha₃ hrun₃
  obtain ⟨sc, hstart⟩ := start_any fun _ ↦ ones
  have hrun : Run 0 sc := .start hstart
  obtain ⟨sc', hrecv⟩ := recvmmsg_any (run_ready hrun)
    (show [probe, threeSegments h₁ h₂ h₃, twoPackets].length ≤ batch from show 3 ≤ batch by decide)
  obtain ⟨t', sc'', hread, -⟩ := udpReader_eq (run_ready hrun) hrecv noConns 0 0
  have hreads : Reads 0 sc [probe, threeSegments h₁ h₂ h₃, twoPackets] _ sc'' := .batch hrecv hread (.done sc'')
  have hgroup : Grouped (threeSegments h₁ h₂ h₃) 42 :=
    ⟨show cmsgHdrLen ≤ 24 by decide, show IsGro (groControl 42) by decide, rfl⟩
  have hsegs : Pieces 42 [s₁, s₂, s₃] :=
    .cons h₁ (List.cons_ne_nil _ _) (.cons h₂ (List.cons_ne_nil _ _) (.last (by omega) (by omega)))
  have hpair : Pieces 20 [plainPkt, plainPkt] := .cons rfl (by decide) (.last (by decide) (by decide))
  have hgro : Reported ([] :: ([s₁, s₂, s₃] ++ ([plainPkt, plainPkt] ++ [])))
      [probe, threeSegments h₁ h₂ h₃, twoPackets] :=
    .single probe (fun h ↦ absurd h (by decide)) <| .group (threeSegments h₁ h₂ h₃) hgroup hsegs
      (List.cons_ne_nil _ _) rfl (.group twoPackets ⟨by decide, by decide, by decide⟩ hpair (by decide) rfl .nil)
  have hfull {s : List UInt8} {n : ℕ} (h : s.length = n + 1) : s ≠ [] := List.length_pos_iff.mp (by omega)
  have hfilter : ([] :: ([s₁, s₂, s₃] ++ ([plainPkt, plainPkt] ++ []))).filter (· ≠ []) =
      [s₁, s₂, s₃] ++ [plainPkt, plainPkt] := by
    simp [hfull h₁, hfull h₂, hfull h₃, plainPkt]
  have hnet : (([] :: ([s₁, s₂, s₃] ++ ([plainPkt, plainPkt] ++ []))).filter (· ≠ [])).Subperm
      (((([] ++ sent₁) ++ sent₂) ++ sent₃).flatMap wire) := by
    rw [hfilter, List.nil_append, List.flatMap_append, List.flatMap_append, hwire₁, hwire₂, hwire₃]
    exact (@List.perm_append_comm _ [s₁, s₂, s₃] _).subperm
  obtain ⟨-, hwrites, -⟩ := tunnel_transparent ht hsession hnet hgro hrun hreads
  rw [hfilter] at hwrites
  exact ⟨t₀, _, _, sc, sc'', _, _, s₁, s₂, s₃, ht, hsession, hrun, hreads, hwrites⟩

end Gofra.Tunnel
