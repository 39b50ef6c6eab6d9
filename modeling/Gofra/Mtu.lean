import Gofra.NumericStl
import Gofra.Segmentation
import Gofra.Settings
import Gofra.TunReader

namespace Gofra.Mtu

open Lib.Buffer Addr Gso GsoSplit Segmentation TunReader Settings NumericStl

variable {sc : Scratch} {inLen : ℕ} {hdr : VirtioNetHdr}

theorem split_isSome_iff (h : SuperPacket sc.inner inLen hdr) (hg : 1 ≤ hdr.gsoSize.toNat) :
    (sc.split inLen hdr).isSome ↔ inLen = hdr.hdrLen.toNat ∨
      hdr.hdrLen.toNat + min hdr.gsoSize.toNat (inLen - hdr.hdrLen.toNat) ≤ segSize := by
  have hs := h.splittable
  have hl := h.hdrLen_le
  have hroom : (sc.split inLen hdr).isSome ↔
      Room (splitSegment sc.inner inLen hdr) 0 (written inLen hdr maxSegs) sc.segBufs sc.segSizes := by
    rw [Scratch.split, Option.isSome_pmap, Option.isSome_iff_exists]
    constructor
    · rintro ⟨r, hr⟩
      exact ((gsoSplit_iff hs hg _ _ _ _).mp hr).1
    · intro hroom
      exact ⟨_, (gsoSplit_iff hs hg _ _ _ _).mpr ⟨hroom, rfl⟩⟩
  have hpos : 0 < written inLen hdr maxSegs ↔ hdr.hdrLen.toNat < inLen := by
    have hcount := @lt_segCount (inLen - hdr.hdrLen.toNat) _ 0 hg
    have hmax : 0 < maxSegs := by decide
    rw [written]
    omega
  rw [hroom]
  constructor
  · rintro ⟨-, hbufs⟩
    by_cases hlt : hdr.hdrLen.toNat < inLen
    · obtain ⟨b, hb, hfit⟩ := hbufs 0 le_rfl (by rw [Nat.zero_add]; exact hpos.mpr hlt)
      obtain ⟨b', hb', hsize⟩ := sc.segBuf (show 0 < maxSegs by decide)
      obtain rfl := Option.some.inj (hb.symm.trans hb')
      rw [length_splitSegment hs, hsize] at hfit
      right
      omega
    · left
      omega
  · intro hcond
    refine ⟨.inl ?_, fun j _ hj ↦ ?_⟩
    · rw [sc.length_segSizes, written]
      omega
    · rw [Nat.zero_add] at hj
      obtain ⟨b, hb, hsize⟩ := sc.segBuf (show j < maxSegs by rw [written] at hj; omega)
      refine ⟨b, hb, ?_⟩
      have hlt := hpos.mp (by omega)
      rw [length_splitSegment hs, hsize]
      omega

/-- A super-packet that a TUN device of the given MTU can hand over. -/
structure Deliverable (mtu : ℤ) (inp : List UInt8) (inLen : ℕ) (hdr : VirtioNetHdr) : Prop
    extends SuperPacket inp inLen hdr where
  gsoSize : 1 ≤ hdr.gsoSize.toNat
  segment_le : (hdr.hdrLen.toNat + hdr.gsoSize.toNat : ℤ) ≤ mtu

/-- No deliverable packet makes `gsoSplit` write outside a segment buffer. -/
def ScratchSuffices (mtu : ℤ) : Prop :=
  ∀ (sc : Scratch) (inLen : ℕ) (hdr : VirtioNetHdr), Deliverable mtu sc.inner inLen hdr →
    (sc.split inLen hdr).isSome

/-- The first 33 bytes of a packet with 20 bytes of IPv4 and 20 bytes of TCP header. -/
def packetHead : List UInt8 := 0x45 :: List.replicate 31 0 ++ [0x50]

/-- A scratch that has read a packet with `packetHead`. -/
def packetScratch : Scratch where
  readBuf := List.replicate 10 0 ++ packetHead ++ List.replicate (readSize - 43) 0
  segBufs := List.replicate maxSegs (List.replicate segSize 0)
  segSizes := List.replicate maxSegs 0
  length_readBuf := by
    simp only [packetHead, List.length_append, List.length_cons, List.length_replicate, List.length_nil]
    decide
  segBufs_eq := by rw [List.map_replicate, List.length_replicate]
  length_segSizes := List.length_replicate

theorem packetScratch_inner : packetScratch.inner = packetHead ++ List.replicate (readSize - 43) 0 := by
  change (List.replicate 10 0 ++ packetHead ++ List.replicate (readSize - 43) 0).drop 10 = _
  rw [List.append_assoc, List.drop_left' (List.length_replicate)]

theorem packetScratch_tcpHdrLen : tcpHdrLen packetScratch.inner 20 = 20 := by
  rw [packetScratch_inner, tcpHdrLen, List.getD_eq_getElem?_getD, List.getElem?_append_left (by decide)]
  decide

/-- A packet of one segment that fills the MTU. -/
def fullHdr (gsoSize : UInt16) : VirtioNetHdr :=
  { flags := 1, gsoType := 1, hdrLen := 40, gsoSize, csumStart := 20, csumOffset := 16 }

theorem packetScratch_deliverable {mtu : ℤ} {gsoSize : UInt16} (hg : 1 ≤ gsoSize.toNat)
    (hle : 40 + gsoSize.toNat ≤ 65535) (hmtu : (40 + gsoSize.toNat : ℤ) ≤ mtu) :
    Deliverable mtu packetScratch.inner (40 + gsoSize.toNat) (fullHdr gsoSize) where
  gsoType := rfl
  csumStart := by
    rw [packetScratch_inner]
    rfl
  iphLen := le_refl 20
  tcpLen := packetScratch_tcpHdrLen.ge
  hdrLen := congrArg (20 + ·) packetScratch_tcpHdrLen.symm
  hdrLen_le := Nat.le_add_right 40 _
  inLen_le := hle
  buffer := by
    have hread : readSize = 65673 := rfl
    simp only [packetScratch_inner, packetHead, List.length_append, List.length_cons,
      List.length_replicate, List.length_nil]
    omega
  csumOffset := rfl
  gsoSize := hg
  segment_le := hmtu

theorem scratchSuffices_iff (mtu : ℤ) : ScratchSuffices mtu ↔ mtu ≤ segSize := by
  constructor
  · intro h
    by_contra hlt
    have hsize : (2009 : UInt16).toNat = 2009 := rfl
    have hseg : segSize = 2048 := rfl
    have hd : Deliverable mtu packetScratch.inner (40 + 2009) (fullHdr 2009) :=
      @packetScratch_deliverable mtu 2009 (by decide) (by decide) (by omega)
    have hfit := (split_isSome_iff hd.toSuperPacket hd.gsoSize).mp (h _ _ _ hd)
    have hh : (fullHdr 2009).hdrLen.toNat = 40 := rfl
    have hg : (fullHdr 2009).gsoSize.toNat = 2009 := rfl
    omega
  · intro h sc inLen hdr hd
    have hle := hd.segment_le
    refine (split_isSome_iff hd.toSuperPacket hd.gsoSize).mpr (.inr ?_)
    omega

def askedMtu (stl : Stl) (text : Str) : Option ℤ := do
  let ini ← (Ini.parseConfig stl text).toOption
  let sec ← ini.lookup (str "me")
  (sec.map.lookup (str "tun_mtu")).bind fun v ↦ (stl.stou v).toOption.map toInt

/-- `tun_mtu` is used as it is written, and not checked. -/
theorem loadConfig_tunMtu {stl : Stl} {text : Str} {cfg : Settings.Config}
    (h : loadConfig stl text = .ok cfg) : cfg.tunMtu = (askedMtu stl text).getD 1400 := by
  obtain ⟨ini, me, hini, hme, hl⟩ := loadConfig_loaded h
  rw [setting_eq_ok hl.tunMtu, askedMtu, hini]
  simp [Except.toOption, hme]

theorem accepted_scratchSuffices_iff {stl : Stl} {text : Str} {cfg : Settings.Config}
    (h : loadConfig stl text = .ok cfg) :
    (ScratchSuffices cfg.tunMtu ↔ (askedMtu stl text).getD 1400 ≤ 2048) ∧
    ∀ (sc : Scratch) (inLen : ℕ) (hdr : VirtioNetHdr), Deliverable cfg.tunMtu sc.inner inLen hdr →
      ((sc.split inLen hdr).isSome ↔ inLen = hdr.hdrLen.toNat ∨
        hdr.hdrLen.toNat + min hdr.gsoSize.toNat (inLen - hdr.hdrLen.toNat) ≤ 2048) := by
  refine ⟨?_, fun sc inLen hdr hd ↦ split_isSome_iff hd.toSuperPacket hd.gsoSize⟩
  rw [loadConfig_tunMtu h]
  exact scratchSuffices_iff _

def jumboText : Str := str "[me]\nvip = 10.0.0.1/24\ntun_mtu = 9000\n[peers]\n10.0.0.1 = 192.0.2.1:7000\n"

theorem jumboText_accepted : ∃ cfg, loadConfig numericStl jumboText = .ok cfg ∧ cfg.tunMtu = 9000 := by
  have hrun : (loadConfig numericStl jumboText).toOption.any (fun cfg ↦ cfg.tunMtu = 9000) = true := by
    decide +kernel
  obtain ⟨cfg, hcfg, hmtu⟩ := ok_of_any hrun
  exact ⟨cfg, hcfg, of_decide_eq_true hmtu⟩

theorem jumbo_segment_overflows : ∃ cfg, loadConfig numericStl jumboText = .ok cfg ∧
    Deliverable cfg.tunMtu packetScratch.inner 9000 (fullHdr 8960) ∧
      packetScratch.split 9000 (fullHdr 8960) = none := by
  obtain ⟨cfg, hcfg, hmtu⟩ := jumboText_accepted
  have hd : Deliverable cfg.tunMtu packetScratch.inner 9000 (fullHdr 8960) :=
    @packetScratch_deliverable _ 8960 (by decide) (by decide) (by rw [hmtu]; decide)
  refine ⟨cfg, hcfg, hd, Option.not_isSome_iff_eq_none.mp ?_⟩
  rw [split_isSome_iff hd.toSuperPacket hd.gsoSize]
  decide

theorem accepted_scratchSuffices_iff_jumbo : ∃ cfg, loadConfig numericStl jumboText = .ok cfg ∧
    ¬ ScratchSuffices cfg.tunMtu := by
  obtain ⟨cfg, hcfg, hmtu⟩ := jumboText_accepted
  refine ⟨cfg, hcfg, (accepted_scratchSuffices_iff hcfg).1.not.mpr ?_⟩
  rw [← loadConfig_tunMtu hcfg, hmtu]
  decide

end Gofra.Mtu
