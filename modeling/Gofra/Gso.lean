import Gofra.Csum
import Gofra.Lib.Buffer

namespace Gofra.Gso

open Lib.Buffer Csum

structure VirtioNetHdr where
  flags : UInt8
  gsoType : UInt8
  hdrLen : UInt16
  gsoSize : UInt16
  csumStart : UInt16
  csumOffset : UInt16
  deriving DecidableEq, Repr

def virtioNetHdrLen : ℕ := 10

def virtioNetHdrFNeedsCsum : UInt8 := 0x01

def virtioNetHdrGsoNone : UInt8 := 0x00

def virtioNetHdrGsoTcpv4 : UInt8 := 0x01

def ipv4SrcAddrOffset : ℕ := 12

def ipv4AddrLen : ℕ := 4

def tcpFlagsOffset : ℕ := 13

def tcpFlagFin : UInt8 := 0x01

def tcpFlagPsh : UInt8 := 0x08

def ipprotoTcpV : UInt8 := 6

def be16Bytes (v : UInt16) : List UInt8 := [(v >>> 8).toUInt8, v.toUInt8]

def be32Bytes (v : UInt32) : List UInt8 :=
  [(v >>> 24).toUInt8, (v >>> 16).toUInt8, (v >>> 8).toUInt8, v.toUInt8]

def putBE16 (p : List UInt8) (off : ℕ) (v : UInt16) : Option (List UInt8) :=
  store p off (be16Bytes v)

def putBE32 (p : List UInt8) (off : ℕ) (v : UInt32) : Option (List UInt8) :=
  store p off (be32Bytes v)

def be16 (b₀ b₁ : UInt8) : UInt16 := (b₀.toUInt16 <<< 8) ||| b₁.toUInt16

def be32 (b₀ b₁ b₂ b₃ : UInt8) : UInt32 :=
  (b₀.toUInt32 <<< 24) ||| (b₁.toUInt32 <<< 16) ||| (b₂.toUInt32 <<< 8) ||| b₃.toUInt32

def getBE16 (p : List UInt8) (off : ℕ) : Option UInt16 := do
  return be16 (← p[off]?) (← p[off + 1]?)

def getBE32 (p : List UInt8) (off : ℕ) : Option UInt32 := do
  return be32 (← p[off]?) (← p[off + 1]?) (← p[off + 2]?) (← p[off + 3]?)

def be16At (p : List UInt8) (off : ℕ) : UInt16 := be16 (p.getD off 0) (p.getD (off + 1) 0)

def be32At (p : List UInt8) (off : ℕ) : UInt32 :=
  be32 (p.getD off 0) (p.getD (off + 1) 0) (p.getD (off + 2) 0) (p.getD (off + 3) 0)

theorem getBE16_eq {p : List UInt8} {off : ℕ} (h : off + 2 ≤ p.length) :
    getBE16 p off = some (be16At p off) := by
  have h₀ : p[off]? = some (p.getD off 0) := by simp [show off < p.length by omega]
  have h₁ : p[off + 1]? = some (p.getD (off + 1) 0) := by simp [show off + 1 < p.length by omega]
  simp only [getBE16, h₀, h₁]
  rfl

theorem getBE32_eq {p : List UInt8} {off : ℕ} (h : off + 4 ≤ p.length) :
    getBE32 p off = some (be32At p off) := by
  have h₀ : p[off]? = some (p.getD off 0) := by simp [show off < p.length by omega]
  have h₁ : p[off + 1]? = some (p.getD (off + 1) 0) := by simp [show off + 1 < p.length by omega]
  have h₂ : p[off + 2]? = some (p.getD (off + 2) 0) := by simp [show off + 2 < p.length by omega]
  have h₃ : p[off + 3]? = some (p.getD (off + 3) 0) := by simp [show off + 3 < p.length by omega]
  simp only [getBE32, h₀, h₁, h₂, h₃]
  rfl

theorem be16At_append_left {a : List UInt8} {off : ℕ} (h : off + 2 ≤ a.length) (r : List UInt8) :
    be16At (a ++ r) off = be16At a off := by
  simp only [be16At, List.getD_eq_getElem?_getD, List.getElem?_append_left (show off < a.length by omega),
    List.getElem?_append_left (show off + 1 < a.length by omega)]

theorem be16At_congr {p q : List UInt8} {off off' : ℕ} (h₀ : p[off]? = q[off']?)
    (h₁ : p[off + 1]? = q[off' + 1]?) : be16At p off = be16At q off' := by
  simp only [be16At, List.getD_eq_getElem?_getD, h₀, h₁]

theorem be32At_congr {p q : List UInt8} {off off' : ℕ}
    (h : ∀ k < 4, p[off + k]? = q[off' + k]?) : be32At p off = be32At q off' := by
  have h₀ := h 0 (by omega)
  simp only [Nat.add_zero] at h₀
  simp only [be32At, List.getD_eq_getElem?_getD, h₀, h 1 (by omega), h 2 (by omega), h 3 (by omega)]

theorem toNat_be16 (a b : UInt8) : (be16 a b).toNat = 256 * a.toNat + b.toNat := by
  have ha := a.toNat_lt
  have hb := b.toNat_lt
  have hs : a.toNat <<< 8 % 2 ^ 16 = 2 ^ 8 * a.toNat := by
    rw [Nat.shiftLeft_eq]
    omega
  simp only [be16, UInt16.toNat_or, UInt16.toNat_shiftLeft, UInt8.toNat_toUInt16]
  rw [show (8 : UInt16).toNat % 16 = 8 from rfl, hs, ← Nat.two_pow_add_eq_or_of_lt hb]

theorem be16_bytes (v : UInt16) : be16 (v >>> 8).toUInt8 v.toUInt8 = v := by
  have hv := v.toNat_lt
  apply UInt16.toNat_inj.mp
  rw [toNat_be16]
  simp only [UInt16.toNat_toUInt8, UInt16.toNat_shiftRight, Nat.shiftRight_eq_div_pow]
  rw [show (8 : UInt16).toNat % 16 = 8 from rfl]
  omega

theorem toNat_be32 (a b c d : UInt8) : (be32 a b c d).toNat =
    2 ^ 24 * a.toNat + 2 ^ 16 * b.toNat + 2 ^ 8 * c.toNat + d.toNat := by
  have ha := a.toNat_lt
  have hb := b.toNat_lt
  have hc := c.toNat_lt
  have hd := d.toNat_lt
  have h₁ : a.toNat * 2 ^ 24 ||| b.toNat * 2 ^ 16 = 2 ^ 16 * (2 ^ 8 * a.toNat + b.toNat) := by
    have h := Nat.two_pow_add_eq_or_of_lt (show b.toNat * 2 ^ 16 < 2 ^ 24 by omega) a.toNat
    rw [Nat.mul_comm a.toNat, ← h]
    omega
  have h₂ : 2 ^ 16 * (2 ^ 8 * a.toNat + b.toNat) ||| c.toNat * 2 ^ 8 =
      2 ^ 8 * (2 ^ 8 * (2 ^ 8 * a.toNat + b.toNat) + c.toNat) := by
    rw [← Nat.two_pow_add_eq_or_of_lt (by omega)]
    omega
  simp only [be32, UInt32.toNat_or, UInt32.toNat_shiftLeft, UInt8.toNat_toUInt32,
    Nat.shiftLeft_eq]
  rw [show (24 : UInt32).toNat % 32 = 24 from rfl, show (16 : UInt32).toNat % 32 = 16 from rfl,
    show (8 : UInt32).toNat % 32 = 8 from rfl, Nat.mod_eq_of_lt (by omega),
    Nat.mod_eq_of_lt (by omega), Nat.mod_eq_of_lt (by omega), h₁, h₂,
    ← Nat.two_pow_add_eq_or_of_lt (by omega)]
  omega

theorem be32_bytes (v : UInt32) :
    be32 (v >>> 24).toUInt8 (v >>> 16).toUInt8 (v >>> 8).toUInt8 v.toUInt8 = v := by
  have hv := v.toNat_lt
  apply UInt32.toNat_inj.mp
  rw [toNat_be32]
  simp only [UInt32.toNat_toUInt8, UInt32.toNat_shiftRight, Nat.shiftRight_eq_div_pow]
  rw [show (24 : UInt32).toNat % 32 = 24 from rfl, show (16 : UInt32).toNat % 32 = 16 from rfl,
    show (8 : UInt32).toNat % 32 = 8 from rfl]
  omega

theorem be16At_be16Bytes {p : List UInt8} {off : ℕ} (v : UInt16) (h : off + 2 ≤ p.length) :
    be16At (patch p off (be16Bytes v)) off = v := by
  have hl : off + (be16Bytes v).length ≤ p.length := h
  have h₀ := getElem?_patch_add hl (show 0 < 2 by decide)
  have h₁ := getElem?_patch_add hl (show 1 < 2 by decide)
  rw [Nat.add_zero] at h₀
  simp only [be16At, List.getD_eq_getElem?_getD, h₀, h₁]
  exact be16_bytes v

theorem be16Bytes_be16 (a b : UInt8) : be16Bytes (be16 a b) = [a, b] := by
  have ha := a.toNat_lt
  have hb := b.toNat_lt
  have hhi : (be16 a b >>> 8).toUInt8 = a := by
    apply UInt8.toNat_inj.mp
    rw [UInt16.toNat_toUInt8, UInt16.toNat_shiftRight, toNat_be16, Nat.shiftRight_eq_div_pow,
      show (8 : UInt16).toNat % 16 = 8 from rfl]
    omega
  have hlo : (be16 a b).toUInt8 = b := by
    apply UInt8.toNat_inj.mp
    rw [UInt16.toNat_toUInt8, toNat_be16]
    omega
  rw [be16Bytes, hhi, hlo]

theorem be32Bytes_be32 (a b c d : UInt8) : be32Bytes (be32 a b c d) = [a, b, c, d] := by
  have ha := a.toNat_lt
  have hb := b.toNat_lt
  have hc := c.toNat_lt
  have hd := d.toNat_lt
  have hbyte {s : UInt32} {x : UInt8} (h : (be32 a b c d).toNat / 2 ^ (s.toNat % 32) % 256 = x.toNat) :
      (be32 a b c d >>> s).toUInt8 = x := by
    apply UInt8.toNat_inj.mp
    rw [UInt32.toNat_toUInt8, UInt32.toNat_shiftRight, Nat.shiftRight_eq_div_pow]
    exact h
  have hlast : (be32 a b c d).toUInt8 = d := by
    apply UInt8.toNat_inj.mp
    rw [UInt32.toNat_toUInt8, toNat_be32]
    omega
  have h24 : (24 : UInt32).toNat % 32 = 24 := rfl
  have h16 : (16 : UInt32).toNat % 32 = 16 := rfl
  have h8 : (8 : UInt32).toNat % 32 = 8 := rfl
  rw [be32Bytes, hlast, @hbyte 24 a (by rw [h24, toNat_be32]; omega),
    @hbyte 16 b (by rw [h16, toNat_be32]; omega), @hbyte 8 c (by rw [h8, toNat_be32]; omega)]

theorem be32At_be32Bytes {p : List UInt8} {off : ℕ} (v : UInt32) (h : off + 4 ≤ p.length) :
    be32At (patch p off (be32Bytes v)) off = v := by
  have hl : off + (be32Bytes v).length ≤ p.length := h
  have h₀ := getElem?_patch_add hl (show 0 < 4 by decide)
  rw [Nat.add_zero] at h₀
  simp only [be32At, List.getD_eq_getElem?_getD, h₀, getElem?_patch_add hl (show 1 < 4 by decide),
    getElem?_patch_add hl (show 2 < 4 by decide), getElem?_patch_add hl (show 3 < 4 by decide)]
  exact be32_bytes v

/-- Subtraction of `size_t` values. -/
def subSize (a b : ℕ) : ℕ := (a + 2 ^ 64 - b) % 2 ^ 64

theorem subSize_eq {a b : ℕ} (h : b ≤ a) (ha : a < 2 ^ 64) : subSize a b = a - b := by
  unfold subSize
  omega

def decodeVirtioNetHdr (data : List UInt8) : Option VirtioNetHdr :=
  match data with
  | flags :: gsoType :: h₀ :: h₁ :: g₀ :: g₁ :: s₀ :: s₁ :: o₀ :: o₁ :: _ =>
    -- native byte order, despite the name
    some ⟨flags, gsoType, be16 h₁ h₀, be16 g₁ g₀, be16 s₁ s₀, be16 o₁ o₀⟩
  | _ => none

def zeroVirtioNetHdr (data : List UInt8) : Option (List UInt8) :=
  store data 0 (List.replicate virtioNetHdrLen 0)

/-- Every function on buffers returns `none` where the source would touch an
index outside the buffer it was given. -/
def gsoNoneChecksum (pkt : List UInt8) (pktLen : ℕ) (csumStart csumOffset : UInt16) :
    Option (List UInt8) := do
  let csumAt := csumStart.toNat + csumOffset.toNat
  -- the kernel parked the pseudo-header sum at `csumOffset`
  let initial ← getBE16 pkt csumAt
  let pkt ← store pkt csumAt [0]
  let pkt ← store pkt (csumAt + 1) [0]
  let l4 ← slice pkt csumStart.toNat (subSize pktLen csumStart.toNat)
  putBE16 pkt csumAt (~~~checksum l4 initial.toUInt64)

/-- The IPv4 id counts up from the second segment on. -/
def bumpId (i : ℕ) (out : List UInt8) : Option (List UInt8) :=
  if 0 < i then do
    let id ← getBE16 out 4
    putBE16 out 4 (id + UInt16.ofNat i)
  else some out

/-- FIN and PSH stay on the last segment only. -/
def clearFinPsh (iphLen nextEnd inLen : ℕ) (out : List UInt8) : Option (List UInt8) :=
  if nextEnd ≠ inLen then do
    let flags ← out[iphLen + tcpFlagsOffset]?
    store out (iphLen + tcpFlagsOffset) [flags &&& ~~~(tcpFlagFin ||| tcpFlagPsh)]
  else some out

/-- The first half of the loop body of `gsoSplit`: the IPv4 header of segment `i`. -/
def writeIpv4Header (inp : List UInt8) (hdr : VirtioNetHdr) (i totalLen : ℕ)
    (out : List UInt8) : Option (List UInt8) := do
  let iphLen := hdr.csumStart.toNat
  let out ← store out 0 (← slice inp 0 iphLen)
  let out ← bumpId i out
  let out ← putBE16 out 2 (UInt16.ofNat totalLen)
  let ipv4Csum := ~~~checksum (← slice out 0 iphLen) 0
  putBE16 out 10 ipv4Csum

/-- The second half: the TCP header and the payload of segment `i`. -/
def writeTransport (inp : List UInt8) (inLen : ℕ) (hdr : VirtioNetHdr) (firstTcpSeq : UInt32)
    (i nextDataAt nextEnd : ℕ) (out : List UInt8) : Option (List UInt8) := do
  let iphLen := hdr.csumStart.toNat
  let hdrTotal := hdr.hdrLen.toNat
  let segDataLen := nextEnd - nextDataAt
  let totalLen := hdrTotal + segDataLen
  let transportHdrLen := subSize hdrTotal iphLen
  let out ← store out iphLen (← slice inp iphLen transportHdrLen)
  let tcpSeq := firstTcpSeq + hdr.gsoSize.toUInt32 * UInt32.ofNat i
  let out ← putBE32 out (iphLen + 4) tcpSeq
  let out ← clearFinPsh iphLen nextEnd inLen out
  let out ← store out hdrTotal (← slice inp nextDataAt segDataLen)
  let lenForPseudo := UInt16.ofNat (transportHdrLen + segDataLen)
  let pseudo := pseudoHeaderChecksumNoFold ipprotoTcpV (← slice inp ipv4SrcAddrOffset ipv4AddrLen)
    (← slice inp (ipv4SrcAddrOffset + ipv4AddrLen) ipv4AddrLen) lenForPseudo
  let trCsum := ~~~checksum (← slice out iphLen (subSize totalLen iphLen)) pseudo
  putBE16 out (iphLen + hdr.csumOffset.toNat) trCsum

/-- The cast `(int)i` of a `size_t`. -/
def castInt (i : ℕ) : ℤ := Int.bmod i (2 ^ 32)

theorem castInt_of_lt {i : ℕ} (h : i < 2 ^ 31) : castInt i = i := by
  unfold castInt
  exact Int.bmod_eq_of_le (by omega) (by omega)

/-- What `gsoSplit` returns and leaves in the caller's memory. -/
structure Split where
  ret : ℤ
  inp : List UInt8
  outBufs : List (List UInt8)
  outSizes : List ℕ
  deriving DecidableEq

/-- The segmentation loop, with `room = maxSegs - i` segments still allowed. -/
def gsoLoop (inp : List UInt8) (inLen : ℕ) (hdr : VirtioNetHdr) (firstTcpSeq : UInt32) :
    (room i nextDataAt : ℕ) → List (List UInt8) → List ℕ → Option Split
  | 0, i, nextDataAt, outBufs, outSizes =>
    if nextDataAt < inLen then some ⟨-1, inp, outBufs, outSizes⟩
    else some ⟨castInt i, inp, outBufs, outSizes⟩
  | room + 1, i, nextDataAt, outBufs, outSizes =>
    if nextDataAt < inLen then do
      let nextEnd := min (nextDataAt + hdr.gsoSize.toNat) inLen
      let totalLen := hdr.hdrLen.toNat + (nextEnd - nextDataAt)
      let outSizes ← store outSizes i [totalLen]
      let out ← writeIpv4Header inp hdr i totalLen (← outBufs[i]?)
      let out ← writeTransport inp inLen hdr firstTcpSeq i nextDataAt nextEnd out
      gsoLoop inp inLen hdr firstTcpSeq room (i + 1) (nextDataAt + hdr.gsoSize.toNat)
        (outBufs.set i out) outSizes
    else some ⟨castInt i, inp, outBufs, outSizes⟩

def gsoSplit (inp : List UInt8) (inLen : ℕ) (hdr : VirtioNetHdr) (outBufs : List (List UInt8))
    (outSizes : List ℕ) (maxSegs : ℕ) : Option Split :=
  if hdr.gsoType ≠ virtioNetHdrGsoTcpv4 then some ⟨-1, inp, outBufs, outSizes⟩
  else do
    -- both checksum fields are zeroed in the input for a clean recompute
    let inp ← store inp 10 [0]
    let inp ← store inp 11 [0]
    let transportCsumAt := hdr.csumStart.toNat + hdr.csumOffset.toNat
    let inp ← store inp transportCsumAt [0]
    let inp ← store inp (transportCsumAt + 1) [0]
    let firstTcpSeq ← getBE32 inp (hdr.csumStart.toNat + 4)
    gsoLoop inp inLen hdr firstTcpSeq maxSegs 0 hdr.hdrLen.toNat outBufs outSizes

end Gofra.Gso
