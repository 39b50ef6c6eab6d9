import Mathlib.Data.Fintype.Basic
import Gofra.NumericStl
import Gofra.Settings

namespace Gofra.NumericSettings

open Addr Ini Settings NumericStl

/-- The `useconds_t` that `prober` sleeps for after each round. -/
def proberSleep (intervalMs : UInt64) : UInt32 := (intervalMs * 1000).toUInt32

/-- The seconds that `slotsStats` sleeps for. -/
def slotsStatsSleep (intervalSec : UInt64) : UInt32 := intervalSec.toUInt32

inductive Numeric where
  | vipPrefix | tunMtu | recvBuf | sendBuf | intervalMs | timeoutMs | statsIntervalS
  deriving DecidableEq

instance : Fintype Numeric where
  elems := {.vipPrefix, .tunMtu, .recvBuf, .sendBuf, .intervalMs, .timeoutMs, .statsIntervalS}
  complete s := by cases s <;> decide

def entry (ini : Ini.Config) (sec key : String) : Option Str :=
  (ini.lookup (str sec)).bind fun sec ↦ sec.map.lookup (str key)

def found (stl : Stl) (ini : Ini.Config) : Numeric → Option Str
  | .vipPrefix => (entry ini "me" "vip").bind fun vip ↦ (stl.split 47 vip).map Prod.snd
  | .tunMtu => entry ini "me" "tun_mtu"
  | .recvBuf => entry ini "udp" "recv_buf"
  | .sendBuf => entry ini "udp" "send_buf"
  | .intervalMs => entry ini "probe" "interval_ms"
  | .timeoutMs => entry ini "probe" "timeout_ms"
  | .statsIntervalS => entry ini "probe" "stats_interval_s"

/-- What the text has for a setting, if it has anything. -/
def written (stl : Stl) (text : Str) (s : Numeric) : Option Str :=
  (parseConfig stl text).toOption.bind fun ini ↦ found stl ini s

/-- The value that the program works with. -/
def used (cfg : Settings.Config) : Numeric → ℤ
  | .vipPrefix => cfg.tunPrefixLen.toNat
  | .tunMtu => cfg.tunMtu
  | .recvBuf => cfg.udpRecvBuf
  | .sendBuf => cfg.udpSendBuf
  | .intervalMs => (proberSleep cfg.probeIntervalMs).toNat
  | .timeoutMs => cfg.probeTimeoutMs.toNat
  | .statsIntervalS => (slotsStatsSleep cfg.statsIntervalSec).toNat

/-- The value that a written number stands for, in the units of `used`. -/
def meant : Numeric → ℕ → ℕ
  | .intervalMs, n => n * 1000
  | _, n => n

/-- Numbers that the types on the way have room for; a prefix is one of an IPv4
address. -/
def InRange : Numeric → ℕ → Prop
  | .vipPrefix, n => n ≤ 32
  | .tunMtu, n | .recvBuf, n | .sendBuf, n => n < 2 ^ 31
  | .intervalMs, n => n * 1000 < 2 ^ 32
  | .timeoutMs, _ => True
  | .statsIntervalS, n => n < 2 ^ 32

instance : (s : Numeric) → (n : ℕ) → Decidable (InRange s n)
  | .vipPrefix, n => inferInstanceAs (Decidable (n ≤ 32))
  | .tunMtu, n | .recvBuf, n | .sendBuf, n => inferInstanceAs (Decidable (n < 2 ^ 31))
  | .intervalMs, n => inferInstanceAs (Decidable (n * 1000 < 2 ^ 32))
  | .timeoutMs, _ => inferInstanceAs (Decidable True)
  | .statsIntervalS, n => inferInstanceAs (Decidable (n < 2 ^ 32))

/-- Every written number is in use, and the prefix is one of an IPv4 address. -/
structure Unaltered (stl : Stl) (text : Str) (cfg : Settings.Config) : Prop where
  used_eq : ∀ s v n, written stl text s = some v → decimal v = some n → used cfg s = meant s n
  prefix_le : cfg.tunPrefixLen.toNat ≤ 32

/-- The casts that a number goes through. -/
def cast : Numeric → UInt64 → ℤ
  | .vipPrefix, v => v.toUInt8.toNat
  | .tunMtu, v | .recvBuf, v | .sendBuf, v => toInt v
  | .intervalMs, v => (proberSleep v).toNat
  | .timeoutMs, v => v.toNat
  | .statsIntervalS, v => (slotsStatsSleep v).toNat

theorem toInt_eq_iff (v : UInt64) : toInt v = v.toNat ↔ v.toNat < 2 ^ 31 := by
  have hv := v.toNat_lt
  unfold toInt
  constructor
  · intro h
    have hlt := @Int.bmod_lt v.toNat (2 ^ 32) (Nat.two_pow_pos 32)
    omega
  · intro h
    exact Int.bmod_eq_of_le (by omega) (by omega)

theorem toNat_proberSleep (v : UInt64) : (proberSleep v).toNat = v.toNat * 1000 % 2 ^ 32 := by
  rw [proberSleep, UInt64.toNat_toUInt32, UInt64.toNat_mul]
  exact Nat.mod_mod_of_dvd _ (by decide)

theorem cast_eq_iff (s : Numeric) {n : ℕ} (hn : n < 2 ^ 64) :
    (cast s (UInt64.ofNat n) = meant s n ∧ (s = .vipPrefix → cast s (UInt64.ofNat n) ≤ 32)) ↔ InRange s n := by
  have hof : (UInt64.ofNat n).toNat = n := UInt64.toNat_ofNat_of_lt' hn
  have hint := toInt_eq_iff (UInt64.ofNat n)
  rw [hof] at hint
  cases s with
  | vipPrefix =>
    simp only [cast, meant, InRange, UInt64.toNat_toUInt8, hof, true_implies]
    omega
  | tunMtu | recvBuf | sendBuf =>
    simp only [cast, meant, InRange, hint, reduceCtorEq, false_implies, and_true]
  | intervalMs =>
    simp only [cast, meant, InRange, toNat_proberSleep, hof, reduceCtorEq, false_implies, and_true]
    omega
  | timeoutMs => simp only [cast, meant, InRange, hof, reduceCtorEq, false_implies, and_true]
  | statsIntervalS =>
    simp only [cast, meant, InRange, slotsStatsSleep, UInt64.toNat_toUInt32, hof, reduceCtorEq,
      false_implies, and_true]
    omega

section Load

variable {stl : Stl} {text : Str} {cfg : Settings.Config}

theorem setting_of_written {α : Type} {sec : Option Section} {key v : Str} {cast : UInt64 → α} {dflt x : α}
    {n : UInt64} (h : setting stl sec key cast dflt = .ok x)
    (hv : (sec.bind fun sec ↦ sec.map.lookup key) = some v) (hn : stl.stou v = .ok n) : x = cast n := by
  rw [setting_eq_ok h, hv, Option.bind_some, hn]
  rfl

theorem written_eq {ini : Ini.Config} (h : parseConfig stl text = .ok ini) (s : Numeric) :
    written stl text s = found stl ini s := by
  rw [written, h]
  rfl

/-- What is in use is what was written, after its casts. -/
theorem used_eq_cast (h : loadConfig stl text = .ok cfg) {s : Numeric} {v : Str} {n : UInt64}
    (hv : written stl text s = some v) (hn : stl.stou v = .ok n) : used cfg s = cast s n := by
  obtain ⟨ini, me, hini, hme, hl⟩ := loadConfig_loaded h
  cases s with
  | vipPrefix =>
    obtain ⟨vip, hvip, hcidr⟩ := hl.cidr
    rw [written_eq hini, found, entry, hme, Option.bind_some, hvip, Option.bind_some] at hv
    obtain ⟨⟨before, after⟩, hsplit, rfl⟩ := Option.map_eq_some_iff.mp hv
    rw [parseCIDR, hsplit] at hcidr
    obtain ⟨addr, -, hcidr⟩ := bind_eq_ok hcidr
    obtain ⟨len, hlen, hcidr⟩ := bind_eq_ok hcidr
    obtain rfl := Except.ok.inj (hlen.symm.trans hn)
    have hlen : len.toUInt8 = cfg.tunPrefixLen := congrArg Prod.snd (Except.ok.inj hcidr)
    rw [used, cast, hlen]
  | tunMtu =>
    rw [written_eq hini, found, entry, hme] at hv
    exact setting_of_written hl.tunMtu hv hn
  | recvBuf =>
    rw [written_eq hini, found, entry] at hv
    exact setting_of_written hl.udpRecvBuf hv hn
  | sendBuf =>
    rw [written_eq hini, found, entry] at hv
    exact setting_of_written hl.udpSendBuf hv hn
  | intervalMs =>
    rw [written_eq hini, found, entry] at hv
    rw [used, cast, setting_of_written hl.probeIntervalMs hv hn, id]
  | timeoutMs =>
    rw [written_eq hini, found, entry] at hv
    rw [used, cast, setting_of_written hl.probeTimeoutMs hv hn, id]
  | statsIntervalS =>
    rw [written_eq hini, found, entry] at hv
    rw [used, cast, setting_of_written hl.statsIntervalSec hv hn, id]

theorem tunPrefixLen_of_unwritten (h : loadConfig stl text = .ok cfg)
    (hv : written stl text .vipPrefix = none) : cfg.tunPrefixLen = 32 := by
  obtain ⟨ini, me, hini, hme, hl⟩ := loadConfig_loaded h
  obtain ⟨vip, hvip, hcidr⟩ := hl.cidr
  rw [written_eq hini, found, entry, hme, Option.bind_some, hvip, Option.bind_some,
    Option.map_eq_none_iff] at hv
  rw [parseCIDR, hv] at hcidr
  obtain ⟨addr, -, hcidr⟩ := bind_eq_ok hcidr
  exact (congrArg Prod.snd (Except.ok.inj hcidr)).symm

/-- Numbers are in use as they are written exactly when all of them fit; nothing
on the way checks that. -/
theorem loadConfig_unaltered_iff (hstou : ∀ v n, decimal v = some n → n < 2 ^ 64 →
      stl.stou v = .ok (UInt64.ofNat n))
    (hnum : ∀ s v, written stl text s = some v → ∃ n < 2 ^ 64, decimal v = some n)
    (h : loadConfig stl text = .ok cfg) : Unaltered stl text cfg ↔
      ∀ s v n, written stl text s = some v → decimal v = some n → InRange s n := by
  have hcast {s : Numeric} {v : Str} {n : ℕ} (hv : written stl text s = some v) (hn : decimal v = some n) :
      n < 2 ^ 64 ∧ used cfg s = cast s (UInt64.ofNat n) := by
    obtain ⟨n', hlt, hn'⟩ := hnum s v hv
    obtain rfl := Option.some.inj (hn.symm.trans hn')
    exact ⟨hlt, used_eq_cast h hv (hstou v n hn hlt)⟩
  have hlen : used cfg .vipPrefix = cfg.tunPrefixLen.toNat := rfl
  constructor
  · intro hu s v n hv hn
    obtain ⟨hlt, heq⟩ := hcast hv hn
    refine (cast_eq_iff s hlt).mp ⟨heq ▸ hu.used_eq s v n hv hn, ?_⟩
    rintro rfl
    have hle := hu.prefix_le
    omega
  · intro hall
    constructor
    case used_eq =>
      intro s v n hv hn
      obtain ⟨hlt, heq⟩ := hcast hv hn
      exact heq.trans ((cast_eq_iff s hlt).mpr (hall s v n hv hn)).1
    case prefix_le =>
      cases hv : written stl text .vipPrefix with
      | none =>
        rw [tunPrefixLen_of_unwritten h hv]
        decide
      | some v =>
        obtain ⟨n, hlt, hn⟩ := hnum _ v hv
        have hle := ((cast_eq_iff .vipPrefix hlt).mpr (hall _ v n hv hn)).2 rfl
        have heq := (hcast hv hn).2
        omega

end Load

theorem numericStl_stou (v : Str) (n : ℕ) (hn : decimal v = some n) (_ : n < 2 ^ 64) :
    numericStl.stou v = .ok (UInt64.ofNat n) := by
  change Except.ok (UInt64.ofNat ((decimal v).getD 0)) = _
  rw [hn]
  rfl

theorem numerals {stl : Stl} {text : Str} {ini : Ini.Config} (hini : parseConfig stl text = .ok ini)
    {p : Numeric → ℕ → Prop} [∀ s n, Decidable (p s n)]
    (h : ∀ s, (found stl ini s).all fun v ↦ (decimal v).any fun n ↦ p s n) (s : Numeric) (v : Str)
    (hv : written stl text s = some v) : ∃ n, p s n ∧ decimal v = some n := by
  rw [written_eq hini] at hv
  have hs := h s
  rw [hv] at hs
  obtain ⟨n, hn, hp⟩ := (Option.any_eq_true _ _).mp hs
  exact ⟨n, of_decide_eq_true hp, hn⟩

def quietText : Str := str "[me]\nvip = 10.0.0.1/24\n" ++ str "tun_mtu = 9000\n[peers]\n" ++
  str "10.0.0.1 = 192.0.2.1:7000\n" ++ str "[probe]\ninterval_ms = 250\n"

theorem loadConfig_unaltered_iff_quiet : ∃ cfg, loadConfig numericStl quietText = .ok cfg ∧
    Unaltered numericStl quietText cfg := by
  have hrun : (loadConfig numericStl quietText).toOption.any (fun _ ↦ true) = true := by
    decide +kernel
  have hfound : (parseConfig numericStl quietText).toOption.any (fun ini ↦
      ∀ s, (found numericStl ini s).all fun v ↦
        (decimal v).any fun n ↦ n < 2 ^ 64 ∧ InRange s n) = true := by
    decide +kernel
  obtain ⟨cfg, hcfg, -⟩ := ok_of_any hrun
  obtain ⟨ini, hini, hall⟩ := ok_of_any hfound
  have hnum := numerals (p := fun s n ↦ n < 2 ^ 64 ∧ InRange s n) hini (of_decide_eq_true hall)
  refine ⟨cfg, hcfg, (loadConfig_unaltered_iff numericStl_stou (fun s v hv ↦ ?_) hcfg).mpr ?_⟩
  · obtain ⟨n, ⟨hlt, -⟩, hv⟩ := hnum s v hv
    exact ⟨n, hlt, hv⟩
  · intro s v n hv hn
    obtain ⟨m, ⟨-, hm⟩, hv⟩ := hnum s v hv
    obtain rfl := Option.some.inj (hn.symm.trans hv)
    exact hm

/-- 4294968 ms are 704 µs modulo `2 ^ 32`. -/
def hurriedText : Str := str "[me]\nvip = 10.0.0.1/280\n" ++ str "[peers]\n" ++
  str "10.0.0.1 = 192.0.2.1:7000\n" ++ str "[probe]\ninterval_ms = 4294968\n"

theorem hurried_altered :
    (∀ v n, decimal v = some n → n < 2 ^ 64 → numericStl.stou v = .ok (UInt64.ofNat n)) ∧
    (∀ s v, written numericStl hurriedText s = some v → ∃ n < 2 ^ 64, decimal v = some n) ∧
      ∃ cfg, loadConfig numericStl hurriedText = .ok cfg ∧ cfg.tunPrefixLen = 24 ∧
        used cfg .intervalMs = 704 ∧ ¬ Unaltered numericStl hurriedText cfg := by
  have hrun : (loadConfig numericStl hurriedText).toOption.any (fun cfg ↦
      cfg.tunPrefixLen = 24 ∧ used cfg .intervalMs = 704) = true := by
    decide +kernel
  have hfound : (parseConfig numericStl hurriedText).toOption.any (fun ini ↦
      (∀ s, (found numericStl ini s).all fun v ↦ (decimal v).any (· < 2 ^ 64)) ∧
        (found numericStl ini .intervalMs).any fun v ↦ decimal v = some 4294968) = true := by
    decide +kernel
  obtain ⟨cfg, hcfg, hused⟩ := ok_of_any hrun
  obtain ⟨hlen, hsleep⟩ := of_decide_eq_true hused
  obtain ⟨ini, hini, hall⟩ := ok_of_any hfound
  obtain ⟨hlt, hinterval⟩ := of_decide_eq_true hall
  refine ⟨numericStl_stou, numerals (p := fun _ n ↦ n < 2 ^ 64) hini hlt, cfg, hcfg, hlen, hsleep, fun h ↦ ?_⟩
  obtain ⟨v, hv, hn⟩ := (Option.any_eq_true _ _).mp hinterval
  have heq := h.used_eq .intervalMs v 4294968 ((written_eq hini _).trans hv) (of_decide_eq_true hn)
  rw [hsleep] at heq
  exact absurd heq (by decide)

end Gofra.NumericSettings
