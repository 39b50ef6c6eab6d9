import Gofra.Gso

namespace Gofra.Addr

open Gso

/-- A `StringView`: bytes. -/
abbrev Str := List UInt8

def str (s : String) : Str := s.toList.map fun c ↦ c.toNat.toUInt8

/-- A thrown exception: one with its description, or a failed `STD_VERIFY`. -/
inductive Error where
  | raised (description : Str)
  | verify
  deriving DecidableEq, Repr

/-- A socket address; `sAddr` and `flowinfo` are the words as they lie in memory. -/
inductive SockAddr where
  | inet (port : UInt16) (sAddr : UInt32)
  | inet6 (port : UInt16) (flowinfo : UInt32) (addr : List UInt8) (scopeId : UInt32)
  deriving DecidableEq, Repr

/-- `((const sockaddr_in*)sa)->sin_addr.s_addr`, for either family: bytes 4 to 7
of a `sockaddr_in6` are its flow information. -/
def SockAddr.sinAddr : SockAddr → UInt32
  | .inet _ sAddr => sAddr
  | .inet6 _ flowinfo _ _ => flowinfo

def addrLen : SockAddr → ℕ
  | .inet .. => 16
  | .inet6 .. => 28

/-- The functions of the string library and of libc that reading a
configuration rests on. -/
structure Stl where
  split : UInt8 → Str → Option (Str × Str)
  split_some : ∀ {c s a b}, split c s = some (a, b) → s = a ++ c :: b ∧ c ∉ a
  split_none : ∀ {c s}, split c s = none → c ∉ s
  stripSpace : Str → Str
  stou : Str → Except Error UInt64
  inetPton : Str → Option UInt32
  getaddrinfo : Str → Str → Option SockAddr

def orRaise {α : Type} (o : Option α) (description : Str) : Except Error α :=
  match o with
  | some a => .ok a
  | none => .error (.raised description)

theorem bind_eq_ok {α β : Type} {x : Except Error α} {f : α → Except Error β} {b : β}
    (h : x >>= f = .ok b) : ∃ a, x = .ok a ∧ f a = .ok b := by
  cases x with
  | error e => cases h
  | ok a => exact ⟨a, rfl, h⟩

theorem orRaise_eq_ok {α : Type} {o : Option α} {text : Str} {a : α} (h : orRaise o text = .ok a) :
    o = some a := by
  cases o with
  | none => cases h
  | some b =>
    cases h
    rfl

def ntohl (v : UInt32) : UInt32 := be32 v.toUInt8 (v >>> 8).toUInt8 (v >>> 16).toUInt8 (v >>> 24).toUInt8

/-- The C string that `s` becomes in a buffer of `n` bytes. -/
def toCStr (n : ℕ) (s : Str) : Except Error Str :=
  if s.length < n then .ok (s.takeWhile (· ≠ 0)) else .error .verify

def inet6AddrStrLen : ℕ := 46

def parseIPv4 (stl : Stl) (s : Str) : Except Error UInt32 := do
  let buf ← toCStr 16 s
  let a ← orRaise (stl.inetPton buf) (str "addr: bad ipv4: " ++ s)
  return ntohl a

def parseCIDR (stl : Stl) (s : Str) : Except Error (UInt32 × UInt8) :=
  match stl.split 47 s with
  | some (before, after) => do
    let addr ← parseIPv4 stl before
    let prefixLen ← stl.stou after
    return (addr, prefixLen.toUInt8)
  | none => do
    let addr ← parseIPv4 stl s
    return (addr, 32)

def splitHostPort (stl : Stl) (s : Str) : Except Error (Str × Str) :=
  match s with
  | 91 :: body =>
    match stl.split 93 body with
    | some (ipPart, 58 :: portPart) => .ok (ipPart, portPart)
    | _ => .error (.raised (str "addr: expected [ipv6]:port: " ++ s))
  | _ => orRaise (stl.split 58 s) (str "addr: expected ip:port: " ++ s)

def parseSockAddr (stl : Stl) (s : Str) : Except Error SockAddr := do
  let (ipPart, portPart) ← splitHostPort stl s
  let host ← toCStr inet6AddrStrLen ipPart
  let serv ← toCStr 8 portPart
  orRaise (stl.getaddrinfo host serv) (str "addr: bad ip:port: " ++ s)

/-- The loop `while (!s.empty())` that cuts `s` at every `sep`. -/
def piecesLoop (stl : Stl) (sep : UInt8) : ℕ → Str → List Str
  | 0, _ => []
  | fuel + 1, s =>
    if s = [] then []
    else match stl.split sep s with
      | none => [s]
      | some (item, rest) => item :: piecesLoop stl sep fuel rest

def pieces (stl : Stl) (sep : UInt8) (s : Str) : List Str := piecesLoop stl sep s.length s

/-- What `forEachItem` calls its callback with. -/
def items (stl : Stl) (s : Str) : List Str :=
  ((pieces stl 44 s).map stl.stripSpace).filter fun item ↦ item ≠ []

theorem Stl.length_split {stl : Stl} {c : UInt8} {s a b : Str} (h : stl.split c s = some (a, b)) :
    b.length < s.length := by
  rw [(stl.split_some h).1, List.length_append, List.length_cons]
  omega

theorem piecesLoop_fuel (stl : Stl) (sep : UInt8) {s : Str} {fuel fuel' : ℕ} (h : s.length ≤ fuel)
    (h' : s.length ≤ fuel') : piecesLoop stl sep fuel s = piecesLoop stl sep fuel' s := by
  induction fuel generalizing s fuel' with
  | zero =>
    obtain rfl : s = [] := List.eq_nil_of_length_eq_zero (by omega)
    cases fuel' <;> simp [piecesLoop]
  | succ fuel ih =>
    cases fuel' with
    | zero =>
      obtain rfl : s = [] := List.eq_nil_of_length_eq_zero (by omega)
      simp [piecesLoop]
    | succ fuel' =>
      rw [piecesLoop, piecesLoop]
      split
      · rfl
      · cases hs : stl.split sep s with
        | none => rfl
        | some p =>
          have hlt := Stl.length_split hs
          have hle : p.2.length ≤ fuel' := by omega
          simp only [ih (show p.2.length ≤ fuel by omega) hle]

/-- The loop never runs out of fuel: each turn shortens the string. -/
theorem pieces_of_split {stl : Stl} {sep : UInt8} {s item rest : Str}
    (h : stl.split sep s = some (item, rest)) :
    pieces stl sep s = item :: pieces stl sep rest := by
  have hlt := Stl.length_split h
  have hne : s ≠ [] := by
    rintro rfl
    simp at hlt
  obtain ⟨n, hn⟩ : ∃ n, s.length = n + 1 := ⟨s.length - 1, by omega⟩
  rw [pieces, hn, piecesLoop, if_neg hne, h, pieces]
  exact congrArg _ (piecesLoop_fuel stl sep (by omega) le_rfl)

theorem pieces_of_no_split {stl : Stl} {sep : UInt8} {s : Str} (hs : s ≠ [])
    (h : stl.split sep s = none) : pieces stl sep s = [s] := by
  obtain ⟨n, hn⟩ : ∃ n, s.length = n + 1 :=
    ⟨s.length - 1, by have := List.length_pos_iff.mpr hs; omega⟩
  rw [pieces, hn, piecesLoop, if_neg hs, h]

end Gofra.Addr
