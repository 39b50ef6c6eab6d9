import Gofra.Addr

namespace Gofra.NumericStl

open Gso Addr

def splitFirst (c : UInt8) : Str → Option (Str × Str)
  | [] => none
  | x :: s => if x = c then some ([], s) else (splitFirst c s).map fun p ↦ (x :: p.1, p.2)

theorem splitFirst_some {c : UInt8} {s a b : Str} (h : splitFirst c s = some (a, b)) :
    s = a ++ c :: b ∧ c ∉ a := by
  induction s generalizing a with
  | nil => cases h
  | cons x s ih =>
    rw [splitFirst] at h
    split at h
    · rename_i hx
      cases h
      exact ⟨by rw [hx, List.nil_append], List.not_mem_nil⟩
    · rename_i hx
      obtain ⟨p, hp, he⟩ := Option.map_eq_some_iff.mp h
      cases he
      obtain ⟨hs, hc⟩ := ih hp
      exact ⟨by rw [List.cons_append, ← hs], by
        rw [List.mem_cons, not_or]
        exact ⟨fun e ↦ hx e.symm, hc⟩⟩

theorem splitFirst_none {c : UInt8} {s : Str} (h : splitFirst c s = none) : c ∉ s := by
  induction s with
  | nil => exact List.not_mem_nil
  | cons x s ih =>
    rw [splitFirst] at h
    split at h
    · cases h
    · rename_i hx
      rw [List.mem_cons, not_or]
      exact ⟨fun e ↦ hx e.symm, ih (Option.map_eq_none_iff.mp h)⟩

def isSpace (c : UInt8) : Bool := c = 32 ∨ c = 9 ∨ c = 13

def strip (s : Str) : Str := (((s.dropWhile isSpace).reverse).dropWhile isSpace).reverse

def decimal (s : Str) : Option ℕ :=
  if s ≠ [] ∧ s.all (fun c ↦ 48 ≤ c ∧ c ≤ 57) then
    some (s.foldl (fun n c ↦ 10 * n + (c.toNat - 48)) 0)
  else none

def octet (s : Str) : Option UInt8 := do
  let n ← decimal s
  if n < 256 then some (UInt8.ofNat n) else none

/-- `inet_pton` on dotted decimals: the address in network byte order. -/
def dottedQuad (s : Str) : Option UInt32 := do
  let (a, s) ← splitFirst 46 s
  let (b, s) ← splitFirst 46 s
  let (c, d) ← splitFirst 46 s
  return be32 (← octet d) (← octet c) (← octet b) (← octet a)

/-- A string library and a resolver that know numeric IPv4 addresses. -/
def numericStl : Stl where
  split := splitFirst
  split_some := splitFirst_some
  split_none := splitFirst_none
  stripSpace := strip
  stou s := .ok (UInt64.ofNat ((decimal s).getD 0))
  inetPton := dottedQuad
  getaddrinfo host serv := do
    let port ← decimal serv
    return .inet (UInt16.ofNat port) (← dottedQuad host)

theorem ok_of_any {α : Type} {x : Except Error α} {p : α → Bool} (h : x.toOption.any p = true) :
    ∃ a, x = .ok a ∧ p a = true := by
  cases x with
  | error e => cases h
  | ok a => exact ⟨a, rfl, h⟩

end Gofra.NumericStl
