import Mathlib.Data.List.AList
import Gofra.Addr

namespace Gofra.Ini

open Addr

/-- A section: its assignments, and its keys in the order they first came. -/
structure Section where
  map : AList fun _ : Str ↦ Str
  keys : List Str
  nodup : keys.Nodup
  mem_keys : ∀ key, key ∈ keys ↔ key ∈ map

def Section.empty : Section where
  map := ∅
  keys := []
  nodup := List.nodup_nil
  mem_keys key := by simp

def Section.assign (sec : Section) (key val : Str) : Section where
  map := sec.map.insert key val
  keys := if key ∈ sec.map then sec.keys else sec.keys ++ [key]
  nodup := by
    split
    · exact sec.nodup
    · rename_i hkey
      exact sec.nodup.append (List.nodup_singleton key)
        (List.disjoint_singleton.mpr fun h ↦ hkey ((sec.mem_keys key).mp h))
  mem_keys k := by
    rw [AList.mem_insert]
    split
    · rename_i hkey
      rw [sec.mem_keys]
      exact ⟨.inr, fun h ↦ h.elim (fun e ↦ e ▸ hkey) id⟩
    · rw [List.mem_append, List.mem_singleton, sec.mem_keys, or_comm]

/-- The keys of a section in order, each with its value. -/
def Section.rows (sec : Section) : List (Str × Str) :=
  sec.keys.attach.map fun key ↦ (key.1, (sec.map.lookup key.1).get
    (AList.lookup_isSome.mpr ((sec.mem_keys key.1).mp key.2)))

theorem Section.rows_keys (sec : Section) : sec.rows.map Prod.fst = sec.keys := by
  rw [Section.rows, List.map_map]
  exact List.attach_map_subtype_val sec.keys

abbrev Config := AList fun _ : Str ↦ Section

/-- The state of `parseConfig`: the sections so far, and the name of the one
that `sec` points to. -/
structure State where
  cfg : Config
  cur : Str

def sectionOf (cfg : Config) (name : Str) : Section := (cfg.lookup name).getD .empty

def parseHeader (stl : Stl) (st : State) (line : Str) : Except Error State :=
  if line.getLast? ≠ some 93 then .error (.raised (str "ini: bad section: " ++ line))
  else
    let name := stl.stripSpace ((line.drop 1).take (line.length - 2))
    .ok { cfg := if name ∈ st.cfg then st.cfg else st.cfg.insert name .empty, cur := name }

def parseAssignment (stl : Stl) (st : State) (line : Str) : Except Error State := do
  let (key, val) ← orRaise (stl.split 61 line) (str "ini: missing '=': " ++ line)
  let sec := (sectionOf st.cfg st.cur).assign (stl.stripSpace key) (stl.stripSpace val)
  return { st with cfg := st.cfg.insert st.cur sec }

def parseLine (stl : Stl) (st : State) (src : Str) : Except Error State :=
  let line := stl.stripSpace src
  match line with
  | [] | 35 :: _ | 59 :: _ => .ok st
  | 91 :: _ => parseHeader stl st line
  | _ => parseAssignment stl st line

def parseConfig (stl : Stl) (src : Str) : Except Error Config := do
  let st ← (pieces stl 10 src).foldlM (parseLine stl)
    { cfg := (∅ : Config).insert [] .empty, cur := [] }
  return st.cfg

end Gofra.Ini
