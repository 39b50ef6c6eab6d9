import Gofra.Lib.Chunks
import Gofra.Dispatch
import Gofra.SlotKeys

namespace Gofra.Parts

open Lib.Chunks Conns GsoSplit TunReader Sending

/-- The loop is done after as many turns as there are segments left. -/
theorem usoLoop_fuel {k : ℕ} {env : Env} {segBufs : List (List UInt8)} {segSizes : List ℕ}
    {gsoSize : UInt16} {partSize segs : ℕ} (hp : 1 ≤ partSize) {fuel fuel' i call : ℕ} {t : ConnTable}
    (h : segs - i ≤ fuel) (h' : segs - i ≤ fuel') :
    usoLoop k env segBufs segSizes gsoSize partSize segs fuel i call t =
      usoLoop k env segBufs segSizes gsoSize partSize segs fuel' i call t := by
  induction fuel generalizing fuel' i call t with
  | zero =>
    cases fuel' with
    | zero => rfl
    | succ fuel' => rw [usoLoop, usoLoop, if_neg (by omega)]
  | succ fuel ih =>
    cases fuel' with
    | zero => rw [usoLoop, usoLoop, if_neg (by omega)]
    | succ fuel' =>
      rw [usoLoop, usoLoop]
      split
      · rename_i hlt
        have hrest (call : ℕ) (t : ConnTable) := @ih fuel' (min (i + partSize) segs) call t
          (by omega) (by omega)
        simp only [hrest]
      · rfl

theorem segCount_usoParts_le (segs : ℕ) : segCount segs ((segs + usoParts - 1) / usoParts) ≤ usoParts := by
  rcases Nat.eq_zero_or_pos segs with rfl | hpos
  · simp [segCount, usoParts]
  · have hp := usoParts_pos hpos
    by_contra hlt
    have hmul := (lt_segCount hp).mp (Nat.lt_of_not_le hlt)
    have hceil := Nat.lt_mul_div_succ (segs + usoParts - 1) (show 0 < usoParts by decide)
    simp only [usoParts] at hmul hceil
    omega

/-- Buffer `j` of `segs` holds segment `j`, and all segments have the length of
the first one, except that the last may be shorter. -/
structure Segments (segBufs : List (List UInt8)) (segSizes : List ℕ) (segs size : ℕ)
    (seg : ℕ → List UInt8) : Prop where
  holds : Holds segBufs segSizes segs seg
  first : segSizes[0]? = some size
  size_lt : size < 2 ^ 16
  length_eq : ∀ j, j + 1 < segs → (seg j).length = size
  last : ∀ j, j + 1 = segs → 1 ≤ (seg j).length ∧ (seg j).length ≤ size

/-- The `sendmsg` calls for `segs` segments. -/
structure Sent (k : ℕ) (c : Conn) (env : Env) (t : ConnTable) (segs : ℕ) (seg : ℕ → List UInt8)
    (sent : List Send) : Prop where
  length_le : sent.length ≤ usoParts
  none : segs = 0 → sent = []
  sentBy : ∀ s ∈ sent, SentBy t k s
  slots : ∀ j s, sent[j]? = some s → { c with rr := c.rr + UInt64.ofNat j }.next env.now
    (env.load j) = some (s.slot, { c with rr := c.rr + UInt64.ofNat j + 1 })
  runs : ∃ runs : List (ℕ × ℕ), (∀ r ∈ runs, 0 < r.2) ∧
    sent.map Send.iov = runs.map (fun r ↦ (List.range' r.1 r.2).map seg) ∧
    (runs.flatMap fun r ↦ List.range' r.1 r.2) = List.range segs
  wire : ∀ s ∈ sent, ∃ gsoSize, s.segment = some gsoSize ∧ cut gsoSize.toNat s.iov.flatten = s.iov

theorem pieces_of_usoSent {t : ConnTable} {k : ℕ} {c : Conn} {env : Env} {gsoSize : UInt16}
    {seg : ℕ → List UInt8} {segs partSize i call : ℕ} {sent : List Send}
    (h : UsoSent t k c env gsoSize seg segs partSize i call sent)
    (hall : ∀ j, j + 1 < segs → (seg j).length = gsoSize.toNat)
    (hlast : ∀ j, j + 1 = segs → 1 ≤ (seg j).length ∧ (seg j).length ≤ gsoSize.toNat) :
    ∀ s ∈ sent, Pieces gsoSize.toNat s.iov := by
  intro s hs
  obtain ⟨runs, hmem, hiovs, -⟩ := h.runs
  have hiov : s.iov ∈ runs.map fun r ↦ (List.range' r.1 r.2).map seg :=
    hiovs ▸ List.mem_map_of_mem hs
  obtain ⟨r, hr, he⟩ := List.mem_map.mp hiov
  obtain ⟨hpos, hle⟩ := hmem r hr
  have hg {j : ℕ} (hj : j < segs) : 1 ≤ (seg j).length ∧ (seg j).length ≤ gsoSize.toNat := by
    by_cases he : j + 1 = segs
    · exact hlast j he
    · have hj' := hall j (by omega)
      obtain ⟨h1, h2⟩ := hlast (segs - 1) (by omega)
      omega
  rw [← he]
  exact pieces_range' (fun j _ hj ↦ hall j (by omega)) fun j _ hj ↦ hg (by omega)

theorem sendUso_sent {t : ConnTable} {k : ℕ} {c : Conn} (hc : Sendable t k c) (env : Env)
    {segBufs : List (List UInt8)} {segSizes : List ℕ} {segs size : ℕ} {seg : ℕ → List UInt8}
    (h : Segments segBufs segSizes segs size seg) :
    ∃ sent, sendUso t k env segBufs segSizes segs = some (bump t k sent.length, sent) ∧
      Sent k c env t segs seg sent ∧
      ∀ fuel, segs ≤ fuel → usoLoop k env segBufs segSizes (UInt16.ofNat size)
        ((segs + usoParts - 1) / usoParts) segs fuel 0 0 t = some (bump t k sent.length, sent) := by
  obtain ⟨sent, hsent, hruns⟩ := sendUso_eq h.holds env hc h.first
  have hsize : (UInt16.ofNat size).toNat = size := UInt16.toNat_ofNat_of_lt' h.size_lt
  have hlength : sent.length ≤ usoParts := by
    rw [hruns.length, Nat.sub_zero]
    exact segCount_usoParts_le segs
  have hnone (h0 : segs = 0) : sent = [] := by
    subst h0
    obtain ⟨runs, hmem, hiovs, -⟩ := hruns.runs
    have hnil : runs = [] := by
      refine List.eq_nil_iff_forall_not_mem.mpr fun r hr ↦ ?_
      have hr := hmem r hr
      omega
    rw [hnil, List.map_nil, List.map_eq_nil_iff] at hiovs
    exact hiovs
  have hpieces := pieces_of_usoSent hruns (fun j hj ↦ (h.length_eq j hj).trans hsize.symm)
    fun j hj ↦ hsize.symm ▸ h.last j hj
  refine ⟨sent, hsent, ?_, ?_⟩
  · constructor
    case length_le => exact hlength
    case none => exact hnone
    case sentBy => exact hruns.sentBy
    case slots =>
      intro j s hs
      have hslot := hruns.slots j s hs
      rwa [Nat.zero_add] at hslot
    case runs =>
      obtain ⟨runs, hmem, hiovs, hcover⟩ := hruns.runs
      refine ⟨runs, fun r hr ↦ (hmem r hr).1, hiovs, ?_⟩
      rw [hcover, Nat.sub_zero, List.range_eq_range']
    case wire =>
      intro s hs
      exact ⟨_, hruns.gsoSize s hs, cut_flatten (hpieces s hs)⟩
  · intro fuel hfuel
    rcases Nat.eq_zero_or_pos segs with h0 | hpos
    · rw [hnone h0, List.length_nil, bump_zero]
      subst h0
      cases fuel with
      | zero => rfl
      | succ fuel => rfl
    · have hloop : usoLoop k env segBufs segSizes (UInt16.ofNat size)
          ((segs + usoParts - 1) / usoParts) segs segs 0 0 t = some (bump t k sent.length, sent) := by
        rw [sendUso, h.first] at hsent
        exact hsent
      rw [← usoLoop_fuel (usoParts_pos hpos) (Nat.sub_le segs 0) (by omega), hloop]

def twoSegments : List (List UInt8) := [[1, 2], [3]]

theorem sendUso_sent_sample : ∃ t c sent, ConnTable.create SlotKeys.sampleHost SlotKeys.twoHosts
    ⟨0, by decide⟩ 0 0 1000 = .ok t ∧
    sendUso t 0 ⟨0, fun _ _ ↦ 0⟩ twoSegments [2, 1] 2 = some (bump t 0 sent.length, sent) ∧
    Sent 0 c ⟨0, fun _ _ ↦ 0⟩ t 2 (twoSegments.getD · []) sent := by
  have ht : ConnTable.create SlotKeys.sampleHost SlotKeys.twoHosts ⟨0, by decide⟩ 0 0 1000 = .ok _ := rfl
  obtain ⟨c, p, hc, -⟩ := (Dispatch.create_routes ht).conn 0x0a000002 0 rfl
  have hseg : Segments twoSegments [2, 1] 2 2 (twoSegments.getD · []) := by
    refine ⟨fun j hj ↦ ?_, rfl, by decide, fun j hj ↦ ?_, fun j hj ↦ ?_⟩
    · match j, hj with
      | 0, _ => exact ⟨_, _, rfl, rfl, by decide, rfl⟩
      | 1, _ => exact ⟨_, _, rfl, rfl, by decide, rfl⟩
    · obtain rfl : j = 0 := by omega
      rfl
    · obtain rfl : j = 1 := by omega
      exact ⟨by decide, by decide⟩
  obtain ⟨sent, hrun, hsent, -⟩ := sendUso_sent hc ⟨0, fun _ _ ↦ 0⟩ hseg
  exact ⟨_, c, sent, ht, hrun, hsent⟩

end Gofra.Parts
