import Gofra.Phases
import Mathlib.Data.Finset.Basic

namespace Gofra.Descriptors

open Lib.Calls Addr NumericStl Peers Conns Settings Kernel Socks Tun Startup Phases

/-- The descriptors that are open, those of them that the pool owns, and the
netlink sockets that are open. -/
@[ext] structure Fds where
  opened : Finset ℤ
  owned : Finset ℤ
  links : Finset ℕ

namespace Fds

def next (s : Fds) : Event → Fds
  | ⟨.op (.socket _), r⟩ | ⟨.op .openTun, r⟩ => if r.ret < 0 then s else { s with opened := insert r.ret s.opened }
  | ⟨.own fd, _⟩ => { s with owned := insert fd s.owned }
  | ⟨.release fd, _⟩ => { s with opened := s.opened.erase fd, owned := s.owned.erase fd }
  | ⟨.close fd, _⟩ => { s with opened := s.opened.erase fd }
  | ⟨.mnlOpen, .ok nl⟩ => { s with links := insert nl s.links }
  | ⟨.mnlClose nl, _⟩ => { s with links := s.links.erase nl }
  | _ => s

/-- The system does not give out what is in use. -/
def Fresh (s : Fds) : Event → Prop
  | ⟨.op (.socket _), r⟩ | ⟨.op .openTun, r⟩ => 0 ≤ r.ret → r.ret ∉ s.opened
  | ⟨.mnlOpen, .ok nl⟩ => nl ∉ s.links
  | _ => True

def fdsOf : Runnable → List ℤ
  | .tunReader tunFd => [tunFd]
  | .udpReader srcFd tunFd _ => [srcFd, tunFd]
  | .prober _ | .slotsStats .. => []

/-- `main` uses a descriptor while it is open, its one owner alone closes it, and
a thread gets only open descriptors of the pool. -/
def Proper (s : Fds) : Event → Prop
  | ⟨.op (.setsockopt fd _), _⟩ | ⟨.op (.bind fd _), _⟩ | ⟨.op (.tunIoctl fd _), _⟩ | ⟨.ifIndex fd _, _⟩ =>
    fd ∈ s.opened
  | ⟨.own fd, _⟩ | ⟨.close fd, _⟩ => fd ∈ s.opened ∧ fd ∉ s.owned
  | ⟨.release fd, _⟩ => fd ∈ s.opened ∧ fd ∈ s.owned
  | ⟨.op (.mnlBind nl), _⟩ | ⟨.op (.mnlSendto nl _), _⟩ | ⟨.mnlPortid nl, _⟩ | ⟨.mnlRecvfrom nl, _⟩ |
    ⟨.mnlClose nl, _⟩ => nl ∈ s.links
  | ⟨.spawn r, _⟩ => ∀ fd ∈ fdsOf r, fd ∈ s.opened ∧ fd ∈ s.owned
  | _ => True

/-- Every open descriptor belongs to the pool. -/
structure Settled (s : Fds) : Prop where
  owned : s.owned = s.opened
  links : s.links = ∅

end Fds

def monitor : Monitor Answer Fds where
  next := Fds.next
  assumes := Fds.Fresh
  asks := Fds.Proper

/-- From a state in which the descriptors `F` are open, `p` opens and closes what it needs, leaves
nothing behind that nobody owns, and has `live` open where it returns. -/
def Tidy {α : Type} (F : Finset ℤ) (p : Sys α) (live : α → Finset ℤ) : Prop :=
  ∀ s, s.Settled → F ⊆ s.opened →
    wp monitor p (fun a s' ↦ s'.Settled ∧ F ∪ live a ⊆ s'.opened) (fun _ s' ↦ s'.Settled) s

section Rules

variable {α β : Type} {F : Finset ℤ}

theorem tidy_bind {p : Sys α} {f : α → Sys β} {live : α → Finset ℤ} {live' : β → Finset ℤ} (hp : Tidy F p live)
    (hf : ∀ a, Tidy (F ∪ live a) (f a) live') : Tidy F (p >>= f) live' := by
  intro s hs hF
  refine wp_bind.mpr (wp_mono (fun a s' ⟨hs', hF'⟩ ↦ ?_) (fun _ _ h ↦ h) (hp s hs hF))
  refine wp_mono (fun b s'' ⟨hs'', hF''⟩ ↦ ⟨hs'', ?_⟩) (fun _ _ h ↦ h) (hf a s' hs' hF')
  exact (Finset.union_subset_union_left Finset.subset_union_left).trans hF''

theorem tidy_pure (a : α) {live : α → Finset ℤ} (h : live a ⊆ F) : Tidy F (pure a) live :=
  fun _ hs hF ↦ ⟨hs, (Finset.union_subset Finset.Subset.rfl h).trans hF⟩

theorem tidy_fail (e : Stop) (live : α → Finset ℤ) : Tidy F (.fail e) live := fun _ hs _ ↦ hs

/-- A call that opens and closes nothing. -/
theorem tidy_call {c : Call} (hnext : ∀ s r, Fds.next s ⟨c, r⟩ = s)
    (hask : ∀ s r, F ⊆ s.opened → s.Settled → Fds.Proper s ⟨c, r⟩) : Tidy F (call c) fun _ ↦ ∅ := by
  intro s hs hF r _
  refine ⟨hask s r hF hs, ?_⟩
  change (Fds.next s _).Settled ∧ F ∪ ∅ ⊆ (Fds.next s _).opened
  rw [hnext]
  exact ⟨hs, Finset.union_subset hF (Finset.empty_subset _)⟩

theorem tidy_check (r : Ret) (what : Str) : Tidy F (check r what) fun _ ↦ ∅ := by
  rw [check]
  split
  · exact tidy_fail _ _
  · exact tidy_pure _ (Finset.empty_subset F)

theorem tidy_checkZero (r : Ret) (what : Str) : Tidy F (checkZero r what) fun _ ↦ ∅ := by
  rw [checkZero]
  split
  · exact tidy_fail _ _
  · exact tidy_pure _ (Finset.empty_subset F)

/-- A part after which no more descriptors are known to be open. -/
theorem tidy_seq {p : Sys α} {f : α → Sys β} {live : β → Finset ℤ} (hp : Tidy F p fun _ ↦ ∅)
    (hf : ∀ a, Tidy F (f a) live) : Tidy F (p >>= f) live := by
  intro s hs hF
  refine wp_bind.mpr (wp_mono (fun a s' ⟨hs', hF'⟩ ↦ ?_) (fun _ _ h ↦ h) (hp s hs hF))
  exact hf a s' hs' (Finset.subset_union_left.trans hF')

theorem tidy_attempt {o : Op} {what : Str} (hnext : ∀ s r, Fds.next s ⟨.op o, r⟩ = s)
    (hask : ∀ s r, F ⊆ s.opened → s.Settled → Fds.Proper s ⟨.op o, r⟩) : Tidy F (attempt o what) fun _ ↦ ∅ :=
  tidy_seq (tidy_call hnext hask) fun r ↦ tidy_check r what

theorem tidy_opens {f : α → Sys ℤ} (hf : ∀ F a, Tidy F (f a) fun fd ↦ {fd}) (l : List α) :
    Tidy F (l.mapM f) List.toFinset := by
  induction l generalizing F with
  | nil => exact tidy_pure _ (Finset.empty_subset F)
  | cons a l ih =>
    rw [List.mapM_cons]
    refine tidy_bind (hf F a) fun fd ↦ tidy_bind ih fun fds ↦ tidy_pure _ ?_
    rw [List.toFinset_cons]
    refine Finset.insert_subset ?_ Finset.subset_union_right
    exact Finset.mem_union_left _ (Finset.mem_union_right _ (Finset.mem_singleton_self fd))

theorem tidy_mapM {f : α → Sys β} {l : List α} (hf : ∀ a ∈ l, Tidy F (f a) fun _ ↦ ∅) :
    Tidy F (l.mapM f) fun _ ↦ ∅ := by
  induction l with
  | nil => exact tidy_pure _ (Finset.empty_subset F)
  | cons a l ih =>
    rw [List.mapM_cons]
    refine tidy_seq (hf a List.mem_cons_self) fun _ ↦ ?_
    exact tidy_seq (ih fun a ha ↦ hf a (List.mem_cons_of_mem _ ha)) fun _ ↦ tidy_pure _ (Finset.empty_subset F)

end Rules

theorem tidy_ifaceFor (F : Finset ℤ) (src : SockAddr) : Tidy F (ifaceFor src) fun _ ↦ ∅ := by
  refine tidy_seq (tidy_call (fun _ _ ↦ rfl) fun _ _ _ _ ↦ trivial) fun (r, ifs) ↦ ?_
  refine tidy_seq (tidy_checkZero r _) fun _ ↦ ?_
  split
  · exact tidy_pure _ (Finset.empty_subset _)
  · exact tidy_fail _ _

/-- What follows a call that gives a new descriptor, which then goes to the pool. -/
theorem tidy_owned {α : Type} {F : Finset ℤ} {o : Op} {what : Str} {f : ℤ → Sys α} {live : α → Finset ℤ}
    (hnext : ∀ s r, Fds.next s ⟨.op o, r⟩ = if r.ret < 0 then s else { s with opened := insert r.ret s.opened })
    (hfresh : ∀ s r, Fds.Fresh s ⟨.op o, r⟩ → 0 ≤ r.ret → r.ret ∉ s.opened)
    (hask : ∀ s r, Fds.Proper s ⟨.op o, r⟩) (hf : ∀ fd, Tidy (insert fd F) (f fd) live) :
    Tidy F (attempt o what >>= fun fd ↦ call (.own fd) >>= fun _ ↦ f fd) live := by
  intro s hs hF
  refine wp_bind.mpr (wp_attempt.mpr fun r hr ↦ ⟨hask s r, ?_⟩)
  change if r.ret < 0 then (Fds.next s _).Settled else wp monitor _ _ _ (Fds.next s _)
  rw [hnext]
  split
  · exact hs
  · rename_i hret
    have hnew := hfresh s r hr (Int.not_lt.mp hret)
    refine wp_perform_bind.mpr fun _ _ ↦ ⟨⟨Finset.mem_insert_self _ _, hs.owned ▸ hnew⟩, ?_⟩
    have hs' : Fds.Settled ⟨insert r.ret s.opened, insert r.ret s.owned, s.links⟩ := ⟨by rw [hs.owned], hs.links⟩
    refine wp_mono (fun a s' ⟨hs'', hF'⟩ ↦ ⟨hs'', ?_⟩) (fun _ _ h ↦ h)
      (hf r.ret _ hs' (Finset.insert_subset_insert _ hF))
    exact (Finset.union_subset_union_left (Finset.subset_insert _ _)).trans hF'

theorem tidy_openUdpSocket (F : Finset ℤ) (src : SockAddr) (rcvBuf sndBuf : ℤ) :
    Tidy F (openUdpSocket src rcvBuf sndBuf) fun fd ↦ {fd} := by
  refine tidy_owned (fun _ _ ↦ rfl) (fun _ _ h ↦ h) (fun _ _ ↦ trivial) fun fd ↦ ?_
  have hopt (opt : SockOpt) (what : Str) : Tidy (insert fd F) (attempt (.setsockopt fd opt) what) fun _ ↦ ∅ :=
    tidy_attempt (fun _ _ ↦ rfl) fun _ _ hF _ ↦ hF (Finset.mem_insert_self _ _)
  have hbuf (opt : SockOpt) (name : Str) : Tidy (insert fd F) (setBufForce fd opt name) fun _ ↦ ∅ :=
    tidy_seq (hopt opt name) fun _ ↦ tidy_pure _ (Finset.empty_subset _)
  refine tidy_seq (tidy_ifaceFor _ src) fun name ↦ tidy_seq (hopt _ _) fun _ ↦ ?_
  refine tidy_seq (hbuf _ _) fun _ ↦ tidy_seq (hbuf _ _) fun _ ↦ ?_
  refine tidy_seq (hopt _ _) fun _ ↦ tidy_seq (hopt _ _) fun _ ↦ ?_
  have hbind : Tidy (insert fd F) (call (.op (.bind fd src))) fun _ ↦ ∅ :=
    tidy_call (fun _ _ ↦ rfl) fun _ _ hF _ ↦ hF (Finset.mem_insert_self _ _)
  refine tidy_seq hbind fun r ↦ ?_
  split
  · exact tidy_seq (tidy_call (fun _ _ ↦ rfl) fun _ _ _ _ ↦ trivial) fun _ ↦ tidy_fail _ _
  · exact tidy_pure fd (Finset.singleton_subset_iff.mpr (Finset.mem_insert_self _ _))

theorem tidy_copyIfName (F : Finset ℤ) (name : Str) : Tidy F (copyIfName name) fun _ ↦ ∅ := by
  rw [copyIfName]
  split
  · exact tidy_fail _ _
  · exact tidy_pure _ (Finset.empty_subset F)

theorem tidy_openTun (F : Finset ℤ) (dev : Str) : Tidy F (openTun dev) fun fd ↦ {fd} := by
  refine tidy_owned (fun _ _ ↦ rfl) (fun _ _ h ↦ h) (fun _ _ ↦ trivial) fun fd ↦ ?_
  have hioctl (req : TunIoctl) (what : Str) : Tidy (insert fd F) (attempt (.tunIoctl fd req) what) fun _ ↦ ∅ :=
    tidy_attempt (fun _ _ ↦ rfl) fun _ _ hF _ ↦ hF (Finset.mem_insert_self _ _)
  refine tidy_seq (tidy_copyIfName _ _) fun _ ↦ tidy_seq (hioctl _ _) fun _ ↦ ?_
  refine tidy_seq (hioctl _ _) fun _ ↦ tidy_seq (hioctl _ _) fun _ ↦ ?_
  exact tidy_pure fd (Finset.singleton_subset_iff.mpr (Finset.mem_insert_self _ _))

/-- The socket of `ifIndexFor` is closed again, whatever happens in between. -/
theorem tidy_ifIndexFor (F : Finset ℤ) (dev : Str) : Tidy F (ifIndexFor dev) fun _ ↦ ∅ := by
  intro s hs hF
  refine wp_bind.mpr (wp_attempt.mpr fun r hr ↦ ⟨trivial, ?_⟩)
  have hnext : monitor.next s ⟨.op (.socket 2), r⟩ =
    if r.ret < 0 then s else { s with opened := insert r.ret s.opened } := rfl
  rw [hnext]
  split
  · exact hs
  · rename_i hret
    have hnew : r.ret ∉ s.opened := hr (Int.not_lt.mp hret)
    have hclose (P : Fds → Prop) (hP : P s) : wp monitor (call (.close r.ret) : Sys Unit) (fun _ s' ↦ P s')
        (fun _ s' ↦ s'.Settled) { s with opened := insert r.ret s.opened } := by
      refine fun _ _ ↦ ⟨⟨Finset.mem_insert_self _ _, hs.owned ▸ hnew⟩, ?_⟩
      change P { s with opened := (insert r.ret s.opened).erase r.ret }
      rw [Finset.erase_insert hnew]
      exact hP
    have hdone := hclose (fun s' ↦ s'.Settled ∧ F ∪ ∅ ⊆ s'.opened)
      ⟨hs, Finset.union_subset hF (Finset.empty_subset _)⟩
    refine wp_ensuring.mpr (wp_bind.mpr ?_)
    rw [copyIfName]
    split
    · exact hclose _ hs
    · refine wp_perform_bind.mpr fun r' _ ↦ ⟨Finset.mem_insert_self _ _, ?_⟩
      obtain ⟨r', index⟩ := r'
      refine wp_bind.mpr (wp_check.mpr ?_)
      split
      · exact hclose _ hs
      · exact hdone

theorem tidy_withNetlink {α : Type} {F : Finset ℤ} {body : Netlink → Sys α} {live : α → Finset ℤ}
    (h : ∀ nl portId s, nl ∈ s.links → wp monitor (body ⟨nl, portId, 0⟩) (fun _ s' ↦ s' = s) (fun _ s' ↦ s' = s) s)
    (hlive : ∀ a, live a ⊆ F) : Tidy F (withNetlink body) live := by
  intro s hs hF
  have hend (a : α) : s.Settled ∧ F ∪ live a ⊆ s.opened := ⟨hs, Finset.union_subset hF ((hlive a).trans hF)⟩
  refine wp_perform_bind.mpr fun r hr ↦ ⟨trivial, ?_⟩
  cases r with
  | error e => exact hs
  | ok nl =>
    have hnew : nl ∉ s.links := hr
    have hclose (P : Fds → Prop) (hP : P s) : wp monitor (call (.mnlClose nl) : Sys Unit) (fun _ s' ↦ P s')
        (fun _ s' ↦ s'.Settled) { s with links := insert nl s.links } := by
      refine fun _ _ ↦ ⟨Finset.mem_insert_self _ _, ?_⟩
      change P { s with links := (insert nl s.links).erase nl }
      rw [Finset.erase_insert hnew]
      exact hP
    refine wp_perform_bind.mpr fun r _ ↦ ⟨Finset.mem_insert_self _ _, ?_⟩
    split
    · exact wp_bind.mpr (hclose _ hs)
    · refine wp_perform_bind.mpr fun portId _ ↦ ⟨Finset.mem_insert_self _ _, wp_ensuring.mpr ?_⟩
      refine wp_mono (fun a s' hs' ↦ ?_) (fun _ s' hs' ↦ ?_) (h nl portId _ (Finset.mem_insert_self _ _))
      · rw [hs']
        exact hclose _ (hend a)
      · rw [hs']
        exact hclose _ hs

/-- A request uses its socket and nothing else. -/
theorem run_wp {n : Netlink} {nh : NlMsg} {what : Str} {s : Fds} (h : n.nl ∈ s.links) :
    wp monitor (n.run nh what) (fun _ s' ↦ s' = s) (fun _ s' ↦ s' = s) s := by
  refine wp_bind.mpr (wp_attempt.mpr fun r _ ↦ ⟨h, ?_⟩)
  split
  · rfl
  · refine wp_perform_bind.mpr fun ⟨r', rbuf⟩ _ ↦ ⟨h, wp_bind.mpr (wp_check.mpr ?_)⟩
    split
    · rfl
    · refine wp_bind.mpr (wp_attempt.mpr fun r _ ↦ ⟨trivial, ?_⟩)
      split <;> rfl

theorem tidy_configureTun (F : Finset ℤ) (dev : Str) (mtu : ℤ) (vip : UInt32) (prefixLen : UInt8) :
    Tidy F (configureTun dev mtu vip prefixLen) fun _ ↦ ∅ := by
  refine tidy_seq (tidy_ifIndexFor F dev) fun idx ↦ ?_
  refine tidy_withNetlink (fun nl portId s hs ↦ ?_) fun _ ↦ Finset.empty_subset F
  have hreq (n : Netlink) (nh : NlMsg) (what : Str) (hn : n.nl = nl) :
      wp monitor (n.run nh what >>= fun _ ↦ (pure n : Sys Netlink)) (fun n' s' ↦ s' = s ∧ n' = n)
        (fun _ s' ↦ s' = s) s :=
    wp_bind.mpr (wp_mono (fun _ _ hs' ↦ ⟨hs', rfl⟩) (fun _ _ h ↦ h) (run_wp (hn.symm ▸ hs)))
  refine wp_bind.mpr (wp_mono (fun n₁ s₁ ⟨hs₁, hn₁⟩ ↦ ?_) (fun _ _ h ↦ h) (hreq _ _ _ rfl))
  subst hs₁ hn₁
  refine wp_bind.mpr (wp_mono (fun n₂ s₂ ⟨hs₂, hn₂⟩ ↦ ?_) (fun _ _ h ↦ h) (hreq _ _ _ rfl))
  subst hs₂ hn₂
  exact wp_bind.mpr (wp_mono (fun _ _ h ↦ h.1) (fun _ _ h ↦ h) (hreq _ _ _ rfl))

theorem tidy_createTable (F : Finset ℤ) (peers : PeerTable) (self : Fin peers.peers.length) (rcvBuf sndBuf : ℤ)
    (timeoutMs : UInt64) :
    Tidy F (createTable peers self rcvBuf sndBuf timeoutMs) fun conns ↦ conns.srcFds.toFinset := by
  refine tidy_bind (tidy_opens (fun F dst ↦ tidy_openUdpSocket F dst rcvBuf sndBuf) _) fun srcFds ↦ ?_
  refine tidy_seq (tidy_call (fun _ _ ↦ rfl) fun _ _ _ _ ↦ trivial) fun startMs ↦ tidy_pure _ ?_
  have hnil : Built (peers.at self) srcFds startMs timeoutMs [] ⟨timeoutMs, srcFds, [], [], ∅, ∅⟩ :=
    ⟨rfl, rfl, rfl, rfl, rfl, fun _ ↦ rfl⟩
  rw [(foldl_addConn_built hnil).srcFds]
  exact Finset.subset_union_right

theorem tidy_dropUser (F : Finset ℤ) (user : Option Str) : Tidy F (dropUser user) fun _ ↦ ∅ := by
  have hquiet (c : Call) (hnext : ∀ s r, Fds.next s ⟨c, r⟩ = s) (hask : ∀ s r, Fds.Proper s ⟨c, r⟩) :
      Tidy F (call c) fun _ ↦ ∅ := tidy_call hnext fun s r _ _ ↦ hask s r
  have hcred (o : CredOp) : Tidy F (call (.cred o)) fun _ ↦ ∅ := hquiet _ (fun _ _ ↦ rfl) fun _ _ ↦ trivial
  cases user with
  | none => exact tidy_pure _ (Finset.empty_subset F)
  | some user =>
    refine tidy_seq (hquiet _ (fun _ _ ↦ rfl) fun _ _ ↦ trivial) fun pw ↦ ?_
    cases pw with
    | none => exact tidy_fail _ _
    | some pw =>
      refine tidy_seq (hcred _) fun r ↦ tidy_seq (tidy_checkZero r _) fun _ ↦ ?_
      refine tidy_seq (hcred _) fun r ↦ tidy_seq (tidy_checkZero r _) fun _ ↦ ?_
      exact tidy_seq (hcred _) fun r ↦ tidy_checkZero r _

theorem fdsOf_runnables {cfg : Config} {srcFds tunFds : List ℤ} {r : Runnable} (h : r ∈ runnables cfg srcFds tunFds)
    {fd : ℤ} (hfd : fd ∈ Fds.fdsOf r) : fd ∈ srcFds.toFinset ∪ tunFds.toFinset := by
  rcases List.mem_append.mp h with h | h
  · obtain ⟨⟨⟨t, s⟩, i⟩, hq, hr⟩ := List.mem_flatMap.mp h
    obtain ⟨ht, hs⟩ := List.of_mem_zip (List.fst_mem_of_mem_zipIdx hq)
    simp only [List.mem_cons, List.not_mem_nil, or_false] at hr
    rcases hr with rfl | rfl <;> simp only [Fds.fdsOf, List.mem_cons, List.not_mem_nil, or_false] at hfd <;>
      simp only [Finset.mem_union, List.mem_toFinset]
    · exact .inr (hfd ▸ ht)
    · rcases hfd with rfl | rfl
      · exact .inl hs
      · exact .inr ht
  · simp only [List.mem_cons, List.not_mem_nil, or_false] at h
    rcases h with rfl | rfl <;> cases hfd

theorem tidy_launch {F : Finset ℤ} {cfg : Config} {conns : ConnTable} {tunFds : List ℤ}
    (hF : conns.srcFds.toFinset ∪ tunFds.toFinset ⊆ F) : Tidy F (launch cfg conns tunFds) fun _ ↦ ∅ := by
  have hspawn : ∀ r ∈ runnables cfg conns.srcFds tunFds, Tidy F (spawn r) fun _ ↦ ∅ := by
    intro r hr
    refine tidy_seq (tidy_call (fun _ _ ↦ rfl) fun s _ hs hset fd hfd ↦ ?_) fun a ↦ ?_
    · have hopen := hs (hF (fdsOf_runnables hr hfd))
      exact ⟨hopen, hset.owned ▸ hopen⟩
    · cases a with
      | error e => exact tidy_fail _ _
      | ok _ => exact tidy_pure _ (Finset.empty_subset F)
  have hjoin (i : ℕ) : Tidy F (call (.join i)) fun _ ↦ ∅ := tidy_call (fun _ _ ↦ rfl) fun _ _ _ _ ↦ trivial
  refine tidy_seq (tidy_call (fun _ _ ↦ rfl) fun _ _ _ _ ↦ trivial) fun _ ↦ ?_
  refine tidy_seq (tidy_mapM hspawn) fun threads ↦ tidy_seq (tidy_mapM fun i _ ↦ hjoin i) fun _ ↦ ?_
  exact tidy_pure _ (Finset.empty_subset F)

theorem tidy_start (cfg : Config) : Tidy ∅ (start cfg) fun _ ↦ ∅ := by
  have hsetup : Tidy ∅ (setup cfg) fun p ↦ p.1.srcFds.toFinset ∪ p.2.toFinset := by
    refine tidy_bind (tidy_createTable ∅ _ _ _ _ _) fun conns ↦ tidy_bind (tidy_opens tidy_openTun _) fun tunFds ↦ ?_
    refine tidy_seq (tidy_configureTun _ _ _ _ _) fun _ ↦ tidy_pure _ ?_
    exact Finset.union_subset_union_left (Finset.subset_union_right)
  refine tidy_bind hsetup fun (conns, tunFds) ↦ tidy_seq (tidy_dropUser _ _) fun _ ↦ ?_
  exact tidy_launch Finset.subset_union_right

theorem tidy_load (stl : Stl) (path : Str) : Tidy ∅ (load stl path) fun _ ↦ ∅ := by
  refine tidy_seq (tidy_call (fun _ _ ↦ rfl) fun _ _ _ _ ↦ trivial) fun r ↦ ?_
  cases r with
  | error e => exact tidy_fail _ _
  | ok text =>
    refine tidy_seq (tidy_pure text Finset.Subset.rfl) fun _ ↦ ?_
    split
    · exact tidy_fail _ _
    · exact tidy_pure _ Finset.Subset.rfl

/-- The pool knows what it owns. -/
theorem noteOwned_next {s : Fds} {fds : List ℤ} {e : Event} (h : fds.Nodup ∧ fds.toFinset = s.owned) (he : s.Proper e) :
    (noteOwned fds e).Nodup ∧ (noteOwned fds e).toFinset = (s.next e).owned := by
  obtain ⟨hnodup, howned⟩ := h
  obtain ⟨c, r⟩ := e
  cases c with
  | own fd =>
    have hnew : fd ∉ fds := fun hmem ↦ he.2 (howned ▸ List.mem_toFinset.mpr hmem)
    refine ⟨List.nodup_cons.mpr ⟨hnew, hnodup⟩, ?_⟩
    change (fd :: fds).toFinset = insert fd s.owned
    rw [← howned, List.toFinset_cons]
  | release fd =>
    refine ⟨hnodup.erase fd, ?_⟩
    change (fds.erase fd).toFinset = s.owned.erase fd
    rw [← howned]
    ext fd'
    rw [List.mem_toFinset, hnodup.mem_erase_iff, Finset.mem_erase, List.mem_toFinset]
  | op o =>
    refine ⟨hnodup, howned.trans ?_⟩
    cases o
    case socket | openTun =>
      change s.owned = (if r.ret < 0 then s else _).owned
      split <;> rfl
    all_goals rfl
  | mnlOpen => cases r <;> exact ⟨hnodup, howned⟩
  | _ => exact ⟨hnodup, howned⟩

/-- The destructor of the pool closes all that is open, each descriptor once. -/
theorem destroy_wp (pool : Pool) {fds : List ℤ} {s : Fds} {X : Stop → Fds → Prop} (hs : s.Settled)
    (h : fds.Nodup ∧ fds.toFinset = s.owned) :
    wp monitor (pool.destroy fds) (fun _ s' ↦ s' = ⟨∅, ∅, ∅⟩) X s := by
  have hperm := pool.perm fds
  have hnodup := hperm.nodup_iff.mpr h.1
  have hall : s.opened = (pool.order fds).toFinset := by
    rw [← hs.owned, ← h.2, List.toFinset_eq_of_perm _ _ hperm]
  refine wp_bind.mpr (wp_mono (fun _ s' hs' ↦ ?_) (fun _ _ h ↦ h) (wp_mapM
    (I := fun closed _ s' ↦ s'.Settled ∧ s'.opened = (pool.order fds).toFinset \ closed.toFinset) _
    (fun closed fd _ s' hpre hs' ↦ ?_) ⟨hs, by rw [hall, List.toFinset_nil, Finset.sdiff_empty]⟩))
  · obtain ⟨hset, hopened⟩ := hs'
    rw [Finset.sdiff_self] at hopened
    exact Fds.ext hopened (hset.owned.trans hopened) hset.links
  · obtain ⟨hset, hopened⟩ := hs'
    have hmem : fd ∈ pool.order fds := hpre.subset (List.mem_append_right _ List.mem_cons_self)
    have hnew : fd ∉ closed := by
      have hnodup' := List.nodup_append.mp (hnodup.sublist hpre.sublist)
      exact fun hold ↦ hnodup'.2.2 fd hold fd List.mem_cons_self rfl
    have hopen : fd ∈ s'.opened := by
      rw [hopened]
      exact Finset.mem_sdiff.mpr ⟨List.mem_toFinset.mpr hmem, fun hold ↦ hnew (List.mem_toFinset.mp hold)⟩
    refine fun _ _ ↦ ⟨⟨hopen, hset.owned ▸ hopen⟩, ⟨?_, hset.links⟩, ?_⟩
    · exact congrArg (Finset.erase · fd) hset.owned
    · change s'.opened.erase fd = _
      rw [hopened]
      ext fd'
      simp only [Finset.mem_erase, Finset.mem_sdiff, List.mem_toFinset, List.mem_append, List.mem_singleton]
      tauto

theorem withPool_wp (pool : Pool) {body : Sys Unit} (h : Tidy ∅ body fun _ ↦ ∅) :
    wp monitor (withPool pool body) (fun _ s ↦ s = ⟨∅, ∅, ∅⟩) (fun _ s ↦ s = ⟨∅, ∅, ∅⟩) ⟨∅, ∅, ∅⟩ := by
  refine wp_inScope (I := fun (s : Fds) fds ↦ fds.Nodup ∧ fds.toFinset = s.owned) (fun s fds e hi he ↦ ?_)
    (fun _ s fds hs hi ↦ ?_) (fun _ s fds hs hi ↦ ?_) (h _ ⟨rfl, rfl⟩ Finset.Subset.rfl) ⟨List.nodup_nil, rfl⟩
  · exact noteOwned_next hi he
  · exact destroy_wp pool hs.1 hi
  · exact destroy_wp pool hs hi

/-- The threads that have been created, those that have been joined since, and
whether one could not be created. -/
structure Spawned where
  created : ℕ
  joined : List ℕ
  refused : Bool

namespace Spawned

def next (s : Spawned) : Event → Spawned
  | ⟨.spawn _, .ok _⟩ => { s with created := s.created + 1 }
  | ⟨.spawn _, .error _⟩ => { s with refused := true }
  | ⟨.join i, _⟩ => { s with joined := s.joined ++ [i] }
  | _ => s

/-- All threads have come to their end, unless one could not be created. -/
def Over (s : Spawned) : Prop := s.refused = true ∨ s.joined = List.range s.created

/-- The pool keeps its descriptors for the threads. -/
def Kept (s : Spawned) : Event → Prop
  | ⟨.release _, _⟩ => s.Over
  | _ => True

end Spawned

def threads : Monitor Answer Spawned where
  next := Spawned.next
  assumes _ _ := True
  asks := Spawned.Kept

theorem over_quiet {α : Type} {P : Call → Prop} {p : Sys α} {s : Spawned} (hp : p.Uses P) (hspawn : ∀ r, ¬ P (.spawn r))
    (hjoin : ∀ i, ¬ P (.join i)) (hrelease : ∀ fd, ¬ P (.release fd)) :
    wp threads p (fun _ s' ↦ s' = s) (fun _ s' ↦ s' = s) s := by
  refine wp_of_uses hp fun c _ hc ↦ ?_
  cases c with
  | spawn r => exact absurd hc (hspawn r)
  | join i => exact absurd hc (hjoin i)
  | release fd => exact absurd hc (hrelease fd)
  | _ => exact ⟨trivial, rfl⟩

theorem launch_over (cfg : Config) (conns : ConnTable) (tunFds : List ℤ) :
    wp threads (launch cfg conns tunFds) (fun _ s ↦ s.Over) (fun _ s ↦ s.Over) ⟨0, [], false⟩ := by
  refine wp_perform_bind.mpr fun _ _ ↦ ⟨trivial, wp_bind.mpr ?_⟩
  refine wp_mono (fun us s hs ↦ ?_) (fun _ _ h ↦ h) (wp_mapM
    (I := fun _ us s ↦ s = (⟨us.length, [], false⟩ : Spawned)) _ (fun _ r us s _ hs ↦ ?_) rfl)
  · subst hs
    refine wp_bind.mpr (wp_mono (fun _ s hs ↦ ?_) (fun _ _ h ↦ h) (wp_mapM
      (I := fun joined _ s ↦ s = (⟨us.length, joined, false⟩ : Spawned)) _ (fun joined i _ s _ hs ↦ ?_) rfl))
    · subst hs
      exact .inr rfl
    · subst hs
      exact fun _ _ ↦ ⟨trivial, rfl⟩
  · subst hs
    refine wp_perform_bind.mpr fun a _ ↦ ⟨trivial, ?_⟩
    cases a with
    | error e => exact .inl rfl
    | ok u =>
      change (⟨us.length + 1, [], false⟩ : Spawned) = ⟨(us ++ [()]).length, [], false⟩
      rw [List.length_append]
      rfl

theorem start_over (cfg : Config) :
    wp threads (start cfg) (fun _ s ↦ s.Over) (fun _ s ↦ s.Over) ⟨0, [], false⟩ := by
  have hover (s : Spawned) (hs : s = ⟨0, [], false⟩) : s.Over := hs ▸ .inr rfl
  refine wp_bind.mpr (wp_mono (fun (conns, tunFds) s hs ↦ ?_) (fun _ s hs ↦ hover s hs)
    (over_quiet (uses_setup cfg) (fun _ h ↦ h) (fun _ h ↦ h) fun _ h ↦ h))
  subst hs
  refine wp_bind.mpr (wp_mono (fun _ s hs ↦ ?_) (fun _ s hs ↦ hover s hs)
    (over_quiet (uses_dropUser cfg.user) (fun _ h ↦ h) (fun _ h ↦ h) fun _ h ↦ h))
  subst hs
  exact launch_over cfg conns tunFds

theorem withPool_over (pool : Pool) {body : Sys Unit}
    (h : wp threads body (fun _ s ↦ s.Over) (fun _ s ↦ s.Over) ⟨0, [], false⟩) :
    wp threads (withPool pool body) (fun _ _ ↦ True) (fun _ _ ↦ True) ⟨0, [], false⟩ := by
  have hdestroy (s : Spawned) (fds : List ℤ) (hs : s.Over) :
      wp threads (pool.destroy fds) (fun _ _ ↦ True) (fun _ _ ↦ True) s := by
    refine wp_bind.mpr (wp_mono (fun _ _ _ ↦ trivial) (fun _ _ h ↦ h) (wp_mapM
      (I := fun _ _ s' ↦ s' = s) _ (fun _ fd _ s' _ hs' ↦ ?_) rfl))
    subst hs'
    exact fun _ _ ↦ ⟨hs, rfl⟩
  exact wp_inScope (I := fun _ _ ↦ True) (fun _ _ _ _ _ ↦ trivial) (fun _ s fds hs _ ↦ hdestroy s fds hs)
    (fun _ s fds hs _ ↦ hdestroy s fds hs) h trivial

theorem run_closed (stl : Stl) (pool : Pool) (args : List Str) :
    wp monitor (run stl pool args) (fun _ s ↦ s = ⟨∅, ∅, ∅⟩) (fun _ s ↦ s = ⟨∅, ∅, ∅⟩) ⟨∅, ∅, ∅⟩ := by
  rw [run]
  cases configPath args [] with
  | none => exact fun _ _ ↦ ⟨trivial, rfl⟩
  | some path => exact fun _ _ ↦ ⟨trivial, withPool_wp pool (tidy_seq (tidy_load stl path) tidy_start)⟩

theorem run_over (stl : Stl) (pool : Pool) (args : List Str) :
    wp threads (run stl pool args) (fun _ _ ↦ True) (fun _ _ ↦ True) ⟨0, [], false⟩ := by
  rw [run]
  cases configPath args [] with
  | none => exact fun _ _ ↦ ⟨trivial, trivial⟩
  | some path =>
    refine fun _ _ ↦ ⟨trivial, withPool_over pool (wp_bind.mpr (wp_mono (fun cfg s hs ↦ ?_) (fun _ s hs ↦ ?_)
      (over_quiet (uses_load stl path) (fun _ h ↦ h) (fun _ h ↦ h) fun _ h ↦ h)))⟩
    · subst hs
      exact start_over cfg
    · subst hs
      exact .inr rfl

/-- What `run` leaves behind either way stands when `main` has ended, where a report does not touch it. -/
theorem main_wp {σ : Type} {m : Monitor Answer σ} {P : σ → Prop} {stl : Stl} {pool : Pool} {args : List Str} {s : σ}
    (hreport : ∀ s e a, m.asks s ⟨.report e, a⟩ ∧ m.next s ⟨.report e, a⟩ = s)
    (h : wp m (run stl pool args) (fun _ s' ↦ P s') (fun _ s' ↦ P s') s) :
    wp m (main stl pool args) (fun _ s' ↦ P s') (fun _ _ ↦ True) s := by
  refine wp_handle.mpr (wp_bind.mpr (wp_mono (fun _ _ hs ↦ hs) (fun e s' hs ↦ ?_) h))
  cases e with
  | exit code => exact hs
  | thrown e =>
    intro a _
    obtain ⟨hasks, hnext⟩ := hreport s' e a
    refine ⟨hasks, ?_⟩
    rw [hnext]
    exact hs

/-- What is open after some calls. -/
def fdsAfter (tr : List Event) : Fds := tr.foldl Fds.next ⟨∅, ∅, ∅⟩

def spawnedAfter (tr : List Event) : Spawned := tr.foldl Spawned.next ⟨0, [], false⟩

/-- The descriptors of a run: each is used properly, the pool keeps its own until
the threads are over or one of them could not be created, and where the run ends,
none is open. -/
structure Accounted (tr : List Event) (o : Outcome Empty ℕ) : Prop where
  proper : ∀ pre e post, tr = pre ++ e :: post → (fdsAfter pre).Proper e
  kept : ∀ pre e post, tr = pre ++ e :: post → (spawnedAfter pre).Kept e
  closed : ∀ code, o = .done code → fdsAfter tr = ⟨∅, ∅, ∅⟩

theorem main_accounted {stl : Stl} {pool : Pool} {args : List Str} {tr : List Event} {o : Outcome Empty ℕ}
    (h : Runs (main stl pool args) tr o) (hfresh : ∀ pre e post, tr = pre ++ e :: post → (fdsAfter pre).Fresh e) :
    Accounted tr o := by
  have hclosed := main_wp (fun _ _ _ ↦ ⟨trivial, rfl⟩) (run_closed stl pool args)
  have hover := main_wp (fun _ _ _ ↦ ⟨trivial, rfl⟩) (run_over stl pool args)
  obtain ⟨halong, hends⟩ := wp_sound hclosed h (monitor.along_iff.mpr hfresh)
  obtain ⟨hkept, -⟩ := wp_sound hover h (threads.along_of_forall (fun _ _ ↦ trivial) _ tr)
  refine ⟨monitor.along_iff.mp halong, threads.along_iff.mp hkept, ?_⟩
  rintro code rfl
  exact hends

instance (s : Fds) (e : Event) : Decidable (s.Fresh e) := by
  unfold Fds.Fresh
  split <;> infer_instance

/-- There is no room for the last thread. -/
def noStats (past : List Event) : (c : Call) → Answer c
  | .spawn (.slotsStats ..) => .error (.library (str "pthread_create"))
  | c => agreeable past c

/-- The pool also closes the descriptors of threads that go on when a later one
could not be created. -/
theorem main_accounted_sample : ∃ tr tr', Runs (main numericStl stackPool sampleArgs) tr (.done 0) ∧
    Accounted tr (.done 0) ∧ Runs (main numericStl stackPool sampleArgs) tr' (.done 1) ∧ Accounted tr' (.done 1) ∧
    (spawnedAfter tr').created = 3 ∧ (spawnedAfter tr').joined = [] := by
  have hrun := runs_exec agreeable (main numericStl stackPool sampleArgs) []
  have hrun' := runs_exec noStats (main numericStl stackPool sampleArgs) []
  have hexec : (exec agreeable (main numericStl stackPool sampleArgs) []).2 = .ok 0 ∧
      monitor.Along Fds.Fresh ⟨∅, ∅, ∅⟩ (exec agreeable (main numericStl stackPool sampleArgs) []).1 := by
    decide +kernel
  have hexec' : (exec noStats (main numericStl stackPool sampleArgs) []).2 = .ok 1 ∧
      monitor.Along Fds.Fresh ⟨∅, ∅, ∅⟩ (exec noStats (main numericStl stackPool sampleArgs) []).1 ∧
      (spawnedAfter (exec noStats (main numericStl stackPool sampleArgs) []).1).created = 3 ∧
      (spawnedAfter (exec noStats (main numericStl stackPool sampleArgs) []).1).joined = [] := by decide +kernel
  obtain ⟨hcode, hfresh⟩ := hexec
  obtain ⟨hcode', hfresh', hcreated, hjoined⟩ := hexec'
  rw [hcode] at hrun
  rw [hcode'] at hrun'
  exact ⟨_, _, hrun, main_accounted hrun (monitor.along_iff.mp hfresh), hrun',
    main_accounted hrun' (monitor.along_iff.mp hfresh'), hcreated, hjoined⟩

end Gofra.Descriptors
