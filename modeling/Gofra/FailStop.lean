import Gofra.Startup

namespace Gofra.FailStop

open Lib.Calls Addr NumericStl Peers Conns Settings Kernel Socks Tun Startup

/-- A call that tells its caller that it has failed. -/
def failed : Event → Bool
  | ⟨.op _, r⟩ => r.ret < 0
  | ⟨.cred _, r⟩ => r.ret ≠ 0
  | ⟨.getifaddrs, r⟩ => r.1.ret ≠ 0
  | ⟨.ifIndex .., r⟩ => r.1.ret < 0
  | ⟨.mnlRecvfrom _, r⟩ => r.1.ret < 0
  | ⟨.getpwnam _, r⟩ => r.isNone
  | ⟨.readFile _, .error _⟩ | ⟨.mnlOpen, .error _⟩ | ⟨.spawn _, .error _⟩ => true
  | _ => false

/-- What may still be done after a failure. -/
def cleanup : Call → Bool
  | .release _ | .close _ | .mnlClose _ | .getnameinfo _ | .report _ => true
  | _ => false

abbrev monitor : Monitor Answer Bool := latch failed fun e ↦ cleanup e.1

/-- `p` has to throw if something has failed, and may only clean up before. -/
def StrictFrom {α : Type} (s : Bool) (p : Sys α) : Prop :=
  wp monitor p (fun _ s ↦ s = false) (fun e _ ↦ ∃ x, e = .thrown x) s

abbrev Strict {α : Type} (p : Sys α) : Prop := StrictFrom false p

section Rules

variable {α β : Type} {s : Bool}

theorem strict_pure (a : α) : Strict (pure a : Sys α) := rfl

theorem strictFrom_thrown (e : Exc) : StrictFrom s (.fail (.thrown e) : Sys α) := ⟨e, rfl⟩

theorem strictFrom_bind {p : Sys α} {f : α → Sys β} (hp : StrictFrom s p) (hf : ∀ a, Strict (f a)) :
    StrictFrom s (p >>= f) := by
  refine wp_bind.mpr (wp_mono (fun a s hs ↦ ?_) (fun _ _ h ↦ h) hp)
  subst hs
  exact hf a

/-- A call after which its answer is looked at. -/
theorem strict_call_bind {c : Call} {f : Answer c → Sys β} (h : ∀ r, StrictFrom (failed ⟨c, r⟩) (f r)) :
    Strict (call c >>= f) :=
  fun r _ ↦ ⟨nofun, h r⟩

theorem strict_call {c : Call} (h : ∀ r, failed ⟨c, r⟩ = false) : Strict (call c) :=
  fun r _ ↦ ⟨nofun, h r⟩

theorem strictFrom_check (r : Ret) (what : Str) : StrictFrom (decide (r.ret < 0)) (check r what) := by
  refine wp_check.mpr ?_
  split
  · exact ⟨_, rfl⟩
  · rename_i hr
    exact decide_eq_false hr

theorem strictFrom_checkZero (r : Ret) (what : Str) : StrictFrom (decide (r.ret ≠ 0)) (checkZero r what) := by
  refine wp_checkZero.mpr ?_
  split
  · exact ⟨_, rfl⟩
  · rename_i hr
    exact decide_eq_false hr

theorem strict_attempt (o : Op) (what : Str) : Strict (attempt o what) :=
  strict_call_bind fun r ↦ strictFrom_check r what

theorem strict_cred (o : CredOp) (what : Str) : Strict (call (.cred o) >>= fun r ↦ checkZero r what) :=
  strict_call_bind fun r ↦ strictFrom_checkZero r what

theorem strict_mapM {f : α → Sys β} (hf : ∀ a, Strict (f a)) (l : List α) : Strict (l.mapM f) := by
  refine @wp_mapM _ _ _ _ _ _ _ _ _ _ (fun _ _ s ↦ s = false) l (fun _ a _ s _ hs ↦ ?_) rfl
  subst hs
  exact hf a

theorem strict_ensuring {p : Sys α} {c : Call} {f : Answer c → Sys Unit} (hp : Strict p) (hc : cleanup c = true)
    (h : ∀ r, failed ⟨c, r⟩ = false) (hf : ∀ r, f r = .ret ()) : Strict (p.ensuring (.call c f)) := by
  refine wp_ensuring.mpr (wp_mono (fun _ s hs r _ ↦ ?_) (fun _ s hs r _ ↦ ?_) hp)
  · refine ⟨fun _ ↦ hc, ?_⟩
    rw [hf r]
    change (s || failed ⟨c, r⟩) = false
    rw [hs, h r]
    rfl
  · refine ⟨fun _ ↦ hc, ?_⟩
    rw [hf r]
    exact hs

end Rules

theorem strict_ifaceFor (src : SockAddr) : Strict (ifaceFor src) := by
  refine strict_call_bind fun ⟨r, ifs⟩ ↦ strictFrom_bind (strictFrom_checkZero r _) fun _ ↦ ?_
  split
  · exact strict_pure _
  · exact strictFrom_thrown _

theorem strict_setBufForce (fd : ℤ) (opt : SockOpt) (name : Str) : Strict (setBufForce fd opt name) :=
  strictFrom_bind (strict_attempt _ _) fun _ ↦ strict_pure _

theorem strict_openUdpSocket (src : SockAddr) (rcvBuf sndBuf : ℤ) : Strict (openUdpSocket src rcvBuf sndBuf) := by
  refine strictFrom_bind (strict_attempt _ _) fun fd ↦ ?_
  refine strictFrom_bind (strict_call fun _ ↦ rfl) fun _ ↦ ?_
  refine strictFrom_bind (strict_ifaceFor src) fun name ↦ ?_
  refine strictFrom_bind (strict_attempt _ _) fun _ ↦ ?_
  refine strictFrom_bind (strict_setBufForce _ _ _) fun _ ↦ ?_
  refine strictFrom_bind (strict_setBufForce _ _ _) fun _ ↦ ?_
  refine strictFrom_bind (strict_attempt _ _) fun _ ↦ ?_
  refine strictFrom_bind (strict_attempt _ _) fun _ ↦ strict_call_bind fun r ↦ ?_
  split
  · -- `getnameinfo` comes after the failure
    exact fun _ _ ↦ ⟨fun _ ↦ rfl, _, rfl⟩
  · rename_i hr
    exact decide_eq_false hr

theorem strict_copyIfName (name : Str) : Strict (copyIfName name) := by
  rw [copyIfName]
  split
  · exact strictFrom_thrown _
  · exact strict_pure _

theorem strict_openTun (dev : Str) : Strict (openTun dev) := by
  refine strictFrom_bind (strict_attempt _ _) fun fd ↦ ?_
  refine strictFrom_bind (strict_call fun _ ↦ rfl) fun _ ↦ ?_
  refine strictFrom_bind (strict_copyIfName _) fun _ ↦ ?_
  refine strictFrom_bind (strict_attempt _ _) fun _ ↦ ?_
  refine strictFrom_bind (strict_attempt _ _) fun _ ↦ ?_
  exact strictFrom_bind (strict_attempt _ _) fun _ ↦ strict_pure _

theorem strict_ifIndexFor (dev : Str) : Strict (ifIndexFor dev) := by
  refine strictFrom_bind (strict_attempt _ _) fun s ↦ strict_ensuring ?_ rfl (fun _ ↦ rfl) fun _ ↦ rfl
  refine strictFrom_bind (strict_copyIfName _) fun name ↦ strict_call_bind fun ⟨r, index⟩ ↦ ?_
  exact strictFrom_bind (strictFrom_check r _) fun _ ↦ strict_pure _

theorem strict_withNetlink {α : Type} {body : Netlink → Sys α} (h : ∀ n, Strict (body n)) :
    Strict (withNetlink body) := by
  refine strict_call_bind fun r ↦ ?_
  cases r with
  | error e => exact strictFrom_thrown _
  | ok nl =>
    refine strict_call_bind fun r ↦ ?_
    split
    · exact fun _ _ ↦ ⟨fun _ ↦ rfl, _, rfl⟩
    · rename_i hr
      change StrictFrom (decide (r.ret < 0)) _
      rw [decide_eq_false hr]
      exact strictFrom_bind (strict_call fun _ ↦ rfl) fun _ ↦ strict_ensuring (h _) rfl (fun _ ↦ rfl) fun _ ↦ rfl

theorem strict_run (n : Netlink) (nh : NlMsg) (what : Str) : Strict (n.run nh what) := by
  refine strictFrom_bind (strict_attempt _ _) fun _ ↦ strict_call_bind fun ⟨r, rbuf⟩ ↦ ?_
  exact strictFrom_bind (strictFrom_check r _) fun _ ↦ strictFrom_bind (strict_attempt _ _) fun _ ↦ strict_pure _

theorem strict_configureTun (dev : Str) (mtu : ℤ) (vip : UInt32) (prefixLen : UInt8) :
    Strict (configureTun dev mtu vip prefixLen) := by
  have hsend (n : Netlink) (nh : NlMsg) (what : Str) : Strict (n.run nh what >>= fun _ ↦ pure n) :=
    strictFrom_bind (strict_run n nh what) fun _ ↦ strict_pure n
  refine strictFrom_bind (strict_ifIndexFor dev) fun idx ↦ strict_withNetlink fun nl ↦ ?_
  refine strictFrom_bind (hsend _ _ _) fun nl ↦ ?_
  refine strictFrom_bind (hsend _ _ _) fun nl ↦ ?_
  exact strictFrom_bind (hsend _ _ _) fun _ ↦ strict_pure _

theorem strict_createTable (peers : PeerTable) (self : Fin peers.peers.length) (rcvBuf sndBuf : ℤ)
    (timeoutMs : UInt64) : Strict (createTable peers self rcvBuf sndBuf timeoutMs) := by
  refine strictFrom_bind (strict_mapM (fun dst ↦ strict_openUdpSocket dst rcvBuf sndBuf) _) fun srcFds ↦ ?_
  exact strictFrom_bind (strict_call fun _ ↦ rfl) fun _ ↦ strict_pure _

theorem strict_dropPrivs (user : Str) : Strict (dropPrivs user) := by
  refine strict_call_bind fun r ↦ ?_
  cases r with
  | none => exact strictFrom_thrown _
  | some pw =>
    have hcred (o : CredOp) (what : Str) {f : Unit → Sys Unit} (hf : ∀ u, Strict (f u)) :
        Strict (call (.cred o) >>= fun r ↦ checkZero r what >>= f) :=
      strict_call_bind fun r ↦ strictFrom_bind (strictFrom_checkZero r what) hf
    exact hcred _ _ fun _ ↦ hcred _ _ fun _ ↦ strict_cred _ _

theorem strict_spawn (r : Runnable) : Strict (spawn r) := by
  refine strict_call_bind fun a ↦ ?_
  cases a with
  | error e => exact strictFrom_thrown e
  | ok _ => exact strict_pure _

theorem strict_start (cfg : Config) : Strict (start cfg) := by
  have hsetup : Strict (setup cfg) := by
    refine strictFrom_bind (strict_createTable _ _ _ _ _) fun conns ↦ ?_
    refine strictFrom_bind (strict_mapM strict_openTun _) fun tunFds ↦ ?_
    exact strictFrom_bind (strict_configureTun _ _ _ _) fun _ ↦ strict_pure _
  have hdrop : Strict (dropUser cfg.user) := by
    cases cfg.user with
    | none => exact strict_pure _
    | some user => exact strict_dropPrivs user
  refine strictFrom_bind hsetup fun (conns, tunFds) ↦ strictFrom_bind hdrop fun _ ↦ ?_
  refine strictFrom_bind (strict_call fun _ ↦ rfl) fun _ ↦ ?_
  refine strictFrom_bind (strict_mapM strict_spawn _) fun threads ↦ ?_
  have hjoin (i : ℕ) : Strict (call (.join i)) := strict_call fun _ ↦ rfl
  exact strictFrom_bind (strict_mapM hjoin _) fun _ ↦ strict_pure _

theorem strict_load (stl : Stl) (path : Str) : Strict (load stl path) := by
  refine strict_call_bind fun r ↦ ?_
  cases r with
  | error e => exact strictFrom_thrown e
  | ok text =>
    refine strictFrom_bind (strict_pure text) fun _ ↦ ?_
    split
    · exact strictFrom_thrown _
    · exact strict_pure _

theorem strict_withPool {α : Type} (pool : Pool) {body : Sys α} (h : Strict body) : Strict (withPool pool body) := by
  have hdestroy (s : Bool) (fds : List ℤ) : wp monitor (pool.destroy fds) (fun _ s' ↦ s' = s) (fun _ _ ↦ False) s := by
    refine wp_bind.mpr (wp_mapM (I := fun _ _ s' ↦ s' = s) _ (fun _ fd _ s' _ hs' ↦ ?_) rfl)
    subst hs'
    exact fun r _ ↦ ⟨fun _ ↦ rfl, Bool.or_false s'⟩
  refine wp_inScope (I := fun _ _ ↦ True) (fun _ _ _ _ _ ↦ trivial) (fun _ s fds hs _ ↦ ?_) (fun _ s fds hs _ ↦ ?_) h
    trivial
  · subst hs
    exact wp_mono (fun _ _ hs' ↦ hs') (fun _ _ ↦ False.elim) (hdestroy false fds)
  · exact wp_mono (fun _ _ _ ↦ hs) (fun _ _ ↦ False.elim) (hdestroy s fds)

/-- What a run of the program never does after a failure. -/
structure Stopped (tr : List Event) (o : Outcome Empty ℕ) : Prop where
  after : ∀ pre e post, tr = pre ++ e :: post → failed e = true → ∀ e' ∈ post, cleanup e'.1 = true
  code : ∀ code, o = .done code → (∃ e ∈ tr, failed e = true) → code = 1

/-- The first failure ends the program: after it there is nothing but cleaning
up, no thread is started, and the process ends with code 1. -/
theorem main_failStop (stl : Stl) (pool : Pool) (args : List Str) {tr : List Event} {o : Outcome Empty ℕ}
    (h : Runs (main stl pool args) tr o) : Stopped tr o := by
  have hwp : wp monitor (main stl pool args) (fun code s ↦ s = true → code = 1) (fun _ _ ↦ True) false := by
    refine wp_handle.mpr (wp_bind.mpr ?_)
    rw [run]
    cases configPath args [] with
    | none => exact fun _ _ ↦ ⟨nofun, nofun⟩
    | some path =>
      have hbody := strict_withPool pool (strictFrom_bind (strict_load stl path) strict_start)
      have hrun : Strict (call .ignoreSigPipe >>= fun _ ↦ withPool pool (load stl path >>= start)) :=
        strictFrom_bind (strict_call fun _ ↦ rfl) fun _ ↦ hbody
      refine wp_mono (fun _ s hs ↦ ?_) (fun e s hs ↦ ?_) hrun
      · subst hs
        exact nofun
      · obtain ⟨x, rfl⟩ := hs
        exact fun _ _ ↦ ⟨fun _ ↦ rfl, fun _ ↦ rfl⟩
  obtain ⟨halong, hends⟩ := wp_sound hwp h (monitor.along_of_forall (fun _ _ ↦ trivial) false tr)
  refine ⟨fun pre e post htr he ↦ along_latch halong htr he, ?_⟩
  rintro code rfl ⟨e, he, hfail⟩
  refine hends ?_
  rw [after_latch]
  exact List.any_eq_true.mpr ⟨e, he, hfail⟩

/-- Without the device there is no queue. -/
def noDevice (past : List Event) : (c : Call) → Answer c
  | .op .openTun => ⟨-1, 2⟩
  | c => agreeable past c

theorem main_failStop_noDevice : ∃ tr, Runs (main numericStl stackPool sampleArgs) tr (.done 1) ∧
    (∃ e ∈ tr, failed e = true) ∧ Stopped tr (.done 1) := by
  have hrun := runs_exec noDevice (main numericStl stackPool sampleArgs) []
  have hcode : (exec noDevice (main numericStl stackPool sampleArgs) []).2 = .ok 1 := by decide +kernel
  have hfail : (exec noDevice (main numericStl stackPool sampleArgs) []).1.any failed = true := by decide +kernel
  rw [hcode] at hrun
  exact ⟨_, hrun, List.any_eq_true.mp hfail, main_failStop _ _ _ hrun⟩

end Gofra.FailStop
