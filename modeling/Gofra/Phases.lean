import Gofra.Startup

namespace Gofra.Phases

open Lib.Calls Addr Peers Conns Settings Kernel Socks Tun Startup

/-- The calls up to the configuration. -/
def LoadCall : Call → Prop
  | .usage | .ignoreSigPipe | .readFile _ => True
  | _ => False

/-- The calls from there to the point where privileges are given up. -/
def SetupCall : Call → Prop
  | .op _ | .own _ | .close _ | .getifaddrs | .getnameinfo _ | .ifIndex .. => True
  | .mnlOpen | .mnlClose _ | .mnlPortid _ | .mnlRecvfrom _ | .nowMs => True
  | _ => False

def DropCall : Call → Prop
  | .getpwnam _ | .cred _ => True
  | _ => False

/-- The calls from the first thread on. -/
def LaunchCall : Call → Prop
  | .banner .. | .spawn _ | .join _ => True
  | _ => False

/-- The calls after `run`'s own: those of the pool's destructor and of `main`. -/
def EndCall : Call → Prop
  | .release _ | .report _ => True
  | _ => False

section Uses

variable {P : Call → Prop}

theorem uses_check (r : Ret) (what : Str) : (check r what).Uses P := by
  rw [check]
  split <;> trivial

theorem uses_attempt {o : Op} (what : Str) (h : P (.op o)) : (attempt o what).Uses P :=
  uses_bind (uses_perform h) fun r ↦ uses_check r what

theorem uses_checkZero (r : Ret) (what : Str) : (checkZero r what).Uses P := by
  rw [checkZero]
  split <;> trivial

theorem uses_copyIfName (name : Str) : (copyIfName name).Uses P := by
  rw [copyIfName]
  split <;> trivial

end Uses

theorem uses_openUdpSocket (src : SockAddr) (rcvBuf sndBuf : ℤ) :
    (openUdpSocket src rcvBuf sndBuf).Uses SetupCall := by
  have hop (o : Op) (what : Str) : (attempt o what).Uses SetupCall := uses_attempt what trivial
  have hbuf (fd : ℤ) (opt : SockOpt) (name : Str) : (setBufForce fd opt name).Uses SetupCall :=
    uses_bind (hop _ _) fun _ ↦ trivial
  have hiface : (ifaceFor src).Uses SetupCall := by
    refine uses_bind (uses_perform trivial) fun (r, ifs) ↦ uses_bind (uses_checkZero r _) fun _ ↦ ?_
    split <;> trivial
  refine uses_bind (hop _ _) fun fd ↦ uses_bind (uses_perform trivial) fun _ ↦ ?_
  refine uses_bind hiface fun name ↦ uses_bind (hop _ _) fun _ ↦ ?_
  refine uses_bind (hbuf _ _ _) fun _ ↦ uses_bind (hbuf _ _ _) fun _ ↦ ?_
  refine uses_bind (hop _ _) fun _ ↦ uses_bind (hop _ _) fun _ ↦ ?_
  refine uses_bind (uses_perform trivial) fun r ↦ ?_
  split
  · exact ⟨trivial, fun _ ↦ trivial⟩
  · trivial

theorem uses_openTun (dev : Str) : (openTun dev).Uses SetupCall := by
  have hop (o : Op) (what : Str) : (attempt o what).Uses SetupCall := uses_attempt what trivial
  refine uses_bind (hop _ _) fun fd ↦ uses_bind (uses_perform trivial) fun _ ↦ ?_
  refine uses_bind (uses_copyIfName _) fun _ ↦ uses_bind (hop _ _) fun _ ↦ ?_
  exact uses_bind (hop _ _) fun _ ↦ uses_bind (hop _ _) fun _ ↦ trivial

theorem uses_configureTun (dev : Str) (mtu : ℤ) (vip : UInt32) (prefixLen : UInt8) :
    (configureTun dev mtu vip prefixLen).Uses SetupCall := by
  have hop (o : Op) (what : Str) : (attempt o what).Uses SetupCall := uses_attempt what trivial
  have hidx : (ifIndexFor dev).Uses SetupCall := by
    refine uses_bind (hop _ _) fun s ↦ uses_ensuring ?_ (uses_perform trivial)
    refine uses_bind (uses_copyIfName _) fun _ ↦ uses_bind (uses_perform trivial) fun (r, index) ↦ ?_
    exact uses_bind (uses_check r _) fun _ ↦ trivial
  have hrun (n : Netlink) (nh : NlMsg) (what : Str) : (n.run nh what >>= fun _ ↦ pure n).Uses SetupCall := by
    refine uses_bind ?_ fun _ ↦ trivial
    refine uses_bind (hop _ _) fun _ ↦ uses_bind (uses_perform trivial) fun (r, rbuf) ↦ ?_
    exact uses_bind (uses_check r _) fun _ ↦ uses_bind (hop _ _) fun _ ↦ trivial
  refine uses_bind hidx fun idx ↦ uses_bind (uses_perform trivial) fun r ↦ ?_
  cases r with
  | error e => trivial
  | ok nl =>
    refine uses_bind (uses_perform trivial) fun r ↦ ?_
    split
    · exact ⟨trivial, fun _ ↦ trivial⟩
    · refine uses_bind (uses_perform trivial) fun portId ↦ uses_ensuring ?_ (uses_perform trivial)
      exact uses_bind (hrun _ _ _) fun _ ↦ uses_bind (hrun _ _ _) fun _ ↦ uses_bind (hrun _ _ _) fun _ ↦ trivial

theorem uses_setup (cfg : Config) : (setup cfg).Uses SetupCall := by
  have htable : (createTable cfg.peers cfg.self cfg.udpRecvBuf cfg.udpSendBuf cfg.probeTimeoutMs).Uses SetupCall :=
    uses_bind (uses_mapM (fun dst ↦ uses_openUdpSocket dst _ _) _) fun _ ↦
      uses_bind (uses_perform trivial) fun _ ↦ trivial
  refine uses_bind htable fun conns ↦ uses_bind (uses_mapM uses_openTun _) fun tunFds ↦ ?_
  exact uses_bind (uses_configureTun _ _ _ _) fun _ ↦ trivial

theorem uses_dropUser (user : Option Str) : (dropUser user).Uses DropCall := by
  cases user with
  | none => trivial
  | some user =>
    refine uses_bind (uses_perform trivial) fun r ↦ ?_
    cases r with
    | none => trivial
    | some pw =>
      refine uses_bind (uses_perform trivial) fun r ↦ uses_bind (uses_checkZero r _) fun _ ↦ ?_
      refine uses_bind (uses_perform trivial) fun r ↦ uses_bind (uses_checkZero r _) fun _ ↦ ?_
      exact uses_bind (uses_perform trivial) fun r ↦ uses_checkZero r _

theorem uses_launch (cfg : Config) (conns : ConnTable) (tunFds : List ℤ) :
    (launch cfg conns tunFds).Uses LaunchCall := by
  have hspawn (r : Runnable) : (spawn r).Uses LaunchCall := by
    refine uses_bind (uses_perform trivial) fun a ↦ ?_
    cases a <;> trivial
  have hjoin (i : ℕ) : (call (.join i)).Uses LaunchCall := uses_perform trivial
  refine uses_bind (uses_perform trivial) fun _ ↦ uses_bind (uses_mapM hspawn _) fun threads ↦ ?_
  exact uses_bind (uses_mapM hjoin _) fun _ ↦ trivial

theorem uses_destroy (pool : Pool) (fds : List ℤ) : (pool.destroy fds).Uses EndCall := by
  have hrelease (fd : ℤ) : (call (.release fd)).Uses EndCall := uses_perform trivial
  exact uses_bind (uses_mapM hrelease _) fun _ ↦ trivial

/-- The parts of a run: what it has read, what it has built, and its calls. -/
structure Parts where
  path : Str
  text : Str
  cfg : Config
  conns : ConnTable
  tunFds : List ℤ
  setupTr : List Event
  dropTr : List Event
  launchTr : List Event
  endTr : List Event

/-- A run of the program that has come to its threads. -/
structure Launched (stl : Stl) (args : List Str) (p : Parts) (tr : List Event) : Prop where
  path : configPath args [] = some p.path
  config : loadConfig stl p.text = .ok p.cfg
  calls : tr = [⟨.ignoreSigPipe, ()⟩, ⟨.readFile p.path, .ok p.text⟩] ++ p.setupTr ++ p.dropTr ++ p.launchTr ++
    p.endTr
  setup : Runs (setup p.cfg) p.setupTr (.done (p.conns, p.tunFds))
  drop : Runs (dropUser p.cfg.user) p.dropTr (.done ())
  launch : ∃ o, Runs (launch p.cfg p.conns p.tunFds) p.launchTr o
  ended : ∀ e ∈ p.endTr, EndCall e.1

section Launched

variable {stl : Stl} {args : List Str} {p : Parts} {tr : List Event}

theorem Launched.readFile (h : Launched stl args p tr) : ⟨.readFile p.path, .ok p.text⟩ ∈ tr := by
  rw [h.calls]
  simp only [List.append_assoc]
  exact List.mem_cons_of_mem _ List.mem_cons_self

theorem Launched.setupCall (h : Launched stl args p tr) : ∀ e ∈ p.setupTr, SetupCall e.1 :=
  uses_runs (uses_setup p.cfg) h.setup

theorem Launched.launchCall (h : Launched stl args p tr) : ∀ e ∈ p.launchTr, LaunchCall e.1 := by
  obtain ⟨o, hrun⟩ := h.launch
  exact uses_runs (uses_launch _ _ _) hrun

end Launched

theorem load_done {stl : Stl} {path : Str} {tr : List Event} {cfg : Config} (h : Runs (load stl path) tr (.done cfg)) :
    ∃ text, loadConfig stl text = .ok cfg ∧ tr = [⟨.readFile path, .ok text⟩] := by
  obtain ⟨r, tr₂, rfl, h₂⟩ := call_done h
  obtain ⟨text, tr₃, tr₄, hread, h₃, rfl⟩ := runs_bind_done h₂
  cases r with
  | error e => cases hread
  | ok text =>
    cases hread
    split at h₃
    · cases h₃
    · rename_i hcfg
      cases h₃
      exact ⟨text, hcfg, rfl⟩

theorem not_spawn {α : Type} {P : Call → Prop} {p : Sys α} (hp : p.Uses P) (hP : ∀ r, ¬ P (.spawn r))
    {tr : List Event} {o : Outcome Stop α} (h : Runs p tr o) {r : Runnable} {a : Answer (.spawn r)}
    (hs : ⟨.spawn r, a⟩ ∈ tr) : False :=
  hP r (uses_runs hp h _ hs)

/-- A part that has not started a thread must have been gone through. -/
theorem through {α β : Type} {P : Call → Prop} {p : Sys α} {f : α → Sys β} (hp : p.Uses P) (hP : ∀ r, ¬ P (.spawn r))
    {tr : List Event} {o : Outcome Stop β} (h : Runs (p >>= f) tr o) {r : Runnable} {a : Answer (.spawn r)}
    (hs : ⟨.spawn r, a⟩ ∈ tr) : ∃ b tr₁ tr₂, Runs p tr₁ (.done b) ∧ Runs (f b) tr₂ o ∧ tr = tr₁ ++ tr₂ ∧
      ⟨.spawn r, a⟩ ∈ tr₂ := by
  rcases runs_bind h with ⟨o', hrun, -⟩ | ⟨b, tr₁, tr₂, h₁, h₂, rfl⟩
  · exact (not_spawn hp hP hrun hs).elim
  · refine ⟨b, tr₁, tr₂, h₁, h₂, rfl, (List.mem_append.mp hs).resolve_left fun hs ↦ not_spawn hp hP h₁ hs⟩

theorem uses_load (stl : Stl) (path : Str) : (load stl path).Uses LoadCall := by
  refine uses_bind (uses_perform trivial) fun r ↦ ?_
  cases r with
  | error e => trivial
  | ok text =>
    refine uses_bind trivial fun text ↦ ?_
    split <;> trivial

theorem main_launched {stl : Stl} {pool : Pool} {args : List Str} {tr : List Event} {o : Outcome Empty ℕ}
    (h : Runs (main stl pool args) tr o) {r : Runnable} {a : Answer (.spawn r)} (hs : ⟨.spawn r, a⟩ ∈ tr) :
    ∃ p, Launched stl args p tr := by
  obtain ⟨tr₁, tr₂, o₁, hrun, rfl, htail⟩ := runs_handle h
  have hreport : ∀ e ∈ tr₂, EndCall e.1 := by
    rcases htail with rfl | ⟨e, -, hhandler⟩
    · exact fun _ h ↦ absurd h List.not_mem_nil
    · refine uses_runs ?_ hhandler
      cases e with
      | exit code => trivial
      | thrown e => exact ⟨trivial, fun _ ↦ trivial⟩
  have hs₁ : ⟨.spawn r, a⟩ ∈ tr₁ := (List.mem_append.mp hs).resolve_right fun hs ↦ hreport _ hs
  obtain ⟨o₂, hrun⟩ : ∃ o₂, Runs (run stl pool args) tr₁ o₂ := by
    rcases runs_bind hrun with ⟨o', h', -⟩ | ⟨_, _, tr', h', hret, rfl⟩
    · exact ⟨o', h'⟩
    · cases hret <;> exact ⟨_, (List.append_nil _).substr h'⟩
  rw [run] at hrun
  cases hpath : configPath args [] with
  | none =>
    rw [hpath] at hrun
    have huses : (usage : Sys Unit).Uses LoadCall := ⟨trivial, fun _ ↦ trivial⟩
    exact (not_spawn huses (fun _ h ↦ h) hrun hs₁).elim
  | some path =>
    rw [hpath] at hrun
    obtain ⟨scopeTr, rfl, hrun, hs₁⟩ : ∃ scopeTr, tr₁ = ⟨.ignoreSigPipe, ()⟩ :: scopeTr ∧
        Runs (withPool pool (load stl path >>= start)) scopeTr o₂ ∧ ⟨.spawn r, a⟩ ∈ scopeTr := by
      cases hrun with
      | pause => exact absurd hs₁ List.not_mem_nil
      | call _ hrun => exact ⟨_, rfl, hrun, (List.mem_cons.mp hs₁).resolve_left nofun⟩
    obtain ⟨bodyTr, poolTr, o₃, hbody, rfl, hpool⟩ := runs_inScope hrun
    have hrelease : ∀ e ∈ poolTr, EndCall e.1 := by
      rcases hpool with rfl | ⟨o₄, hdestroy⟩
      · exact fun _ h ↦ absurd h List.not_mem_nil
      · exact uses_runs (uses_destroy pool _) hdestroy
    have hs₀ := (List.mem_append.mp hs₁).resolve_right fun hs ↦ hrelease _ hs
    obtain ⟨cfg, loadTr, startTr, hload, hstart, rfl, hs₂⟩ :=
      @through _ _ _ (load stl path) start (uses_load stl path) (fun _ h ↦ h) _ _ hbody _ _ hs₀
    obtain ⟨⟨conns, tunFds⟩, setupTr, tr', hsetup, hdrop', rfl, hs₃⟩ :=
      through (uses_setup cfg) (fun _ h ↦ h) hstart hs₂
    obtain ⟨_, dropTr, launchTr, hdrop, hlaunch, rfl, -⟩ := through (uses_dropUser cfg.user) (fun _ h ↦ h) hdrop' hs₃
    obtain ⟨text, hcfg, rfl⟩ := load_done hload
    refine ⟨⟨path, text, cfg, conns, tunFds, setupTr, dropTr, launchTr, poolTr ++ tr₂⟩, hpath, hcfg, ?_, hsetup, hdrop,
      ⟨_, hlaunch⟩, List.forall_mem_append.mpr ⟨hrelease, hreport⟩⟩
    simp only [List.append_assoc, List.cons_append, List.nil_append]

end Gofra.Phases
