import Gofra.Phases

namespace Gofra.Privileges

open Lib.Calls Addr NumericStl Conns Settings Kernel Startup Phases

/-- The calls for which a process needs rights that an ordinary user does not have. -/
def privileged : Call → Bool
  | .op .openTun | .op (.tunIoctl ..) | .op (.mnlSendto ..) | .cred _ => true
  | .op (.setsockopt _ (.bindToDevice _)) => true
  | .op (.setsockopt _ (.rcvBufForce _)) | .op (.setsockopt _ (.sndBufForce _)) => true
  | _ => false

/-- The run has become `user` before its first thread, group by group and for
good, and has needed its rights only before. -/
def Separated (user : Str) (tr : List Event) : Prop :=
  ∃ (pre post : List Event) (pw : Passwd) (groups gid uid : Ret),
    tr = pre ++ [⟨.getpwnam (cStr user), some pw⟩, ⟨.cred (.setgroups 0), groups⟩, ⟨.cred (.setresgid pw.gid), gid⟩,
      ⟨.cred (.setresuid pw.uid), uid⟩] ++ post ∧
    groups.ret = 0 ∧ gid.ret = 0 ∧ uid.ret = 0 ∧ (∀ e ∈ pre, ∀ r, e.1 ≠ .spawn r) ∧
    ∀ e ∈ post, privileged e.1 = false

theorem dropPrivs_done {user : Str} {tr : List Event} (h : Runs (dropPrivs user) tr (.done ())) :
    ∃ (pw : Passwd) (groups gid uid : Ret), groups.ret = 0 ∧ gid.ret = 0 ∧ uid.ret = 0 ∧
      tr = [⟨.getpwnam (cStr user), some pw⟩, ⟨.cred (.setgroups 0), groups⟩, ⟨.cred (.setresgid pw.gid), gid⟩,
        ⟨.cred (.setresuid pw.uid), uid⟩] := by
  obtain ⟨r, tr₁, rfl, h₁⟩ := call_done h
  cases r with
  | none => cases h₁
  | some pw =>
    obtain ⟨groups, tr₂, rfl, h₂⟩ := call_done h₁
    obtain ⟨hgroups, h₃⟩ := checkZero_done h₂
    obtain ⟨gid, tr₃, rfl, h₄⟩ := call_done h₃
    obtain ⟨hgid, h₅⟩ := checkZero_done h₄
    obtain ⟨uid, tr₄, rfl, h₆⟩ := call_done h₅
    rw [← bind_pure (checkZero _ _)] at h₆
    obtain ⟨huid, h₇⟩ := checkZero_done h₆
    cases h₇
    exact ⟨pw, groups, gid, uid, hgroups, hgid, huid, rfl⟩

/-- With a user in the configuration, no thread runs with the rights that the
program has been started with. -/
theorem main_separated {stl : Stl} {pool : Pool} {args : List Str} {tr : List Event} {o : Outcome Empty ℕ}
    (h : Runs (main stl pool args) tr o) {r : Runnable} {a : Answer (.spawn r)} (hs : ⟨.spawn r, a⟩ ∈ tr) :
    ∃ path text cfg, configPath args [] = some path ∧ ⟨.readFile path, .ok text⟩ ∈ tr ∧
      loadConfig stl text = .ok cfg ∧ ∀ user, cfg.user = some user → Separated user tr := by
  obtain ⟨p, hp⟩ := main_launched h hs
  refine ⟨p.path, p.text, p.cfg, hp.path, hp.readFile, hp.config, fun user huser ↦ ?_⟩
  have hdrop := hp.drop
  rw [huser] at hdrop
  obtain ⟨pw, groups, gid, uid, hgroups, hgid, huid, hcalls⟩ := dropPrivs_done hdrop
  have htr := hp.calls
  rw [hcalls, List.append_assoc (_ ++ _)] at htr
  refine ⟨_, _, pw, groups, gid, uid, htr, hgroups, hgid, huid, fun e he r hr ↦ ?_, fun e he ↦ ?_⟩
  · rcases List.mem_append.mp he with he | he
    · simp only [List.mem_cons, List.not_mem_nil, or_false] at he
      rcases he with rfl | rfl <;> cases hr
    · have hset := hp.setupCall e he
      rw [hr] at hset
      exact hset
  · rcases List.mem_append.mp he with he | he
    · have hlaunch := hp.launchCall e he
      cases hc : e.1 <;> rw [hc] at hlaunch <;> first | rfl | exact hlaunch.elim
    · have hended := hp.ended e he
      cases hc : e.1 <;> rw [hc] at hended <;> first | rfl | exact hended.elim

def readsSample : Event → Bool
  | ⟨.readFile _, .ok text⟩ => text = sampleText
  | _ => true

theorem main_separated_nobody : ∃ tr, Runs (main numericStl stackPool sampleArgs) tr (.done 0) ∧
    Separated (str "nobody") tr := by
  have hrun := runs_exec agreeable (main numericStl stackPool sampleArgs) []
  have hexec : (exec agreeable (main numericStl stackPool sampleArgs) []).2 = .ok 0 ∧
      (exec agreeable (main numericStl stackPool sampleArgs) []).1.any (fun e ↦ e.1 = .spawn (.prober 200)) = true ∧
      (exec agreeable (main numericStl stackPool sampleArgs) []).1.all readsSample = true := by decide +kernel
  obtain ⟨hcode, hspawn, hread⟩ := hexec
  have huser : (loadConfig numericStl sampleText).toOption.map Config.user = some (some (str "nobody")) := by
    decide +kernel
  rw [hcode] at hrun
  obtain ⟨⟨c, a⟩, hmem, hc⟩ := List.any_eq_true.mp hspawn
  obtain rfl : c = .spawn (.prober 200) := of_decide_eq_true hc
  obtain ⟨path, text, cfg, -, hfile, hcfg, hsep⟩ := main_separated hrun hmem
  obtain rfl : text = sampleText := of_decide_eq_true (List.all_eq_true.mp hread _ hfile)
  rw [hcfg] at huser
  exact ⟨_, hrun, hsep _ (Option.some.inj huser)⟩

end Gofra.Privileges
