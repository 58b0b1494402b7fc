import EbpfLoadBalancer.Protocol.Conservation

/-!
# Protocol — restarts

A process that starts again sends an `'S'` as the first one did, and the balancer, which still
has its host on record, takes it for a completion: it adds one credit, whatever became of the jobs
the last process held.  So with a job in flight the credits can come to more than `MAX_THREADS`
(`restart_overbooks`), and jobs that died with a process are never given back.  A reloaded balancer
hands out `MAX_THREADS` credits to a host that may still have jobs.

What holds across restarts is the auditor's inequalities: at most `MAX_THREADS` and the surplus,
and, once nothing is outstanding, between `MAX_THREADS` less the jobs lost and `MAX_THREADS`
(`credits_across_restarts`).
-/

namespace EbpfLb
open Bpf

variable {D : Deployment}

/-- A `'D'` of the process number `gen` at `h`. -/
def Msg.isDoneOf (h : Fin D.hosts) (gen : Nat) : Msg D → Bool
  | ping p => p.host = h ∧ p.gen = gen ∧ p.byte = byteD
  | _ => false

namespace System

/-- The `'D'`s in flight of the current process at `h`. -/
def dones (s : System D) (h : Fin D.hosts) : Nat := s.net.countP fun m => m.isDoneOf h (s.gen h)

/-- No message to or from `h` is in flight, its `'S'` is sent and its process has no job. -/
def Quiet (s : System D) (h : Fin D.hosts) : Prop :=
  s.inFlight h = 0 ∧ s.pings h = 0 ∧ s.pending h = 0 ∧ s.held h = 0

theorem dones_le_pings (s : System D) (h : Fin D.hosts) : s.dones h ≤ s.pings h := by
  refine countP_mono (fun m hm => ?_) s.net
  cases m with
  | ping p =>
      simp only [Msg.isDoneOf, decide_eq_true_eq] at hm
      simpa using hm.1
  | job | dispatch => cases hm

end System

/-- **Credits across restarts.**  Whatever dies, starts and is reloaded: for a registered host,
its credits, the jobs in flight to it, the jobs its process holds and the `'D'`s in flight of that
process are at most `MAX_THREADS` and the surplus; and when nothing is outstanding its credits are
at most `MAX_THREADS`, and short of it by the jobs lost at most. -/
theorem credits_across_restarts (es : List (Event D)) {k : Slot} {h : Fin D.hosts}
    (hk : (((protocol D).after .initial es).maps.servers k).saddr = D.addr h) :
    (((protocol D).after .initial es).maps.servers k).freeThreads.toNat +
        ((protocol D).after .initial es).inFlight h + ((protocol D).after .initial es).held h +
        ((protocol D).after .initial es).dones h ≤
      maxThreads.toNat + ((audited D).after auditedInitial es).2.surplus h ∧
    (((protocol D).after .initial es).Quiet h →
      maxThreads.toNat ≤ (((protocol D).after .initial es).maps.servers k).freeThreads.toNat +
          ((audited D).after auditedInitial es).2.lost h ∧
        (((protocol D).after .initial es).maps.servers k).freeThreads.toNat ≤
          maxThreads.toNat) := by
  obtain ⟨hs, ha⟩ := audited_after (D := D) es
  generalize ((audited D).after auditedInitial es).2 = a at ha
  rw [audited_fst] at hs ha
  have hfst : (auditedInitial : System D × Audit D).1 = .initial := rfl
  rw [hfst] at hs ha
  generalize (protocol D).after .initial es = s at hs ha hk
  have hup := ha.upper k h hk
  have hlow := ha.lower k h hk
  have hle := s.dones_le_pings h
  rw [System.outstanding] at hup
  refine ⟨by omega, fun hq => ⟨?_, hs.bound k⟩⟩
  obtain ⟨hin, hp, -, hh⟩ := hq
  omega

/-- A job is sent to the host, its process dies, and the next one's `'S'` arrives. -/
def restartRun : List (Event oneHost) :=
  registerAndSend ++
    [.die host, .start host, .main host (pingOf byteS 1#32),
      .balance (.ping (pingAt 2 byteS)) zeros]

theorem registered_restartRun :
    (((protocol oneHost).after .initial restartRun).maps.servers 0).saddr = oneHost.addr host := by
  decide +kernel

theorem credits_across_restarts_restartRun :
    (((protocol oneHost).after .initial restartRun).maps.servers 0).freeThreads.toNat +
        ((protocol oneHost).after .initial restartRun).inFlight host +
        ((protocol oneHost).after .initial restartRun).held host +
        ((protocol oneHost).after .initial restartRun).dones host ≤
      maxThreads.toNat + ((audited oneHost).after auditedInitial restartRun).2.surplus host ∧
    (((protocol oneHost).after .initial restartRun).Quiet host →
      maxThreads.toNat ≤
          (((protocol oneHost).after .initial restartRun).maps.servers 0).freeThreads.toNat +
            ((audited oneHost).after auditedInitial restartRun).2.lost host ∧
        (((protocol oneHost).after .initial restartRun).maps.servers 0).freeThreads.toNat ≤
          maxThreads.toNat) :=
  credits_across_restarts restartRun registered_restartRun

/-- After a restart five credits stand beside a job in flight. -/
theorem restart_overbooks :
    ¬ ∀ (D : Deployment) (es : List (Event D)) (k : Slot) (h : Fin D.hosts),
      (((protocol D).after .initial es).maps.servers k).saddr = D.addr h →
        (((protocol D).after .initial es).maps.servers k).freeThreads.toNat +
            ((protocol D).after .initial es).inFlight h + ((protocol D).after .initial es).held h +
            ((protocol D).after .initial es).dones h ≤ maxThreads.toNat ∧
        (((protocol D).after .initial es).Quiet h →
          (((protocol D).after .initial es).maps.servers k).freeThreads.toNat =
            maxThreads.toNat) := by
  intro hall
  have hsum := (hall oneHost restartRun 0 host registered_restartRun).1
  exact absurd hsum (by decide +kernel)

end EbpfLb
