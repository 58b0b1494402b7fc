import EbpfLoadBalancer.Balancer.Spread
import EbpfLoadBalancer.Protocol.Losses

/-!
# Protocol — jobs join the shortest queue

The balancer sees no server's queue, only the credits it keeps.  As long as no process dies, the
balancer is not reloaded and no message is doubled, these are what the jobs on a host's hands leave
of `MAX_THREADS` (`Faulty.load`): in flight to it, at its process, or answered by a `'D'` in flight,
and all those that it never will answer or whose `'D'` never will arrive.  So the host with the most
credits is the one with the fewest of them (`joins_shortest_queue`).
-/

namespace EbpfLb
open Bpf

variable {D : Deployment}

/-- The jobs on the hands of `h`, as far as the balancer can know. -/
def Faulty.load (s : Faulty D) (h : Fin D.hosts) : Nat :=
  s.system.inFlight h + s.system.held h + s.system.failures h + s.system.answers h + s.losses h

theorem Undisturbed.load {s : Faulty D} (hu : Undisturbed s.shadow) {k : Slot} {h : Fin D.hosts}
    (hk : (s.system.maps.servers k).saddr = D.addr h) :
    (s.system.maps.servers k).freeThreads.toNat + s.load h = maxThreads.toNat := by
  have hsum := hu.losses hk
  rw [Faulty.load]
  omega

/-- **A job joins the shortest queue.**  When no process has died, the balancer has not been
reloaded and no message has been doubled, whatever sleeps have raised, frames not grown and messages
been dropped: when the balancer sends a job to a host, straight or off its queue, the host has
afterwards at most one job more on its hands than any registered host, and at most `MAX_THREADS`. -/
theorem joins_shortest_queue {es : List (FaultyEvent D)} (hl : ∀ e ∈ es, e.Lossy) {m : Msg D}
    {f : Frame} {tail : Vector U8 7} (hm : m ∈ ((faulty D).after .initial es).system.net)
    (hf : m.toBalancer = some f) {h : Fin D.hosts}
    (ht : (loadBalancer (some tail) ((faulty D).after .initial es).system.maps f).verdict = .tx)
    (hto : ipDaddr
      (loadBalancer (some tail) ((faulty D).after .initial es).system.maps f).frame = D.addr h) :
    ((faulty D).after .initial (es ++ [.event (.balance m tail)])).load h ≤ maxThreads.toNat ∧
    ∀ g, Registered ((faulty D).after .initial (es ++ [.event (.balance m tail)])).system.maps
        (D.addr g) →
      ((faulty D).after .initial (es ++ [.event (.balance m tail)])).load h ≤
        ((faulty D).after .initial (es ++ [.event (.balance m tail)])).load g + 1 := by
  have hu : Undisturbed ((faulty D).after .initial (es ++ [.event (.balance m tail)])).shadow := by
    refine undisturbed_after fun e he => ?_
    rcases List.mem_append.mp he with he | he
    · exact hl e he
    · rw [List.mem_singleton.mp he]
      exact trivial
  have hbound := (sound_faulty es).bound_revived
  obtain ⟨k, hk, hmax⟩ := (loadBalancer_move (some tail) f hbound).tx_level ht
  rw [hto] at hk
  have hmaps : ((faulty D).after .initial (es ++ [.event (.balance m tail)])).system.maps =
      (loadBalancer (some tail) ((faulty D).after .initial es).system.maps f).maps := by
    rw [Machine.after_snoc, faulty_system, System.stepFaulty_balances rfl hf hm,
      System.balanced_maps]
  rw [← hmaps] at hk hmax
  have hload := hu.load hk
  refine ⟨by omega, ?_⟩
  rintro g ⟨j, hj⟩
  have hgload := hu.load hj
  have hle := hmax j (by rw [hj]; exact D.nonzero g)
  omega

/-- One job has failed, another one has been dropped, and a third one reaches the balancer. -/
def thirdJob : List (FaultyEvent oneHost) := lossyRun 1 ++ [.event (.client fourSeconds)]

theorem joins_shortest_queue_thirdJob :
    ((faulty oneHost).after .initial
        (thirdJob ++ [.event (.balance (.job fourSeconds) zeros)])).load host ≤
      maxThreads.toNat ∧
    ∀ g, Registered ((faulty oneHost).after .initial
        (thirdJob ++ [.event (.balance (.job fourSeconds) zeros)])).system.maps
          (oneHost.addr g) →
      ((faulty oneHost).after .initial
          (thirdJob ++ [.event (.balance (.job fourSeconds) zeros)])).load host ≤
        ((faulty oneHost).after .initial
          (thirdJob ++ [.event (.balance (.job fourSeconds) zeros)])).load g + 1 :=
  joins_shortest_queue (f := fourSeconds.frame) (by decide +kernel) (by decide +kernel) rfl
    (by decide +kernel) (by decide +kernel)

end EbpfLb
