import EbpfLoadBalancer.Balancer.Credits
import EbpfLoadBalancer.Balancer.Datagram

/-!
# Balancer — a completion that finds a job waiting

The oldest job leaves the queue inside the ping that completed another: the frame grows by seven
bytes, the job is popped, and then the payload's bounds are checked.  When the frame has not grown
the check fails with the job already popped, and it is gone (`completion_loses_job`).  That is the
only way to lose it: a ping that does not send keeps the queue exactly when its tail grows or it
takes the registration branch (`keeps_jobs_iff`).
-/

namespace EbpfLb
open Bpf

/-- Unless the step on `i` from `m` sends, the queue stays as it is and nobody is charged. -/
def KeepsJobs (m : Maps) (i : Input) : Prop :=
  (lb.out m i).verdict ≠ .tx →
    (lb.out m i).maps.queue = m.queue ∧ ∀ key info, .charge key info ∉ (lb.out m i).trace

section
variable {m : Maps} {i : Input}

theorem registers_iff_not_occupied (hp : IsPing i.frame.bytes) :
    Registers m i.frame.bytes ↔ ∀ k : Slot, m.keyOf (ipSaddr i.frame.bytes) = slotKey k →
      (m.servers k).saddr = 0#32 := by
  constructor
  · rintro ⟨-, hpast | ⟨j, hj, h₀⟩⟩ k hk
    · exact absurd hk (ne_slotKey_of_past hpast k)
    · obtain rfl := slotKey_injective (hj.symm.trans hk)
      exact h₀
  · intro h
    refine ⟨hp, ?_⟩
    rcases Nat.lt_or_ge (m.keyOf (ipSaddr i.frame.bytes)).toNat maxServers with hlt | hge
    · obtain ⟨k, hk⟩ := exists_slotKey hlt
      exact .inr ⟨k, hk, h k hk⟩
    · exact .inl hge

/-- A ping's move, with jobs waiting. -/
theorem Move.keepsJobs_iff (hp : IsPing i.frame.bytes) (hq : m.queue.items ≠ [])
    (hmv : Move i.tail m i.frame (lb.out m i)) :
    KeepsJobs m i ↔ i.tail ≠ none ∨ Registers m i.frame.bytes := by
  rw [KeepsJobs, registers_iff_not_occupied hp]
  generalize lb.out m i = o at hmv
  cases hmv with
  | other hp' => exact absurd hp hp'
  | send _ hj | wait hj => exact absurd hj hp.not_isJob
  | done k _ hk hr hq' => exact absurd hq' hq
  | refuse _ hk =>
      refine iff_of_true (fun _ => ?_) (.inr fun k h => absurd h (ne_slotKey_of_past hk k))
      simp
  | register k _ hk h₀ =>
      refine iff_of_true (fun _ => ?_) (.inr fun j hj => ?_)
      · simp
      · obtain rfl := slotKey_injective (hk.symm.trans hj)
        exact h₀
  | drain k j v rest bs _ hk hr hq' ht hj =>
      refine iff_of_true (fun h => absurd rfl h) (.inl ?_)
      rw [ht]
      exact Option.some_ne_none bs
  | stuck k _ hk hr hq' ht =>
      refine iff_of_false (fun h => ?_) ?_
      · -- the queue is one shorter
        have hlen := congrArg (fun q => q.items.length) (h nofun).1
        simp only [Maps.popped_items, Maps.credit_queue, Maps.note_queue, List.length_tail] at hlen
        have hpos := List.length_pos_iff.mpr hq
        omega
      · rintro (h | h)
        · exact h ht
        · exact hr (h k hk)

end

/-- **A failed dispatch loses no job, except when the frame does not grow.**  In every reachable
state with jobs waiting, a ping that is not answered with `XDP_TX` leaves the queue as it is and
charges nobody exactly when its tail grows or it takes the registration branch. -/
theorem keeps_jobs_iff (is : List Input) {i : Input} (hp : IsPing i.frame.bytes)
    (hq : (lb.after Maps.empty is).queue.items ≠ []) :
    KeepsJobs (lb.after Maps.empty is) i ↔
      i.tail ≠ none ∨ Registers (lb.after Maps.empty is) i.frame.bytes :=
  Move.keepsJobs_iff hp hq (lb_move is i)

/-- A job waits, and then a host registers. -/
def waitingRun : List Input := [growing (jobOf 7#64), growing (pingFrom 1#32)]

theorem queue_waitingRun : (lb.after Maps.empty waitingRun).queue.items ≠ [] := by decide +kernel

/-- The host's completion, in a frame that does not grow. -/
def stuckPing : Input := ⟨pingFrom 1#32, none⟩

theorem keeps_jobs_iff_waitingRun :
    KeepsJobs (lb.after Maps.empty waitingRun) stuckPing ↔
      stuckPing.tail ≠ none ∨ Registers (lb.after Maps.empty waitingRun) stuckPing.frame.bytes :=
  keeps_jobs_iff waitingRun (isPing_pingFrom 1#32) queue_waitingRun

/-- The completion of a registered host takes the waiting job off the queue and sends nothing. -/
theorem completion_loses_job :
    ¬ ∀ (is : List Input) (i : Input) (k : Slot), IsPing i.frame.bytes →
      (lb.after Maps.empty is).queue.items ≠ [] →
      ((lb.after Maps.empty is).servers k).saddr = ipSaddr i.frame.bytes →
      ipSaddr i.frame.bytes ≠ 0#32 → KeepsJobs (lb.after Maps.empty is) i := by
  intro h
  have hsrc : ipSaddr stuckPing.frame.bytes = 1#32 := ipSaddr_pingFrom _
  have hk : ((lb.after Maps.empty waitingRun).servers 0).saddr = 1#32 := by decide +kernel
  have hkeep := h waitingRun stuckPing 0 (isPing_pingFrom _) queue_waitingRun (hk.trans hsrc.symm)
    (by rw [hsrc]; decide)
  have htx : (lb.out (lb.after Maps.empty waitingRun) stuckPing).verdict ≠ .tx := by decide +kernel
  have hempty : (lb.out (lb.after Maps.empty waitingRun) stuckPing).maps.queue.items = [] := by
    decide +kernel
  refine queue_waitingRun ?_
  rw [← (hkeep htx).1]
  exact hempty

end EbpfLb
