import EbpfLoadBalancer.Balancer.Jobs

/-!
# Balancer — the queue

Late registrations make jobs overtake the queue, but within the queue the order is kept, in every
run whose tails grow: each completion of a registered backend that finds a job waiting takes the
oldest, and nothing else takes any.  So a job leaves with exactly the completion that its place in
the queue says (`queue_in_turn`).
-/

namespace EbpfLb
open Bpf

/-- The job a ping takes off the queue. -/
def drainedJobs (m : Maps) (i : Input) : List U64 :=
  if IsPing i.frame.bytes ∧ (lb.out m i).verdict = .tx then [payload64 (lb.out m i).frame] else []

/-- The job that joins the queue. -/
def waitingJobs (m : Maps) (i : Input) : List U64 :=
  if IsJob i.frame.bytes ∧ Exhausted m.servers ∧ m.queue.items.length < maxQueue then
    [payload64 i.frame.bytes]
  else []

/-- The ping is a completion, and a job is waiting. -/
def Relieves (m : Maps) (i : Input) : Prop :=
  IsPing i.frame.bytes ∧ m.queue.items ≠ [] ∧
    ∃ k : Slot, m.keyOf (ipSaddr i.frame.bytes) = slotKey k ∧ (m.servers k).saddr ≠ 0#32

instance (m : Maps) (i : Input) : Decidable (Relieves m i) :=
  inferInstanceAs (Decidable (_ ∧ _ ∧ ∃ _ : Slot, _ ∧ _))

/-- The completions of the run that find a job waiting. -/
def relieving (m : Maps) (is : List Input) : List Input :=
  lb.collect (fun m i => if Relieves m i then [i] else []) m is

section
variable {m : Maps} {i : Input}

/-- A step takes jobs off the front of the queue and adds some at its back. -/
theorem queue_step (hm : CreditBound m) (ht : i.tail ≠ none) :
    drainedJobs m i ++ (lb.step m i).queue.items = m.queue.items ++ waitingJobs m i := by
  have hmv : Move i.tail m i.frame (lb.out m i) := loadBalancer_move i.tail i.frame hm
  rw [drainedJobs, waitingJobs, show lb.step m i = (lb.out m i).maps from rfl]
  generalize lb.out m i = o at hmv
  cases hmv with
  | other hp hj => simp [hp, hj]
  | refuse hp | register _ hp | done _ hp => simp [hp.not_isJob]
  | drain k j v rest bs hp hk hr hq =>
      simp [hp, hp.not_isJob, payload64_drained hp, hq]
  | stuck _ _ _ _ _ ht' => exact absurd ht' ht
  | send k hj hk =>
      have hp : ¬ IsPing i.frame.bytes := fun hp => hp.not_isJob hj
      simp [hp, hk.not_exhausted]
  | wait hj he =>
      have hp : ¬ IsPing i.frame.bytes := fun hp => hp.not_isJob hj
      simp only [hp, hj, he, false_and, if_false, true_and, List.nil_append, Maps.pushed_queue,
        QueueMap.items_push]
      split <;> simp

/-- It takes one off exactly when a completion finds one waiting. -/
theorem length_drainedJobs (hm : CreditBound m) (ht : i.tail ≠ none) :
    (drainedJobs m i).length = (if Relieves m i then [i] else []).length := by
  have hmv : Move i.tail m i.frame (lb.out m i) := loadBalancer_move i.tail i.frame hm
  have hslot : ∀ {j k : Slot}, m.keyOf (ipSaddr i.frame.bytes) = slotKey j →
      m.keyOf (ipSaddr i.frame.bytes) = slotKey k → j = k := fun hj hk =>
    slotKey_injective (hj.symm.trans hk)
  rw [drainedJobs]
  generalize lb.out m i = o at hmv
  cases hmv with
  | other hp =>
      rw [if_neg fun h => hp h.1, if_neg fun h => hp h.1]
      rfl
  | refuse _ hk =>
      rw [if_neg (by simp), if_neg fun ⟨_, _, k, hk', _⟩ => ne_slotKey_of_past hk k hk']
      rfl
  | register k _ hk h₀ =>
      rw [if_neg (by simp), if_neg fun ⟨_, _, j, hj, hr⟩ => hr (hslot hk hj ▸ h₀)]
      rfl
  | done _ _ _ _ hq =>
      rw [if_neg (by simp), if_neg fun ⟨_, hne, _⟩ => hne hq]
      rfl
  | drain k j v rest bs hp hk hr hq =>
      have hrel : Relieves m i := ⟨hp, by simp [hq], k, hk, hr⟩
      simp [hp, hrel]
  | stuck _ _ _ _ _ ht' => exact absurd ht' ht
  | send _ hj | wait hj =>
      rw [if_neg fun h => h.1.not_isJob hj, if_neg fun h => h.1.not_isJob hj]
      rfl

end

theorem queue_run {m : Maps} (hm : CreditBound m) {is : List Input}
    (ht : ∀ i ∈ is, i.tail ≠ none) :
    lb.collect drainedJobs m is ++ (lb.after m is).queue.items =
        m.queue.items ++ lb.collect waitingJobs m is ∧
      (lb.collect drainedJobs m is).length = (relieving m is).length := by
  induction is generalizing m with
  | nil => simp [Machine.collect, relieving]
  | cons i is ih =>
      obtain ⟨hq, hl⟩ := ih (creditBound_step i hm) fun j hj => ht j (by simp [hj])
      have hstep := queue_step hm (ht i (by simp))
      have hone := length_drainedJobs hm (ht i (by simp))
      simp only [relieving, Machine.collect, Machine.after_cons, List.length_append] at hl ⊢
      refine ⟨?_, by rw [hone, hl]⟩
      rw [List.append_assoc, hq, ← List.append_assoc, hstep, List.append_assoc]

/-- **Every job waits its turn.**  When every tail grows, whoever registers when: after `n`
completions that found a job waiting, the jobs they have sent are the first `n` that had to wait, in
the order they came, and the queue is the rest. -/
theorem queue_in_turn {is : List Input} (ht : ∀ i ∈ is, i.tail ≠ none) :
    lb.collect drainedJobs Maps.empty is =
        (lb.collect waitingJobs Maps.empty is).take (relieving Maps.empty is).length ∧
      (lb.after Maps.empty is).queue.items =
        (lb.collect waitingJobs Maps.empty is).drop (relieving Maps.empty is).length := by
  obtain ⟨hq, hl⟩ := queue_run creditBound_empty ht
  have h₀ : Maps.empty.queue.items = [] := rfl
  rw [h₀, List.nil_append] at hq
  rw [← hl, ← hq, List.take_left, List.drop_left]
  exact ⟨rfl, rfl⟩

theorem queue_in_turn_mixedRun :
    lb.collect drainedJobs Maps.empty mixedRun =
        (lb.collect waitingJobs Maps.empty mixedRun).take (relieving Maps.empty mixedRun).length ∧
      (lb.after Maps.empty mixedRun).queue.items =
        (lb.collect waitingJobs Maps.empty mixedRun).drop
          (relieving Maps.empty mixedRun).length :=
  queue_in_turn growing_mixedRun

end EbpfLb
