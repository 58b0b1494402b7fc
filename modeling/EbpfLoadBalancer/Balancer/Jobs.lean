import EbpfLoadBalancer.Balancer.Dispatching

/-!
# Balancer — what becomes of a job

The dispatcher's guarantees, read back on frames.  Every run whose tails grow keeps the balance
of its jobs: what came in is what went out, what waits in the queue, and what a full queue
refused (`jobs_conserved`).  No job waits beside a free credit exactly as long as no host
registers while jobs wait (`work_conserving_iff`): the completion branch takes the oldest job off
the queue, the registration branch adds five credits and takes off none.  And when the hosts
register before the first job, the jobs leave in the order they came (`jobs_in_order`).
-/

namespace EbpfLb
open Bpf
open Dispatch (Event)

/-- Any run, without a condition on its steps. -/
theorem run_simulates_any {is : List Input} (ht : ∀ i ∈ is, i.tail ≠ none) :
    ∃ es, RunSimulates (fun _ _ => True) Maps.empty is es :=
  run_simulates (C := fun _ _ => True) (fun _ _ => trivial) creditBound_empty ht
    (lb.along_of_forall (C := fun _ => True) (fun _ _ => trivial) _)

/-! ### Balance -/

/-- **Job conservation.**  When every tail grows, the jobs received are the payloads sent out,
the values still in the queue, and the jobs that found no backend free and the queue full. -/
theorem jobs_conserved {is : List Input} (ht : ∀ i ∈ is, i.tail ≠ none) :
    (lb.collect jobs Maps.empty is : Multiset U64) =
      lb.collect sentJobs Maps.empty is + (lb.after Maps.empty is).queue.items +
        lb.collect refusedJobs Maps.empty is := by
  obtain ⟨es, h⟩ := run_simulates_any ht
  have hb := h.run.balance
  rw [h.arrived, h.sent, h.refused] at hb
  calc (lb.collect jobs Maps.empty is : Multiset U64)
      = (Maps.empty.dispatch.queue : Multiset U64) + lb.collect jobs Maps.empty is :=
        (zero_add _).symm
    _ = lb.collect sentJobs Maps.empty is + lb.collect refusedJobs Maps.empty is +
          (lb.after Maps.empty is).queue.items := hb
    _ = _ := add_right_comm _ _ _

/-- A host registers and completes, between jobs that are sent, wait and are drained. -/
def mixedRun : List Input :=
  [growing (jobOf 1#64), growing (pingFrom 1#32), growing (jobOf 2#64), growing (pingFrom 1#32)]

theorem growing_mixedRun : ∀ i ∈ mixedRun, i.tail ≠ none := by simp [mixedRun, growing]

theorem jobs_conserved_mixedRun :
    (lb.collect jobs Maps.empty mixedRun : Multiset U64) =
      lb.collect sentJobs Maps.empty mixedRun + (lb.after Maps.empty mixedRun).queue.items +
        lb.collect refusedJobs Maps.empty mixedRun :=
  jobs_conserved growing_mixedRun

/-- With nobody to take it, a job waits. -/
theorem out_of_exhausted {m : Maps} {i : Input} (he : Exhausted m.servers)
    (hj : IsJob i.frame.bytes) :
    lb.out m i = ⟨⟨i.frame.bytes, m.pushed (payload64 i.frame.bytes), []⟩, .aborted⟩ := by
  have hout : lb.out m i = clientJob { frame := i.frame.bytes, maps := m } :=
    loadBalancer_job i.tail m hj
  rcases clientJob_cases (m := m) hj with ⟨k, hk, -⟩ | ⟨-, e⟩
  · exact absurd he hk.not_exhausted
  · rw [hout, e]

/-- From the empty maps, every job waits or is refused. -/
theorem after_jobs (v : U64) (n : Nat) :
    Exhausted (lb.after Maps.empty (List.replicate n (growing (jobOf v)))).servers ∧
      lb.collect jobs Maps.empty (List.replicate n (growing (jobOf v))) = List.replicate n v ∧
      lb.collect sentJobs Maps.empty (List.replicate n (growing (jobOf v))) = [] := by
  induction n with
  | zero => exact ⟨fun _ _ => rfl, rfl, rfl⟩
  | succ n ih =>
      obtain ⟨he, hj, hx⟩ := ih
      have ho := out_of_exhausted (i := growing (jobOf v)) he (isJob_jobOf v)
      rw [List.replicate_succ', Machine.after_snoc, Machine.collect_snoc, Machine.collect_snoc,
        hj, hx]
      refine ⟨?_, ?_, ?_⟩
      · rw [Machine.step, ho]
        exact he
      · simp [jobs, growing, List.replicate_succ']
      · simp [sentJobs, ho]

/-- The queue holds 100 values: the 101st job waiting is lost. -/
theorem job_lost :
    ¬ ∀ is : List Input, (∀ i ∈ is, i.tail ≠ none) →
      (lb.collect jobs Maps.empty is : Multiset U64) =
        lb.collect sentJobs Maps.empty is + (lb.after Maps.empty is).queue.items := by
  intro h
  obtain ⟨-, hj, hx⟩ := after_jobs 7#64 101
  have hb := congrArg Multiset.card (h (List.replicate 101 (growing (jobOf 7#64))) (fun i hi => by
    rw [List.eq_of_mem_replicate hi, growing]
    exact Option.some_ne_none _))
  -- 101 jobs came, none was sent, and at most 100 wait
  have hq := (lb.after Maps.empty (List.replicate 101 (growing (jobOf 7#64)))).queue.bounded
  simp only [hj, hx, Multiset.card_add, Multiset.coe_card, List.length_replicate,
    List.length_nil] at hb
  have hmax : maxQueue = 100 := rfl
  omega

/-! ### Work conservation -/

/-- No job waits while a registered backend has a credit, and none is sent past those waiting. -/
structure WorkConserving (m : Maps) : Prop where
  exhausted : m.queue.items ≠ [] → Exhausted m.servers
  inTurn : m.queue.items ≠ [] → ∀ i : Input, IsJob i.frame.bytes → (lb.out m i).verdict ≠ .tx

theorem workConserving_iff {m : Maps} :
    WorkConserving m ↔ m.dispatch.Conserving := by
  refine ⟨fun h hq => Maps.dispatch_exhausted.mpr (h.exhausted hq), fun h => ?_⟩
  have he : m.queue.items ≠ [] → Exhausted m.servers := fun hq => Maps.dispatch_exhausted.mp (h hq)
  refine ⟨he, fun hq i hj => ?_⟩
  rw [out_of_exhausted (he hq) hj]
  exact nofun

/-- The condition under which work is conserved. -/
def NoLateRegistration (m : Maps) (i : Input) : Prop := ¬ LateRegistration m i.frame.bytes

instance (m : Maps) (i : Input) : Decidable (NoLateRegistration m i) :=
  inferInstanceAs (Decidable (¬ _))

theorem conserving_after {is : List Input} (ht : ∀ i ∈ is, i.tail ≠ none)
    (hl : lb.Along NoLateRegistration Maps.empty is) :
    ∃ es, RunSimulates (fun s e => ¬ e.Late s) Maps.empty is es :=
  run_simulates (fun he hC => fun hl => hC (he.late.mp hl)) creditBound_empty ht hl

/-- **Work conservation.**  When every tail grows, work is conserved in every state of the run
exactly when no host registers while jobs wait. -/
theorem work_conserving_iff {is : List Input} (ht : ∀ i ∈ is, i.tail ≠ none) :
    (∀ pre post, is = pre ++ post → WorkConserving (lb.after Maps.empty pre)) ↔
      lb.Along NoLateRegistration Maps.empty is := by
  constructor
  · intro h
    refine Machine.along_iff.mpr ?_
    rintro pre i post rfl hl
    have ht' : i.tail ≠ none := ht i (by simp)
    obtain ⟨e, he⟩ := simulates (creditBound_after pre) ht'
    have hw := h (pre ++ [i]) post (by simp)
    rw [workConserving_iff, Machine.after_snoc] at hw
    exact he.step.not_conserving (he.late.mpr hl) hw
  · rintro hl pre post rfl
    obtain ⟨es, h⟩ := conserving_after (fun i hi => ht i (by simp [hi]))
      (Machine.along_append.mp hl).1
    rw [workConserving_iff]
    exact h.run.conserving (fun hq => absurd rfl hq)

/-- A run whose hosts register before the first job. -/
def orderedRun : List Input :=
  [growing (pingFrom 1#32), growing (jobOf 1#64), growing (jobOf 2#64), growing (pingFrom 1#32)]

theorem growing_orderedRun : ∀ i ∈ orderedRun, i.tail ≠ none := by simp [orderedRun, growing]

theorem work_conserving_orderedRun :
    (∀ pre post, orderedRun = pre ++ post → WorkConserving (lb.after Maps.empty pre)) ↔
      lb.Along NoLateRegistration Maps.empty orderedRun :=
  work_conserving_iff growing_orderedRun

/-- A host registers while a job waits: the job stays, beside five credits. -/
theorem job_waits_beside_credits :
    ¬ ∀ is : List Input, (∀ i ∈ is, i.tail ≠ none) → WorkConserving (lb.after Maps.empty is) := by
  intro h
  have hw := h [growing (jobOf 7#64), growing (pingFrom 1#32)] (by simp [growing])
  exact absurd (hw.exhausted (by decide +kernel)) (by decide +kernel)

/-! ### Order -/

/-- Every passage through the registration branch comes before the first job. -/
def RegistrationsFirst (is : List Input) : Prop :=
  ∀ pre i post, is = pre ++ i :: post → .registered ∈ (lb.out (lb.after Maps.empty pre) i).trace →
    ∀ j ∈ pre, ¬ IsJob j.frame.bytes

/-- Without a job, nothing waits. -/
theorem queue_empty_of_no_jobs {is : List Input} (ht : ∀ i ∈ is, i.tail ≠ none)
    (hj : ∀ i ∈ is, ¬ IsJob i.frame.bytes) : (lb.after Maps.empty is).queue.items = [] := by
  obtain ⟨es, h⟩ := run_simulates_any ht
  have hn : ∀ (js : List Input) (m : Maps), (∀ i ∈ js, ¬ IsJob i.frame.bytes) →
      lb.collect jobs m js = [] := by
    intro js
    induction js with
    | nil => exact fun _ _ => rfl
    | cons i js ih =>
        intro m hjs
        rw [Machine.collect, ih _ fun j hj => hjs j (by simp [hj]), jobs,
          if_neg (hjs i (by simp)), List.append_nil]
  have hb := congrArg Multiset.card h.run.balance
  rw [h.arrived, hn is _ hj] at hb
  have h₀ : Maps.empty.dispatch.queue = [] := rfl
  simp only [h₀, Multiset.card_add, Multiset.coe_card, List.length_nil] at hb
  have hlen : (lb.after Maps.empty is).dispatch.queue.length = 0 := by omega
  exact List.eq_nil_of_length_eq_zero hlen

theorem RegistrationsFirst.noLate {is : List Input} (h : RegistrationsFirst is)
    (ht : ∀ i ∈ is, i.tail ≠ none) : lb.Along NoLateRegistration Maps.empty is := by
  refine Machine.along_iff.mpr ?_
  rintro pre i post rfl ⟨hp, hz, hq, k, hk, h₀⟩
  refine hq (queue_empty_of_no_jobs (fun j hj => ht j (by simp [hj])) (h pre i post rfl ?_))
  have hmv := lb_move pre i
  generalize lb.out _ i = o at hmv
  cases hmv with
  | refuse | register => simp
  | other hp' => exact absurd hp hp'
  | done _ _ hk' hr | drain _ _ _ _ _ _ hk' hr | stuck _ _ hk' hr =>
      exact absurd ⟨hp, hz, hq, k, hk, h₀⟩ (not_late_of_occupied hk' hr)
  | send _ hj | wait hj => exact absurd hj hp.not_isJob

/-- What goes out has a payload of eight bytes. -/
theorem length_of_tx (is : List Input) {i : Input}
    (h : (lb.out (lb.after Maps.empty is) i).verdict = .tx) :
    (lb.out (lb.after Maps.empty is) i).frame.length = 50 := by
  obtain ⟨_, _, g, -, -, hg, hf⟩ := (lb_move is i).tx h
  rw [hf, length_rewrite, hg]

/-- **First come, first served.**  When every tail grows and the hosts register before the first
job, the payloads sent out, on either path, and then the queue from oldest to newest, are the
jobs in the order they came, without those that found no backend free and the queue full; and a
frame sent out carries these eight bytes and no more. -/
theorem jobs_in_order {is : List Input} (hr : RegistrationsFirst is)
    (ht : ∀ i ∈ is, i.tail ≠ none) :
    lb.collect sentJobs Maps.empty is ++ (lb.after Maps.empty is).queue.items =
        lb.collect acceptedJobs Maps.empty is ∧
      ∀ pre i post, is = pre ++ i :: post →
        (lb.out (lb.after Maps.empty pre) i).verdict = .tx →
          (lb.out (lb.after Maps.empty pre) i).frame.length = 50 := by
  refine ⟨?_, fun pre i _ _ h => length_of_tx pre h⟩
  obtain ⟨es, h⟩ := conserving_after ht (hr.noLate ht)
  have hf := h.run.fifo (fun hq => absurd rfl hq)
  rwa [h.sent, h.accepted] at hf

/-- Hosts first, then anything that registers nobody. -/
theorem registrationsFirst_append {as bs : List Input} (ha : ∀ i ∈ as, ¬ IsJob i.frame.bytes)
    (hb : lb.Along (fun m i => .registered ∉ (lb.out m i).trace) (lb.after Maps.empty as) bs) :
    RegistrationsFirst (as ++ bs) := by
  intro pre i post e hi
  rcases List.append_eq_append_iff.mp e with ⟨cs, rfl, hcs⟩ | ⟨cs, rfl, hcs⟩
  · rw [Machine.after_append] at hi
    exact absurd hi (Machine.along_iff.mp hb cs i post hcs)
  · exact fun j hj => ha j (by simp [hj])

theorem registrationsFirst_orderedRun : RegistrationsFirst orderedRun := by
  show RegistrationsFirst (orderedRun.take 1 ++ orderedRun.drop 1)
  refine registrationsFirst_append ?_ ?_
  · simpa [orderedRun, growing] using (isPing_pingFrom 1#32).not_isJob
  · simp only [orderedRun, List.take, List.drop, Machine.Along]
    decide +kernel

theorem jobs_in_order_orderedRun :
    lb.collect sentJobs Maps.empty orderedRun ++ (lb.after Maps.empty orderedRun).queue.items =
        lb.collect acceptedJobs Maps.empty orderedRun ∧
      ∀ pre i post, orderedRun = pre ++ i :: post →
        (lb.out (lb.after Maps.empty pre) i).verdict = .tx →
          (lb.out (lb.after Maps.empty pre) i).frame.length = 50 :=
  jobs_in_order registrationsFirst_orderedRun growing_orderedRun

end EbpfLb
