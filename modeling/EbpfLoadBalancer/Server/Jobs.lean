import EbpfLoadBalancer.Server.Admission

/-!
# Server — the jobs it runs

A job travels from the receive loop to its thread through the module variables `data, address`.
The thread reads them when it evaluates its lambda, and a datagram received before that has
overwritten them: the thread then runs the later job (`wrong_job_run`).  A sleep that raises ends
the thread with nothing added to `total_sleep_time`.

As long as neither happens, every admitted job is run once with its own datagram, and the total
is the sum of what they slept (`jobs_run_once`).  The invariant is `Faithful`: the worker number
`i` is the `i`-th admitted job's, a started one by what `data, address` hold.
-/

namespace EbpfLb

namespace Worker

/-- The datagram the worker runs, or will run if it evaluates its lambda while `now` is what
`data, address` hold. -/
def job (now : Datagram) : Worker → Datagram
  | started => now
  | called d | sleeping d | slept d | summed d | released d | ended d | failed d => d

/-- What has been passed to its `handle_client`. -/
def passed : Worker → List Datagram
  | started => []
  | called d | sleeping d | slept d | summed d | released d | ended d | failed d => [d]

/-- What it has added to `total_sleep_time`. -/
def sleepTimes : Worker → List Nat
  | summed d | released d | ended d => [fromBytes d.data]
  | _ => []

variable {raises : Nat → Bool} {now : Datagram} {w w' : Worker} {n : Int} {t : Nat}

theorem Advance.job (h : Advance raises now w w' n t) : w'.job now = w.job now := by
  cases h <;> rfl

/-- A call passes what `data, address` hold, and no other step passes anything. -/
theorem Advance.passed (h : Advance raises now w w' n t) :
    w'.passed = w.passed ++ if w = started then [now] else [] := by
  cases h <;> simp [Worker.passed]

theorem Advance.sum_sleepTimes (h : Advance raises now w w' n t) :
    w'.sleepTimes.sum = w.sleepTimes.sum + t := by
  cases h <;> simp [sleepTimes]

end Worker

namespace Server

/-- The datagram a thread is started for, if the step starts one. -/
def admits (s : Server) : ServerEvent → List Datagram
  | .main => if s.pc = .spawn ∧ s.datagram.data ≠ [] then [s.datagram] else []
  | _ => []

/-- The arguments of `handle_client`, if the step calls it. -/
def calls (s : Server) : ServerEvent → List Datagram
  | .work i => if s.workers[i]? = some .started then [s.datagram] else []
  | _ => []

theorem admits_work (s : Server) (i : Nat) : s.admits (.work i) = [] := rfl

/-- The step does not overwrite `data, address` under a thread that has yet to read them, and no
sleep raises. -/
def KeepsJob (raises : Nat → Bool) (s : Server) : ServerEvent → Prop
  | .recvfrom d =>
    s.pc = .recvfrom → .started ∈ s.workers → (⟨d.data.take 8, d.address⟩ : Datagram) = s.datagram
  | .main => True
  | .work i => ∀ d, s.workers[i]? = some (.sleeping d) → raises (fromBytes d.data) = false

/-- No worker is running or pending. -/
def Idle (s : Server) : Prop := ∀ w ∈ s.workers, w.finished = true

/-- The workers are the admitted jobs', each with its own datagram, and the total is what they
have slept. -/
structure Faithful (admitted called : List Datagram) (s : Server) : Prop where
  workers : admitted = s.workers.map (Worker.job s.datagram)
  called : called.Perm (s.workers.flatMap Worker.passed)
  total : s.totalSleepTime = (s.workers.flatMap Worker.sleepTimes).sum
  alive : ∀ d, .failed d ∉ s.workers

theorem faithful_fresh : fresh.Faithful [] [] := ⟨rfl, .refl _, rfl, by simp [fresh]⟩

variable {raises : Nat → Bool} {s s' : Server} {e : ServerEvent} {admitted called : List Datagram}

/-- A step that changes no worker and, under a worker that has yet to read them, neither `data`
nor `address`. -/
theorem Faithful.congr (h : s.Faithful admitted called) (hw : s'.workers = s.workers)
    (ht : s'.totalSleepTime = s.totalSleepTime)
    (hd : .started ∈ s.workers → s'.datagram = s.datagram) : s'.Faithful admitted called := by
  refine ⟨?_, hw ▸ h.called, ?_, hw ▸ h.alive⟩
  · rw [h.workers, hw]
    refine List.map_congr_left fun w hmem => ?_
    cases w with
    | started => exact (hd hmem).symm
    | called | sleeping | slept | summed | released | ended | failed => rfl
  · rw [ht, hw, h.total]

/-- A worker's step, with no sleep that raises. -/
theorem Faithful.work (h : s.Faithful admitted called) {i : Nat} {w w' : Worker} {n : Int} {t : Nat}
    (hi : s.workers[i]? = some w) (ha : w.Advance raises s.datagram w' n t)
    (hr : ∀ d, w = .sleeping d → raises (fromBytes d.data) = false) :
    Faithful admitted (called ++ if w = .started then [s.datagram] else [])
      { s with
        workers := s.workers.set i w'
        nThreads := s.nThreads + n
        totalSleepTime := s.totalSleepTime + t } := by
  constructor
  · show admitted = (s.workers.set i w').map (Worker.job s.datagram)
    rw [List.map_replaced _ hi ha.job, h.workers]
  · -- the list gains what the worker passes
    show (called ++ _).Perm ((s.workers.set i w').flatMap Worker.passed)
    have hp := List.flatMap_replaced Worker.passed hi w'
    rw [ha.passed, List.append_assoc, List.perm_append_left_iff] at hp
    exact (List.perm_append_comm.trans (h.called.append_left _)).trans hp.symm
  · show s.totalSleepTime + t = ((s.workers.set i w').flatMap Worker.sleepTimes).sum
    have hs := (List.flatMap_replaced Worker.sleepTimes hi w').sum_eq
    rw [List.sum_append, List.sum_append, ha.sum_sleepTimes, ← h.total] at hs
    omega
  · intro d hd
    show False
    rcases List.mem_or_eq_of_mem_set hd with hold | rfl
    · exact h.alive d hold
    · cases ha with
      | fail _ hraise => exact absurd (hr d rfl) (by simp [hraise])

theorem Move.faithful (h : s.Faithful admitted called) (hk : s.KeepsJob raises e)
    (hmv : s.Move raises e s') :
    s'.Faithful (admitted ++ s.admits e) (called ++ s.calls e) := by
  cases hmv with
  | receive d hpc =>
      simp only [admits, calls, List.append_nil]
      exact h.congr rfl rfl (hk hpc)
  | deaf => simpa only [admits, calls, List.append_nil] using h
  | hello hpc | waiting hpc | busy hpc | accept hpc =>
      simp only [admits, calls, hpc, reduceCtorEq, false_and, if_false, List.append_nil]
      exact h.congr rfl rfl fun _ => rfl
  | skip hpc hd =>
      simp only [admits, calls, hd, ne_eq, not_true_eq_false, and_false, if_false, List.append_nil]
      exact h.congr rfl rfl fun _ => rfl
  | spawn hpc hd =>
      simp only [admits, calls, hpc, ne_eq, hd, not_false_eq_true, and_self, if_true,
        List.append_nil]
      refine ⟨?_, ?_, ?_, ?_⟩
      · simp [h.workers, Worker.job]
      · simpa [Worker.passed] using h.called
      · simp [h.total, Worker.sleepTimes]
      · simpa using h.alive
  | work i hi ha =>
      rename_i w w' n t
      have hcall : s.calls (.work i) = if w = .started then [s.datagram] else [] := by
        rw [calls, hi]
        simp only [Option.some.injEq]
      rw [admits_work, List.append_nil, hcall]
      exact h.work hi ha fun d e => hk d (e ▸ hi)
  | gone i hi =>
      rw [admits_work, calls, if_neg hi, List.append_nil, List.append_nil]
      exact h

/-- When every thread is over, each has run its job and added its sleep. -/
theorem Faithful.idle (h : s.Faithful admitted called) (hi : s.Idle) :
    called.Perm admitted ∧ s.totalSleepTime = (admitted.map fun d => fromBytes d.data).sum := by
  have hended : ∀ w ∈ s.workers, ∃ d, w = .ended d := by
    intro w hw
    have hdone := hi w hw
    cases w with
    | ended d => exact ⟨d, rfl⟩
    | failed d => exact absurd hw (h.alive d)
    | started | called | sleeping | slept | summed | released => cases hdone
  have hpassed : s.workers.flatMap Worker.passed = s.workers.map (Worker.job s.datagram) := by
    rw [List.map_eq_flatMap]
    refine List.flatMap_congr fun w hw => ?_
    obtain ⟨d, rfl⟩ := hended w hw
    rfl
  have hslept : s.workers.flatMap Worker.sleepTimes =
      (s.workers.map (Worker.job s.datagram)).map fun d => fromBytes d.data := by
    rw [List.map_map, List.map_eq_flatMap]
    refine List.flatMap_congr fun w hw => ?_
    obtain ⟨d, rfl⟩ := hended w hw
    rfl
  refine ⟨?_, ?_⟩
  · rw [h.workers, ← hpassed]
    exact h.called
  · rw [h.total, hslept, ← h.workers]

end Server

/-- The datagrams threads are started for, in a run of a process that has just started. -/
def admittedJobs (raises : Nat → Bool) (es : List ServerEvent) : List Datagram :=
  (server raises).collect Server.admits Server.fresh es

/-- The arguments `handle_client` is called with. -/
def calledJobs (raises : Nat → Bool) (es : List ServerEvent) : List Datagram :=
  (server raises).collect Server.calls Server.fresh es

theorem faithful_after {raises : Nat → Bool} {es : List ServerEvent}
    (h : (server raises).Along (Server.KeepsJob raises) Server.fresh es) :
    ((server raises).after Server.fresh es).Faithful (admittedJobs raises es)
      (calledJobs raises es) :=
  h.induction (P := fun es s => s.Faithful (admittedJobs raises es) (calledJobs raises es))
    Server.faithful_fresh fun es e hs hk => by
      rw [admittedJobs, calledJobs, Machine.collect_snoc, Machine.collect_snoc]
      exact (server_move raises _ e).faithful hs hk

/-- **Every admitted job is run once with its own data, if nothing is overwritten.**  In every
run in which no datagram overwrites another one under a thread that has yet to read it, and no
sleep raises: whenever no worker is running or pending, `handle_client` has been called with the
admitted datagrams, each as often as it was admitted, and `total_sleep_time` is the sum of their
values. -/
theorem jobs_run_once {raises : Nat → Bool} {es : List ServerEvent}
    (h : (server raises).Along (Server.KeepsJob raises) Server.fresh es)
    (hi : ((server raises).after Server.fresh es).Idle) :
    (calledJobs raises es).Perm (admittedJobs raises es) ∧
      ((server raises).after Server.fresh es).totalSleepTime =
        ((admittedJobs raises es).map fun d => fromBytes d.data).sum :=
  (faithful_after h).idle hi

/-- The six steps of the worker `i`, from its lambda to its `'D'`. -/
def workerSteps (i : Nat) : List ServerEvent := List.replicate 6 (.work i)

/-- One job, run to its end, and a second one. -/
def oneAfterTheOther : List ServerEvent :=
  .main :: admission (jobDatagram 1#8) ++ workerSteps 0 ++ admission (jobDatagram 2#8) ++
    workerSteps 1

theorem jobs_run_once_oneAfterTheOther :
    (calledJobs (fun _ => false) oneAfterTheOther).Perm
        (admittedJobs (fun _ => false) oneAfterTheOther) ∧
      ((server fun _ => false).after Server.fresh oneAfterTheOther).totalSleepTime =
        ((admittedJobs (fun _ => false) oneAfterTheOther).map fun d => fromBytes d.data).sum := by
  refine jobs_run_once ?_ ?_
  · simp only [oneAfterTheOther, admission, workerSteps, List.replicate, List.cons_append,
      List.nil_append, Machine.Along]
    simp [Server.KeepsJob]
    decide
  · rw [Server.Idle]
    decide

/-- Two jobs, received before the first one's thread has read its own. -/
def overwritten : List ServerEvent :=
  .main :: admission (jobDatagram 1#8) ++ admission (jobDatagram 2#8) ++ workerSteps 0 ++
    workerSteps 1

/-- The second job is run twice, and the first one not at all. -/
theorem wrong_job_run :
    ¬ ∀ (raises : Nat → Bool) (es : List ServerEvent),
      ((server raises).after Server.fresh es).Idle →
      (calledJobs raises es).Perm (admittedJobs raises es) ∧
        ((server raises).after Server.fresh es).totalSleepTime =
          ((admittedJobs raises es).map fun d => fromBytes d.data).sum := by
  intro h
  have hidle : ((server fun _ => false).after Server.fresh overwritten).Idle := by
    rw [Server.Idle]
    decide
  have hrun : ¬ (calledJobs (fun _ => false) overwritten).Perm
      (admittedJobs (fun _ => false) overwritten) := by decide
  exact hrun (h (fun _ => false) overwritten hidle).1

end EbpfLb
