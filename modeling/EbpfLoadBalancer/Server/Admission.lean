import EbpfLoadBalancer.Server.Run

/-!
# Server — the limit on the jobs admitted

The main thread admits a job while `n_threads` is below five, and the worker it starts raises
`n_threads` by a step of its own.  Between the two the worker is active and not counted, and the
check does not see it: six jobs that arrive before the first worker's increment are all admitted
(`six_admitted`).  As long as every check that lets a job through would also pass with the
workers not yet counted, at most five are active (`at_most_five_active`).
-/

namespace EbpfLb

namespace Worker

/-- The worker is between the start of its thread and its decrement of `n_threads`; an exception
leaves it there. -/
def active : Worker → Bool
  | released _ | ended _ => false
  | _ => true

/-- It has incremented `n_threads` and not decremented it. -/
def incremented : Worker → Bool
  | sleeping _ | slept _ | summed _ | failed _ => true
  | _ => false

/-- It is to increment `n_threads`. -/
def uncounted : Worker → Bool
  | started | called _ => true
  | _ => false

variable {raises : Nat → Bool} {now : Datagram} {w w' : Worker} {n : Int} {t : Nat}

/-- A step moves `n_threads` by what it makes of the worker. -/
theorem Advance.incremented (h : Advance raises now w w' n t) :
    n + (if w.incremented then 1 else 0) = if w'.incremented then 1 else 0 := by
  cases h <;> rfl

/-- No step makes a worker active again. -/
theorem Advance.active_le (h : Advance raises now w w' n t) :
    (if w'.active then 1 else 0) ≤ if w.active then 1 else 0 := by
  cases h <;> simp [active]

end Worker

namespace Server

/-- The workers between the start of their thread and their decrement. -/
def active (s : Server) : Nat := s.workers.countP Worker.active

/-- The workers that have not incremented `n_threads` yet. -/
def uncounted (s : Server) : Nat := s.workers.countP Worker.uncounted

/-- A check that lets a job through would let it through with every worker counted. -/
def CheckCounts (s : Server) : ServerEvent → Prop
  | .main => s.pc = .check → s.datagram.data ≠ [] → s.nThreads < 5 → s.nThreads + s.uncounted < 5
  | _ => True

instance (s : Server) : DecidablePred s.CheckCounts
  | .main => inferInstanceAs (Decidable (_ → _ → _ → _))
  | .recvfrom _ | .work _ => isTrue trivial

/-- `n_threads` is the number of workers between their two updates of it, and the limit is kept,
with a place to spare when a thread is about to be started. -/
structure Limited (s : Server) : Prop where
  count : s.nThreads = s.workers.countP Worker.incremented
  limit : s.active ≤ 5
  spare : s.pc = .spawn → s.datagram.data ≠ [] → s.active < 5

theorem limited_fresh : fresh.Limited := ⟨rfl, Nat.zero_le _, nofun⟩

/-- An active worker is counted or to be counted. -/
theorem active_eq (s : Server) :
    s.active = s.workers.countP Worker.incremented + s.uncounted := by
  rw [active, uncounted]
  induction s.workers with
  | nil => rfl
  | cons w ws ih =>
      rw [List.countP_cons, List.countP_cons, List.countP_cons, ih]
      cases w <;> simp [Worker.active, Worker.incremented, Worker.uncounted] <;> omega

variable {raises : Nat → Bool} {s s' : Server} {e : ServerEvent}

theorem Limited.nThreads_le (h : s.Limited) : s.nThreads ≤ s.active := by
  rw [h.count, active_eq]
  omega

/-- Every step keeps `n_threads` the number of workers that have incremented it. -/
theorem Move.count (h : s.nThreads = s.workers.countP Worker.incremented)
    (hmv : s.Move raises e s') : s'.nThreads = s'.workers.countP Worker.incremented := by
  cases hmv with
  | deaf | waiting | gone | receive | hello | busy | accept | skip => exact h
  | spawn => simp [h, Worker.incremented]
  | work i hi ha =>
      rename_i w w' n t
      have hinc := List.countP_replaced Worker.incremented hi w'
      have hn := ha.incremented
      show s.nThreads + n = (s.workers.set i w').countP Worker.incremented
      rw [h]
      cases hw : w.incremented <;> cases hw' : w'.incremented <;>
        simp only [hw, hw', if_true, Bool.false_eq_true, if_false] at hinc hn <;> omega

theorem Move.limited (h : s.Limited) (hc : s.CheckCounts e) (hmv : s.Move raises e s') :
    s'.Limited := by
  have hcount := hmv.count h.count
  cases hmv with
  | deaf | waiting | gone => exact h
  | receive | hello | busy | skip => exact ⟨hcount, h.limit, nofun⟩
  | accept hpc hn =>
      -- the check saw every worker, so there is a place to spare
      refine ⟨hcount, h.limit, fun _ hd => ?_⟩
      have hlt := hc hpc hd hn
      rw [h.count] at hlt
      have hact := s.active_eq
      show s.active < 5
      omega
  | spawn hpc hd =>
      have hspare := h.spare hpc hd
      rw [active] at hspare
      refine ⟨hcount, ?_, nofun⟩
      simp only [active, List.countP_append, List.countP_singleton, Worker.active, if_true]
      omega
  | work i hi ha =>
      rename_i w w' n t
      have hact := List.countP_replaced Worker.active hi w'
      have hle := ha.active_le
      have hfewer : (s.workers.set i w').countP Worker.active ≤ s.active := by
        rw [active]
        omega
      refine ⟨hcount, Nat.le_trans hfewer h.limit, fun hpc hd => ?_⟩
      exact Nat.lt_of_le_of_lt hfewer (h.spare hpc hd)

/-- A check that misses a worker is one thread start away from a sixth active job. -/
theorem Limited.overcommits (h : s.Limited) (hc : ¬ s.CheckCounts .main) :
    5 < ((server raises).after s [.main, .main]).active := by
  have hact := s.active_eq
  have hcount := h.count
  simp only [CheckCounts, Classical.not_imp] at hc
  obtain ⟨hpc, hd, hn, hmiss⟩ := hc
  have hstart : (server raises).after s [.main, .main] =
      { s with pc := .recvfrom, workers := s.workers ++ [.started] } := by
    have hadmit : (server raises).step s .main = { s with pc := .spawn } := by
      simp [Machine.step, server, next, main, hpc, Int.not_le.mpr hn]
    rw [Machine.after_cons, hadmit]
    simp [Machine.step, server, next, main, hd]
  rw [hstart]
  simp only [active, List.countP_append, List.countP_singleton, Worker.active, if_true]
  rw [active] at hact
  omega

end Server

/-- **At most five jobs are active, if no check misses a worker.**  In every run in which every
check that lets a job through counts the workers that have not incremented `n_threads` yet, at
most five admitted jobs are between the start of their thread and their decrement, and `n_threads`
is at most five. -/
theorem at_most_five_active {raises : Nat → Bool} {es : List ServerEvent}
    (h : (server raises).Along Server.CheckCounts Server.fresh es) :
    ((server raises).after Server.fresh es).active ≤ 5 ∧
      ((server raises).after Server.fresh es).nThreads ≤ 5 := by
  have hlim : ((server raises).after Server.fresh es).Limited :=
    h.invariant (fun s e hs hc => (server_move raises s e).limited hs hc) Server.limited_fresh
  have hle := hlim.nThreads_le
  have hlimit := hlim.limit
  exact ⟨hlimit, by omega⟩

/-- A datagram with the job `n`. -/
def jobDatagram (n : U8) : Datagram := ⟨[n], 2#32, 9000#16⟩

/-- The main thread receives `d`, checks, and starts a thread. -/
def admission (d : Datagram) : List ServerEvent := [.recvfrom d, .main, .main]

/-- Five jobs, each up to its increment before the next one comes, and a sixth that is turned
away. -/
def sixthJob : List ServerEvent :=
  .main :: (List.range 5).flatMap
    (fun i => admission (jobDatagram 1#8) ++ [.work i, .work i]) ++
    [.recvfrom (jobDatagram 1#8), .main]

theorem at_most_five_active_sixthJob :
    ((server fun _ => false).after Server.fresh sixthJob).active ≤ 5 ∧
      ((server fun _ => false).after Server.fresh sixthJob).nThreads ≤ 5 :=
  at_most_five_active (by decide)

/-- Six jobs, one after the other, before any of the workers steps. -/
def burst : List ServerEvent := .main :: (List.replicate 6 (admission (jobDatagram 1#8))).flatten

/-- All six are admitted. -/
theorem six_admitted :
    ¬ ∀ (raises : Nat → Bool) (es : List ServerEvent),
      ((server raises).after Server.fresh es).active ≤ 5 ∧
        ((server raises).after Server.fresh es).nThreads ≤ 5 := by
  intro h
  have hsix : ((server fun _ => false).after Server.fresh burst).active = 6 := by decide
  have hfive := (h (fun _ => false) burst).1
  omega

end EbpfLb
