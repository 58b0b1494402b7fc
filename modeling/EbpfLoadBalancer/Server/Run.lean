import EbpfLoadBalancer.Model.Server
import EbpfLoadBalancer.Support.Machine
import EbpfLoadBalancer.Support.Replace

/-!
# Server — one process under every interleaving

A process of `server.py` as a machine (`server`).  An event says which thread steps next, and what
`recvfrom` returns if it is the main thread and it is waiting there; an event that is not enabled
leaves the process as it is, so every list of events is a run and every interleaving is one of
them.  `Server.Move` says what an event can do, and `Worker.Advance` what a worker's step does to
the worker and to the two counters.  Whether `time.sleep` raises for a duration is left open.
-/

namespace EbpfLb

/-- What happens next in a process. -/
inductive ServerEvent
  /-- The main thread receives `d`. -/
  | recvfrom (d : Datagram)
  /-- It takes another step. -/
  | main
  /-- The worker `i` steps. -/
  | work (i : Nat)

/-- The process after the event. -/
def Server.next (raises : Nat → Bool) (s : Server) : ServerEvent → Server
  | .recvfrom d => (s.recvfrom d).getD s
  | .main => (s.main.map Prod.fst).getD s
  | .work i => ((s.work raises i).map Prod.fst).getD s

/-- The process, run once per event. -/
def server (raises : Nat → Bool) : Machine Server ServerEvent Server where
  out := Server.next raises
  next := id

/-! ### What an event can do -/

/-- A worker's step: what it makes of the worker, what it adds to `n_threads` and what to
`total_sleep_time`; `now` is what `data, address` hold. -/
inductive Worker.Advance (raises : Nat → Bool) (now : Datagram) :
    Worker → Worker → Int → Nat → Prop
  | call : Advance raises now .started (.called now) 0 0
  | count (d : Datagram) : Advance raises now (.called d) (.sleeping d) 1 0
  | fail (d : Datagram) (hr : raises (fromBytes d.data) = true) :
      Advance raises now (.sleeping d) (.failed d) 0 0
  | wake (d : Datagram) (hr : raises (fromBytes d.data) = false) :
      Advance raises now (.sleeping d) (.slept d) 0 0
  | sum (d : Datagram) : Advance raises now (.slept d) (.summed d) 0 (fromBytes d.data)
  | release (d : Datagram) : Advance raises now (.summed d) (.released d) (-1) 0
  | answer (d : Datagram) : Advance raises now (.released d) (.ended d) 0 0

/-- The worker's thread is over. -/
def Worker.finished : Worker → Bool
  | ended _ | failed _ => true
  | _ => false

namespace Server

inductive Move (raises : Nat → Bool) (s : Server) : ServerEvent → Server → Prop
  | receive (d : Datagram) (hpc : s.pc = .recvfrom) :
      Move raises s (.recvfrom d) { s with pc := .check, datagram := ⟨d.data.take 8, d.address⟩ }
  | deaf (d : Datagram) (hpc : s.pc ≠ .recvfrom) : Move raises s (.recvfrom d) s
  | hello (hpc : s.pc = .boot) : Move raises s .main { s with pc := .recvfrom }
  | waiting (hpc : s.pc = .recvfrom) : Move raises s .main s
  /-- The job just received is turned away. -/
  | busy (hpc : s.pc = .check) (hn : 5 ≤ s.nThreads) :
      Move raises s .main { s with pc := .recvfrom }
  | accept (hpc : s.pc = .check) (hn : s.nThreads < 5) :
      Move raises s .main { s with pc := .spawn }
  | spawn (hpc : s.pc = .spawn) (hd : s.datagram.data ≠ []) :
      Move raises s .main { s with pc := .recvfrom, workers := s.workers ++ [.started] }
  | skip (hpc : s.pc = .spawn) (hd : s.datagram.data = []) :
      Move raises s .main { s with pc := .recvfrom }
  | work (i : Nat) {w w' : Worker} {n : Int} {t : Nat} (hi : s.workers[i]? = some w)
      (ha : w.Advance raises s.datagram w' n t) :
      Move raises s (.work i)
        { s with
          workers := s.workers.set i w'
          nThreads := s.nThreads + n
          totalSleepTime := s.totalSleepTime + t }
  /-- There is no worker `i`, or it is over. -/
  | gone (i : Nat) (hi : s.workers[i]? ≠ some .started) : Move raises s (.work i) s

variable (raises : Nat → Bool) (s : Server)

theorem main_move : s.Move raises .main (s.next raises .main) := by
  cases hpc : s.pc with
  | boot =>
      rw [next, main, hpc]
      exact .hello hpc
  | recvfrom =>
      rw [next, main, hpc]
      exact .waiting hpc
  | check =>
      by_cases hn : s.nThreads ≥ 5
      · simp only [next, main, hpc, if_pos hn]
        exact .busy hpc hn
      · simp only [next, main, hpc, if_neg hn]
        exact .accept hpc (Int.not_le.mp hn)
  | spawn =>
      by_cases hd : s.datagram.data = []
      · simp only [next, main, hpc, ne_eq, hd, not_true_eq_false, if_false]
        exact .skip hpc hd
      · simp only [next, main, hpc, ne_eq, hd, not_false_eq_true, if_true]
        exact .spawn hpc hd

variable {s} in
/-- A worker whose thread is not over can step. -/
theorem next_work {i : Nat} {w : Worker} (hi : s.workers[i]? = some w)
    (hw : w.finished = false) : ∃ w' n t, w.Advance raises s.datagram w' n t ∧
      s.next raises (.work i) =
        { s with
          workers := s.workers.set i w'
          nThreads := s.nThreads + n
          totalSleepTime := s.totalSleepTime + t } := by
  cases w with
  | started => exact ⟨_, _, _, .call, by simp [next, work, hi, setWorker]⟩
  | called d => exact ⟨_, _, _, .count d, by simp [next, work, hi, setWorker]⟩
  | sleeping d =>
      cases hr : raises (fromBytes d.data) with
      | true => exact ⟨_, _, _, .fail d hr, by simp [next, work, hi, hr, setWorker]⟩
      | false => exact ⟨_, _, _, .wake d hr, by simp [next, work, hi, hr, setWorker]⟩
  | slept d => exact ⟨_, _, _, .sum d, by simp [next, work, hi, setWorker]⟩
  | summed d =>
      exact ⟨_, _, _, .release d, by simp [next, work, hi, setWorker, Int.sub_eq_add_neg]⟩
  | released d => exact ⟨_, _, _, .answer d, by simp [next, work, hi, setWorker]⟩
  | ended d | failed d => cases hw

theorem work_move (i : Nat) : s.Move raises (.work i) (s.next raises (.work i)) := by
  cases hi : s.workers[i]? with
  | none =>
      rw [next, work, hi]
      exact .gone i (by rw [hi]; exact nofun)
  | some w =>
      cases hw : w.finished with
      | false =>
          obtain ⟨w', n, t, ha, e⟩ := next_work raises hi hw
          rw [e]
          exact .work i hi ha
      | true =>
          cases w with
          | ended d | failed d =>
              rw [next, work, hi]
              exact .gone i (by rw [hi]; exact nofun)
          | started | called | sleeping | slept | summed | released => cases hw

/-- **Every event does one of these.** -/
theorem next_move (e : ServerEvent) : s.Move raises e (s.next raises e) := by
  cases e with
  | recvfrom d =>
      by_cases hpc : s.pc = .recvfrom
      · rw [next, recvfrom, if_pos hpc]
        exact .receive d hpc
      · rw [next, recvfrom, if_neg hpc]
        exact .deaf d hpc
  | main => exact main_move raises s
  | work i => exact work_move raises s i

end Server

theorem server_move (raises : Nat → Bool) (s : Server) (e : ServerEvent) :
    s.Move raises e ((server raises).step s e) := s.next_move raises e

end EbpfLb
