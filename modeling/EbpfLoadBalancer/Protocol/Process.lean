import EbpfLoadBalancer.Model.Server
import EbpfLoadBalancer.Support.Replace

/-!
# Protocol — what a step of a server does to its jobs

`held` counts the jobs a process has received and not answered: one in the hands of the main
thread between `recvfrom` and the start of its worker, and one for every worker that has not
sent its `'D'`.  `pending` is the `'S'` a process that has just started has yet to send.  Every
step is one of four things (`Effect`): it changes neither; the main thread turns a job away; the
process sends its `'S'`; or a worker sends its `'D'`.

`n_threads` is the number of workers between their increment and their decrement (`Ok.count`),
hence at most the number of jobs held, so a process that turns a job away has five more.
-/

namespace EbpfLb

namespace Worker

/-- The worker has not sent its `'D'`. -/
def unanswered : Worker → Bool
  | ended _ | failed _ => false
  | _ => true

/-- The worker is between its increment of `n_threads` and its decrement. -/
def counted : Worker → Bool
  | sleeping _ | slept _ | summed _ => true
  | _ => false

theorem unanswered_of_counted {w : Worker} (h : w.counted = true) : w.unanswered = true := by
  cases w <;> simp_all [counted, unanswered]

end Worker

namespace Server

/-- The `'S'` still to be sent. -/
def pending (s : Server) : Nat := if s.pc = .boot then 1 else 0

/-- The main thread has a job in its hands. -/
def Handling (s : Server) : Prop := s.pc = .check ∨ s.pc = .spawn

instance (s : Server) : Decidable s.Handling := inferInstanceAs (Decidable (_ ∨ _))

/-- The jobs received and not answered. -/
def held (s : Server) : Nat :=
  (if s.Handling then 1 else 0) + s.workers.countP Worker.unanswered

/-- What every process keeps, as long as it receives no empty datagram. -/
structure Ok (s : Server) : Prop where
  count : s.nThreads = s.workers.countP Worker.counted
  data : s.Handling → s.datagram.data ≠ []

theorem ok_fresh : fresh.Ok := ⟨rfl, fun h => by rcases h with h | h <;> cases h⟩

/-- What a step does to the jobs held and the `'S'` pending, by the byte it sends. -/
inductive Effect (s s' : Server) : Option U8 → Prop
  | silent (hp : s'.pending = s.pending) (hh : s'.held = s.held) : Effect s s' none
  | busy (hc : s.pc = .check) (hn : 5 ≤ s.nThreads) (hp : s'.pending = s.pending)
      (hh : s'.held + 1 = s.held) : Effect s s' none
  | hello (hp : s.pending = 1) (hp' : s'.pending = 0) (hh : s'.held = s.held) :
      Effect s s' (some byteS)
  | answer (hp : s'.pending = s.pending) (hh : s'.held + 1 = s.held) : Effect s s' (some byteD)

variable {s s' : Server} {o : Option U8} {i : Nat}

/-- A byte sent is the `'S'` that was pending, or a `'D'` for a job held. -/
theorem Effect.of_sent {b : U8} (h : Effect s s' (some b)) :
    (b = byteS ∧ s.pending = 1 ∧ s'.pending = 0 ∧ s'.held = s.held) ∨
      (b = byteD ∧ s'.pending = s.pending ∧ s'.held + 1 = s.held) := by
  cases h with
  | hello hp hp' hh => exact .inl ⟨rfl, hp, hp', hh⟩
  | answer hp hh => exact .inr ⟨rfl, hp, hh⟩

/-- No more workers are counted than jobs are held. -/
theorem Ok.counted_le (h : s.Ok) :
    s.nThreads + (if s.Handling then 1 else 0) ≤ (s.held : Int) := by
  have hle := List.countP_mono_left (l := s.workers)
    fun w _ => Worker.unanswered_of_counted (w := w)
  rw [h.count, held]
  split <;> omega

/-- The main thread, outside `recvfrom`. -/
theorem main_effect (h : s.Ok) (hm : s.main = some (s', o)) : s'.Ok ∧ Effect s s' o := by
  rw [main] at hm
  split at hm
  · -- `boot`
    rename_i hpc
    cases hm
    refine ⟨⟨h.count, fun hh => by rcases hh with hh | hh <;> cases hh⟩, .hello ?_ rfl ?_⟩
    · simp [pending, hpc]
    · simp [held, Handling, hpc]
  · cases hm
  · -- `check`: the job is turned away, or kept in hand
    rename_i hpc
    split at hm
    · rename_i hn
      cases hm
      refine ⟨⟨h.count, fun hh => by rcases hh with hh | hh <;> cases hh⟩, .busy hpc hn ?_ ?_⟩
      · simp [pending, hpc]
      · simp [held, Handling, hpc, Nat.add_comm]
    · cases hm
      refine ⟨⟨h.count, fun _ => h.data (.inl hpc)⟩, .silent ?_ ?_⟩
      · simp [pending, hpc]
      · simp [held, Handling, hpc]
  · -- `spawn`: the job passes from the main thread to its worker
    rename_i hpc
    rw [if_pos (h.data (.inr hpc))] at hm
    cases hm
    refine ⟨⟨?_, fun hh => by rcases hh with hh | hh <;> cases hh⟩, .silent ?_ ?_⟩
    · simp [h.count, Worker.counted]
    · simp [pending, hpc]
    · simp [held, Handling, hpc, Worker.unanswered, Nat.add_comm]

/-- A step that moves the worker `i` from `w` to `w'`. -/
theorem move_worker (h : s.Ok) {w w' : Worker} (hw : s.workers[i]? = some w)
    (hpc : s'.pc = s.pc) (hd : s'.datagram = s.datagram) (hws : s'.workers = s.workers.set i w')
    (hn : s'.nThreads + (if w.counted then 1 else 0) = s.nThreads + if w'.counted then 1 else 0) :
    s'.Ok ∧ s'.pending = s.pending ∧
      s'.held + (if w.unanswered then 1 else 0) = s.held + if w'.unanswered then 1 else 0 := by
  have hc := List.countP_replaced Worker.counted hw w'
  have hu := List.countP_replaced Worker.unanswered hw w'
  have hh : s'.Handling ↔ s.Handling := by rw [Handling, Handling, hpc]
  refine ⟨⟨?_, fun hs => hd ▸ h.data (hh.mp hs)⟩, by rw [pending, pending, hpc], ?_⟩
  · have hcount := h.count
    rw [hws]
    cases hcw : w.counted <;> cases hcw' : w'.counted <;> simp only [hcw, hcw'] at hn hc <;>
      norm_num at hn hc <;> omega
  · rw [held, held, hws, if_congr hh rfl rfl]
    omega

theorem silent_worker (h : s.Ok) {w w' : Worker} (hw : s.workers[i]? = some w)
    (hpc : s'.pc = s.pc) (hd : s'.datagram = s.datagram) (hws : s'.workers = s.workers.set i w')
    (hn : s'.nThreads + (if w.counted then 1 else 0) = s.nThreads + if w'.counted then 1 else 0)
    (hu : w.unanswered = w'.unanswered) : s'.Ok ∧ Effect s s' none := by
  obtain ⟨hok, hp, hh⟩ := move_worker h hw hpc hd hws hn
  rw [hu] at hh
  exact ⟨hok, .silent hp (by omega)⟩

/-- A worker, when no sleep raises. -/
theorem work_effect (h : s.Ok) (hw : s.work (fun _ => false) i = some (s', o)) :
    s'.Ok ∧ Effect s s' o := by
  rw [work] at hw
  split at hw
  · cases hw
  · -- `started`
    rename_i hi
    cases hw
    exact silent_worker h hi rfl rfl rfl rfl rfl
  · -- `called`: `n_threads` and the workers counted both grow
    rename_i hi
    cases hw
    exact silent_worker h hi rfl rfl rfl (by simp [Worker.counted]) rfl
  · -- `sleeping`
    rename_i hi
    cases hw
    exact silent_worker h hi rfl rfl rfl rfl rfl
  · -- `slept`
    rename_i hi
    cases hw
    exact silent_worker h hi rfl rfl rfl rfl rfl
  · -- `summed`: both shrink
    rename_i hi
    cases hw
    exact silent_worker h hi rfl rfl rfl (by simp [Worker.counted]) rfl
  · -- `released`: the `'D'`
    rename_i d hi
    cases hw
    have hm : (s.setWorker i (.ended d)).Ok ∧ _ := move_worker h hi rfl rfl rfl rfl
    exact ⟨hm.1, .answer hm.2.1 hm.2.2⟩
  · cases hw
  · cases hw

/-- A datagram received is a job more. -/
theorem recvfrom_effect (h : s.Ok) {d : Datagram} (hd : d.data ≠ [])
    (hr : s.recvfrom d = some s') :
    s'.Ok ∧ s'.pending = s.pending ∧ s'.held = s.held + 1 := by
  rw [recvfrom] at hr
  split at hr
  · rename_i hpc
    cases hr
    refine ⟨⟨h.count, fun _ => by simpa using hd⟩, ?_, ?_⟩
    · simp [pending, hpc]
    · simp [held, Handling, hpc, Nat.add_comm]
  · cases hr

end Server

end EbpfLb
