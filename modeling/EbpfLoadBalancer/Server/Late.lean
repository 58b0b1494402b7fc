import EbpfLoadBalancer.Server.Jobs

/-!
# Server — the jobs it runs, whatever is overwritten

A thread reads `data, address` when it evaluates its lambda, so under an unlucky interleaving it
runs a later job than its own.  What every interleaving leaves true is an account of the receipts,
in their order (`Accounts`): each datagram received is run some number of times, all of them before
the next one is run, and up to any receipt there are no more calls than threads started.  So a job
may be run late, for a thread started before it, and never early (`late_but_never_early`).
-/

namespace EbpfLb

/-- A datagram received, the threads started for it, and the calls it has been passed to. -/
structure Receipt where
  datagram : Datagram
  threads : Nat
  calls : Nat

namespace Receipt

/-- The threads started for the receipts `rs`. -/
def started (rs : List Receipt) : Nat := (rs.map threads).sum

/-- The calls made with them. -/
def called (rs : List Receipt) : Nat := (rs.map calls).sum

variable (rs : List Receipt) (r : Receipt)

@[simp] theorem started_concat : started (rs ++ [r]) = started rs + r.threads := by
  simp [started]

@[simp] theorem called_concat : called (rs ++ [r]) = called rs + r.calls := by
  simp [called]

end Receipt

open Receipt in
/-- The receipts `rs` account for what has been received, admitted and run. -/
structure Accounts (rs : List Receipt) (received admitted run : List Datagram) : Prop where
  received : received = rs.map Receipt.datagram
  admitted : admitted = rs.flatMap fun r => List.replicate r.threads r.datagram
  run : run = rs.flatMap fun r => List.replicate r.calls r.datagram
  once : ∀ r ∈ rs, r.threads ≤ 1
  late : ∀ pre, pre <+: rs → called pre ≤ started pre

namespace Accounts
open Receipt
variable {rs : List Receipt} {r : Receipt} {received admitted run : List Datagram}

theorem length_admitted (h : Accounts rs received admitted run) :
    admitted.length = started rs := by
  simp [h.admitted, List.length_flatMap, started]

theorem length_run (h : Accounts rs received admitted run) : run.length = called rs := by
  simp [h.run, List.length_flatMap, called]

/-- A datagram is received. -/
theorem receive (h : Accounts rs received admitted run) (d : Datagram) :
    Accounts (rs ++ [⟨d, 0, 0⟩]) (received ++ [d]) admitted run where
  received := by simp [h.received]
  admitted := by simp [h.admitted]
  run := by simp [h.run]
  once := by simpa [or_imp, forall_and] using h.once
  late := by
    intro pre hp
    rcases List.prefix_concat_iff.mp hp with rfl | hp
    · simpa using h.late rs (List.prefix_refl rs)
    · exact h.late pre hp

/-- A thread is started for the last one. -/
theorem start (h : Accounts (rs ++ [r]) received admitted run) (hr : r.threads = 0) :
    Accounts (rs ++ [{ r with threads := 1 }]) received (admitted ++ [r.datagram]) run where
  received := by simp [h.received]
  admitted := by simp [h.admitted, hr]
  run := by simp [h.run]
  once := by
    intro r' hr'
    rcases List.mem_append.mp hr' with hold | hnew
    · exact h.once r' (List.mem_append_left _ hold)
    · rw [List.mem_singleton.mp hnew]
  late := by
    intro pre hp
    have hall := h.late (rs ++ [r]) (List.prefix_refl _)
    rcases List.prefix_concat_iff.mp hp with rfl | hp
    · simp only [started_concat, called_concat, hr] at hall ⊢
      omega
    · exact h.late pre (hp.trans (List.prefix_append rs [r]))

/-- It is passed to a call, and there is a thread that has made none. -/
theorem call (h : Accounts (rs ++ [r]) received admitted run)
    (hlt : called (rs ++ [r]) < started (rs ++ [r])) :
    Accounts (rs ++ [{ r with calls := r.calls + 1 }]) received admitted
      (run ++ [r.datagram]) where
  received := by simp [h.received]
  admitted := by simp [h.admitted]
  run := by simp [h.run, List.replicate_succ']
  once := by
    intro r' hr'
    rcases List.mem_append.mp hr' with hold | hnew
    · exact h.once r' (List.mem_append_left _ hold)
    · rw [List.mem_singleton.mp hnew]
      exact h.once r (by simp)
  late := by
    intro pre hp
    rcases List.prefix_concat_iff.mp hp with rfl | hp
    · simp only [started_concat, called_concat] at hlt ⊢
      omega
    · exact h.late pre (hp.trans (List.prefix_append rs [r]))

end Accounts

/-! ### Every interleaving keeps an account -/

/-- The lambda is not evaluated yet. -/
def Worker.waits (w : Worker) : Bool := w = .started

theorem Worker.Advance.waits {raises : Nat → Bool} {now : Datagram} {w w' : Worker} {n : Int}
    {t : Nat} (h : w.Advance raises now w' n t) : w'.waits = false := by
  cases h <;> rfl

namespace Server
open Receipt

/-- What the step receives. -/
def receives (s : Server) : ServerEvent → List Datagram
  | .recvfrom d => if s.pc = .recvfrom then [⟨d.data.take 8, d.address⟩] else []
  | _ => []

/-- The account `rs` of a run that has led to `s`: the last receipt is what `data, address` hold,
with no thread of its own as long as the main thread is at it, and a thread that waits has made no
call. -/
structure Late (rs : List Receipt) (received admitted run : List Datagram) (s : Server) : Prop
    extends Accounts rs received admitted run where
  waiting : called rs + s.workers.countP Worker.waits = started rs
  none : rs = [] → s.pc = .boot ∨ s.pc = .recvfrom
  last : ∀ pre r, rs = pre ++ [r] →
    r.datagram = s.datagram ∧ (s.pc = .check ∨ s.pc = .spawn → r.threads = 0)

theorem late_fresh : fresh.Late [] [] [] [] where
  received := rfl
  admitted := rfl
  run := rfl
  once := by simp
  late := by simp [started, called]
  waiting := rfl
  none _ := .inl rfl
  last := by simp

variable {raises : Nat → Bool} {s s' : Server} {e : ServerEvent} {rs : List Receipt}
  {received admitted run : List Datagram}

/-- There is a last receipt as long as the main thread is at one. -/
theorem Late.concat_of_pc (h : s.Late rs received admitted run)
    (hpc : s.pc = .check ∨ s.pc = .spawn) : ∃ pre r, rs = pre ++ [r] := by
  rcases rs.eq_nil_or_concat' with rfl | h'
  · rcases h.none rfl with h₀ | h₀ <;> rw [h₀] at hpc <;> simp at hpc
  · exact h'

/-- A step of the main thread that starts no thread and receives nothing. -/
theorem Late.move (h : s.Late rs received admitted run) (hw : s'.workers = s.workers)
    (hd : s'.datagram = s.datagram) (hn : rs = [] → s'.pc = .boot ∨ s'.pc = .recvfrom)
    (hpc : s'.pc = .check ∨ s'.pc = .spawn → s.pc = .check ∨ s.pc = .spawn) :
    s'.Late rs received admitted run where
  toAccounts := h.toAccounts
  waiting := by rw [hw, h.waiting]
  none := hn
  last pre r e := by
    obtain ⟨hdata, ht⟩ := h.last pre r e
    exact ⟨hdata.trans hd.symm, fun h' => ht (hpc h')⟩

/-- A worker's step is its call, or makes none. -/
theorem Late.work (h : s.Late rs received admitted run) {i : Nat} {w w' : Worker} {n : Int}
    {t : Nat} (hi : s.workers[i]? = some w) (ha : w.Advance raises s.datagram w' n t) :
    ∃ rs', Late rs' received admitted (run ++ if w = .started then [s.datagram] else [])
      { s with
        workers := s.workers.set i w'
        nThreads := s.nThreads + n
        totalSleepTime := s.totalSleepTime + t } := by
  have hcount := List.countP_replaced Worker.waits hi w'
  rw [ha.waits] at hcount
  by_cases hw : w = .started
  · subst hw
    have hwait : Worker.waits .started = true := rfl
    simp only [hwait, if_true, Bool.false_eq_true, if_false] at hcount ⊢
    -- the thread that waits was started for a receipt
    have hlt : called rs < started rs := by
      have := h.waiting
      omega
    rcases rs.eq_nil_or_concat' with rfl | ⟨pre, r, rfl⟩
    · exact absurd hlt (Nat.not_lt_zero _)
    · obtain ⟨hdata, ht⟩ := h.last pre r rfl
      refine ⟨pre ++ [{ r with calls := r.calls + 1 }], ⟨?_, ?_, by simp, ?_⟩⟩
      · rw [← hdata]
        exact h.toAccounts.call hlt
      · have hwaiting := h.waiting
        simp only [called_concat, started_concat] at hwaiting ⊢
        omega
      · intro pre' r' e
        obtain ⟨-, rfl⟩ := List.append_inj' e rfl |>.imp_right List.singleton_inj.mp
        exact ⟨hdata, ht⟩
  · have hwait : w.waits = false := by simp [Worker.waits, hw]
    simp only [hwait, Bool.false_eq_true, if_false] at hcount
    rw [if_neg hw, List.append_nil]
    have hwaiting := h.waiting
    exact ⟨rs, ⟨h.toAccounts, by simp only; omega, h.none, h.last⟩⟩

theorem Move.late (h : s.Late rs received admitted run) (hmv : s.Move raises e s') :
    ∃ rs', s'.Late rs' (received ++ s.receives e) (admitted ++ s.admits e) (run ++ s.calls e) := by
  cases hmv with
  | receive d hpc =>
      simp only [receives, admits, calls, hpc, if_true, List.append_nil]
      refine ⟨rs ++ [⟨⟨d.data.take 8, d.address⟩, 0, 0⟩], ⟨h.receive _, ?_, by simp, ?_⟩⟩
      · simpa using h.waiting
      · intro pre r e
        obtain ⟨-, rfl⟩ := List.append_inj' e rfl |>.imp_right List.singleton_inj.mp
        exact ⟨rfl, fun _ => rfl⟩
  | deaf d hpc =>
      simp only [receives, admits, calls, hpc, if_false, List.append_nil]
      exact ⟨rs, h⟩
  | hello hpc | waiting hpc | busy hpc =>
      simp only [receives, admits, calls, hpc, reduceCtorEq, false_and, if_false, List.append_nil]
      refine ⟨rs, h.move rfl rfl (fun _ => ?_) ?_⟩ <;> simp [hpc]
  | accept hpc =>
      simp only [receives, admits, calls, hpc, reduceCtorEq, false_and, if_false, List.append_nil]
      obtain ⟨pre, r, rfl⟩ := h.concat_of_pc (.inl hpc)
      exact ⟨_, h.move rfl rfl (by simp) fun _ => .inl hpc⟩
  | skip hpc hd =>
      simp only [receives, admits, calls, hd, ne_eq, not_true_eq_false, and_false, if_false,
        List.append_nil]
      exact ⟨rs, h.move rfl rfl (fun _ => .inr rfl) (by simp)⟩
  | spawn hpc hd =>
      simp only [receives, admits, calls, hpc, ne_eq, hd, not_false_eq_true, and_self, if_true,
        List.append_nil]
      -- the job is the last receipt's, which has no thread yet
      obtain ⟨pre, r, rfl⟩ := h.concat_of_pc (.inr hpc)
      obtain ⟨hdata, ht⟩ := h.last pre r rfl
      have hr := ht (.inr hpc)
      refine ⟨pre ++ [{ r with threads := 1 }], ⟨?_, ?_, by simp, ?_⟩⟩
      · rw [← hdata]
        exact h.start hr
      · have hwaiting := h.waiting
        simp only [called_concat, started_concat, hr, List.countP_append] at hwaiting ⊢
        have hone : [Worker.started].countP Worker.waits = 1 := rfl
        omega
      · intro pre' r' e
        obtain ⟨-, rfl⟩ := List.append_inj' e rfl |>.imp_right List.singleton_inj.mp
        exact ⟨hdata, by simp⟩
  | work i hi ha =>
      rename_i w w' n t
      have hcall : s.calls (.work i) = if w = .started then [s.datagram] else [] := by
        rw [calls, hi]
        simp only [Option.some.injEq]
      simp only [receives, admits_work, List.append_nil, hcall]
      exact h.work hi ha
  | gone i hi =>
      simp only [receives, admits_work, calls, hi, if_false, List.append_nil]
      exact ⟨rs, h⟩

end Server

/-- The datagrams received, in a run of a process that has just started. -/
def receivedJobs (raises : Nat → Bool) (es : List ServerEvent) : List Datagram :=
  (server raises).collect Server.receives Server.fresh es

theorem late_after (raises : Nat → Bool) (es : List ServerEvent) :
    ∃ rs, ((server raises).after Server.fresh es).Late rs (receivedJobs raises es)
      (admittedJobs raises es) (calledJobs raises es) :=
  (server raises).after_induction (P := fun es s => ∃ rs, s.Late rs (receivedJobs raises es)
    (admittedJobs raises es) (calledJobs raises es)) ⟨[], Server.late_fresh⟩ (fun es e ⟨_, h⟩ => by
      rw [receivedJobs, admittedJobs, calledJobs, Machine.collect_snoc, Machine.collect_snoc,
        Machine.collect_snoc]
      exact Server.Move.late h (server_move raises _ e)) es

/-- **A job is run late, never early.**  In every run of a process, whatever is overwritten and
whichever sleeps raise: the datagrams received are run in the order of their receipt, each some
number of times in a row, and up to any receipt `handle_client` has been called no more often than
threads were started, at most one for each receipt.  When no worker is running or pending, every
thread has made its call. -/
theorem late_but_never_early (raises : Nat → Bool) (es : List ServerEvent) :
    (∃ rs, Accounts rs (receivedJobs raises es) (admittedJobs raises es) (calledJobs raises es)) ∧
      (((server raises).after Server.fresh es).Idle →
        (calledJobs raises es).length = (admittedJobs raises es).length) := by
  obtain ⟨rs, h⟩ := late_after raises es
  refine ⟨⟨rs, h.toAccounts⟩, fun hidle => ?_⟩
  have hnone : ((server raises).after Server.fresh es).workers.countP Worker.waits = 0 := by
    refine List.countP_eq_zero.mpr fun w hw hwait => ?_
    have hdone := hidle w hw
    rw [of_decide_eq_true hwait] at hdone
    cases hdone
  have hwaiting := h.waiting
  rw [h.length_run, h.length_admitted]
  omega

end EbpfLb
