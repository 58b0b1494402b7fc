import EbpfLoadBalancer.Server.Jobs

/-!
# Server — a slot is given back

A worker takes a slot when it increments `n_threads` and gives it back when it decrements it; the
`'D'` that gives the balancer its credit back comes after.  Between the two stands `time.sleep`,
which raises for a duration past its clock, and nothing in `handle_client` catches that: the thread
ends with the slot taken and no `'D'` sent.

What a worker has done can be read off where it is (`Worker.updates`, `Worker.answers`), in every
run.  So an ended worker has undone its increment and sent one `'D'`, and a failed one has done
neither; and slots are given back throughout a run exactly when no worker of it enters a sleep that
raises (`slotsGivenBack_iff`).
-/

namespace EbpfLb

namespace Worker

/-- What it has added to `n_threads`, in order. -/
def updates : Worker → List Int
  | started | called _ => []
  | sleeping _ | slept _ | summed _ | failed _ => [1]
  | released _ | ended _ => [1, -1]

/-- What it has sent to the balancer. -/
def answers : Worker → List U8
  | ended _ => [byteD]
  | _ => []

/-- It is alive, between its increment of `n_threads` and its decrement. -/
def running (w : Worker) : Bool := w.incremented && !w.finished

/-- How many steps it is from its decrement. -/
def left : Worker → Nat
  | sleeping _ => 3
  | slept _ => 2
  | summed _ => 1
  | _ => 0

variable {raises : Nat → Bool} {now : Datagram} {w w' : Worker} {n : Int} {t : Nat}

theorem Advance.updates (h : Advance raises now w w' n t) :
    w'.updates = w.updates ++ if n = 0 then [] else [n] := by
  cases h <;> simp [Worker.updates]

/-- A running worker gets closer to its decrement, unless its sleep raises. -/
theorem Advance.left_lt (h : Advance raises now w w' n t) (hw : w.running = true)
    (hr : ∀ d, w = sleeping d → raises (fromBytes d.data) = false) : w'.left < w.left := by
  cases h with
  | fail d hraise => exact absurd (hr d rfl) (by simp [hraise])
  | wake | sum | release => simp [left]
  | call | count | answer => cases hw

theorem running_of_incremented (hw : w.incremented = true) (hf : ∀ d, w ≠ failed d) :
    w.running = true := by
  cases w with
  | failed d => exact absurd rfl (hf d)
  | sleeping | slept | summed => rfl
  | started | called | released | ended => cases hw

end Worker

namespace Server

/-- What the step adds to `n_threads`, if it is the worker `i`'s. -/
def updates (raises : Nat → Bool) (i : Nat) (s : Server) : ServerEvent → List Int
  | .work j =>
    let n := (s.next raises (.work j)).nThreads - s.nThreads
    if j = i ∧ n ≠ 0 then [n] else []
  | _ => []

/-- What it sends to the balancer, if it is the worker `i`'s. -/
def answers (raises : Nat → Bool) (i : Nat) (s : Server) : ServerEvent → List U8
  | .work j => if j = i then ((s.work raises j).bind Prod.snd).toList else []
  | _ => []

/-- No worker enters `time.sleep` with a duration for which it raises. -/
def SleepsFit (raises : Nat → Bool) (s : Server) : ServerEvent → Prop
  | .work i => ∀ d, s.workers[i]? = some (.called d) → raises (fromBytes d.data) = false
  | _ => True

end Server

/-- What the worker `i` adds to `n_threads` in the run. -/
def updatesBy (raises : Nat → Bool) (i : Nat) (es : List ServerEvent) : List Int :=
  (server raises).collect (Server.updates raises i) Server.fresh es

/-- What it sends to the balancer. -/
def answersBy (raises : Nat → Bool) (i : Nat) (es : List ServerEvent) : List U8 :=
  (server raises).collect (Server.answers raises i) Server.fresh es

/-- After the run on `es`: a worker whose thread is over has incremented `n_threads` and decremented
it, and sent one `'D'`; `n_threads` is the number of workers running; and their steps can take it
to zero. -/
structure SlotsGivenBack (raises : Nat → Bool) (es : List ServerEvent) : Prop where
  ended : ∀ i w, ((server raises).after Server.fresh es).workers[i]? = some w →
    w.finished = true → updatesBy raises i es = [1, -1] ∧ answersBy raises i es = [byteD]
  count : ((server raises).after Server.fresh es).nThreads =
    ((server raises).after Server.fresh es).workers.countP Worker.running
  drains : ∃ ws, (∀ e ∈ ws, ∃ i, e = .work i) ∧
    ((server raises).after ((server raises).after Server.fresh es) ws).nThreads = 0

namespace Server

/-! ### What a worker has done -/

/-- What `f` makes of the worker `i`; nothing if there is none. -/
def atWorker {α : Type*} (i : Nat) (f : Worker → List α) (s : Server) : List α :=
  s.workers[i]?.elim [] f

section
variable {raises : Nat → Bool} {i : Nat} {s : Server} {e : ServerEvent}

/-- A worker that is over takes no step. -/
theorem work_eq_none (h : ∀ w, s.workers[i]? = some w → w.finished = true) :
    s.work raises i = none := by
  rw [work]
  cases hi : s.workers[i]? with
  | none => rfl
  | some w =>
      have hw := h w hi
      cases w with
      | ended | failed => rfl
      | started | called | sleeping | slept | summed | released => cases hw

/-- A worker steps, or nothing happens. -/
theorem work_cases (raises : Nat → Bool) (s : Server) (i : Nat) :
    s.work raises i = none ∨ ∃ w, s.workers[i]? = some w ∧ w.finished = false := by
  cases hi : s.workers[i]? with
  | none => exact .inl (work_eq_none fun w hw => by rw [hi] at hw; cases hw)
  | some w =>
      cases hw : w.finished with
      | true =>
          refine .inl (work_eq_none fun w' hw' => ?_)
          obtain rfl := Option.some.inj (hi.symm.trans hw')
          exact hw
      | false => exact .inr ⟨w, rfl, hw⟩

/-- Nothing another thread does changes where a worker is. -/
theorem atWorker_next {α : Type*} {f : Worker → List α} (hf : f .started = [])
    (he : e ≠ .work i) : atWorker i f (s.next raises e) = atWorker i f s := by
  have hmv := s.next_move raises e
  generalize s.next raises e = s' at hmv
  cases hmv with
  | receive | deaf | hello | waiting | busy | accept | skip | gone => rfl
  | spawn =>
      show ((s.workers ++ [Worker.started])[i]?).elim [] f = _
      rw [atWorker, List.getElem?_append]
      split
      · rfl
      · rename_i hlt
        rw [List.getElem?_eq_none (Nat.not_lt.mp hlt)]
        cases i - s.workers.length with
        | zero => exact hf
        | succ n => rfl
  | work j hj ha =>
      have hji : j ≠ i := fun h => he (h ▸ rfl)
      show ((s.workers.set j _)[i]?).elim [] f = _
      rw [List.getElem?_set_ne hji, atWorker]

theorem next_updates (raises : Nat → Bool) (i : Nat) (s : Server) (e : ServerEvent) :
    atWorker i Worker.updates (s.next raises e) =
      atWorker i Worker.updates s ++ s.updates raises i e := by
  by_cases he : e = .work i
  · subst he
    rcases work_cases raises s i with hnone | ⟨w, hi, hw⟩
    · have hs : s.next raises (.work i) = s := by rw [next, hnone]; rfl
      simp [updates, hs]
    · obtain ⟨w', n, t, ha, e⟩ := next_work raises hi hw
      have hlt : i < s.workers.length := (List.getElem?_eq_some_iff.mp hi).1
      have hdiff : s.nThreads + n - s.nThreads = n := by omega
      simp only [updates, atWorker, e, hdiff, List.getElem?_set_self hlt, hi, Option.elim,
        ha.updates, true_and, ne_eq, ite_not]
  · have hnone : s.updates raises i e = [] := by
      cases e with
      | recvfrom | main => rfl
      | work j => exact if_neg fun h => he (congrArg _ h.1)
    rw [atWorker_next rfl he, hnone, List.append_nil]

theorem answers_of_work {s' : Server} {o : Option U8} {w w' : Worker}
    (hi : s.workers[i]? = some w) (hwork : s.work raises i = some (s', o))
    (hs : s'.workers = s.workers.set i w') (ha : w'.answers = w.answers ++ o.toList) :
    atWorker i Worker.answers (s.next raises (.work i)) =
      atWorker i Worker.answers s ++ s.answers raises i (.work i) := by
  have hlt : i < s.workers.length := (List.getElem?_eq_some_iff.mp hi).1
  have hnext : s.next raises (.work i) = s' := by rw [next, hwork]; rfl
  have hsent : s.answers raises i (.work i) = o.toList := by
    rw [answers, if_pos rfl, hwork]
    rfl
  rw [hnext, hsent, atWorker, atWorker, hs, List.getElem?_set_self hlt, hi]
  exact ha

theorem next_answers (raises : Nat → Bool) (i : Nat) (s : Server) (e : ServerEvent) :
    atWorker i Worker.answers (s.next raises e) =
      atWorker i Worker.answers s ++ s.answers raises i e := by
  by_cases he : e = .work i
  · subst he
    rcases work_cases raises s i with hnone | ⟨w, hi, hw⟩
    · have hs : s.next raises (.work i) = s := by rw [next, hnone]; rfl
      simp [answers, hs, hnone]
    · cases w with
      | started | called | slept | summed | released =>
          exact answers_of_work hi (by rw [work, hi]) rfl rfl
      | sleeping d =>
          cases hr : raises (fromBytes d.data) with
          | true => exact answers_of_work hi (by rw [work, hi]; exact if_pos hr) rfl rfl
          | false =>
              exact answers_of_work hi (by rw [work, hi]; exact if_neg (by simp [hr])) rfl rfl
      | ended | failed => cases hw
  · have hnone : s.answers raises i e = [] := by
      cases e with
      | recvfrom | main => rfl
      | work j => exact if_neg fun h => he (congrArg _ h)
    rw [atWorker_next rfl he, hnone, List.append_nil]

end

end Server

/-- **Where a worker is tells what it has done**, in every run. -/
theorem updatesBy_eq (raises : Nat → Bool) (i : Nat) (es : List ServerEvent) :
    updatesBy raises i es =
      Server.atWorker i Worker.updates ((server raises).after Server.fresh es) :=
  ((server raises).after_eq_append_collect (Server.next_updates raises i) Server.fresh es).symm

theorem answersBy_eq (raises : Nat → Bool) (i : Nat) (es : List ServerEvent) :
    answersBy raises i es =
      Server.atWorker i Worker.answers ((server raises).after Server.fresh es) :=
  ((server raises).after_eq_append_collect (Server.next_answers raises i) Server.fresh es).symm

/-! ### Runs in which every sleep ends -/

namespace Server
variable {raises : Nat → Bool} {s s' : Server} {e : ServerEvent}

/-- `n_threads` counts the workers past their increment, the workers asleep will wake, and none has
failed. -/
structure Fitting (raises : Nat → Bool) (s : Server) : Prop where
  count : s.nThreads = s.workers.countP Worker.incremented
  wakes : ∀ d, .sleeping d ∈ s.workers → raises (fromBytes d.data) = false
  alive : ∀ d, .failed d ∉ s.workers

theorem fitting_fresh : fresh.Fitting raises := ⟨rfl, by simp [fresh], by simp [fresh]⟩

theorem Move.fitting (h : s.Fitting raises) (hf : s.SleepsFit raises e)
    (hmv : s.Move raises e s') : s'.Fitting raises := by
  have hcount := hmv.count h.count
  cases hmv with
  | receive | deaf | hello | waiting | busy | accept | skip | gone =>
      exact ⟨hcount, h.wakes, h.alive⟩
  | spawn => exact ⟨hcount, by simpa using h.wakes, by simpa using h.alive⟩
  | work i hi ha =>
      refine ⟨hcount, fun d hd => ?_, fun d hd => ?_⟩
      · rcases List.mem_or_eq_of_mem_set hd with hold | rfl
        · exact h.wakes d hold
        · cases ha with
          | count => exact hf d hi
      · rcases List.mem_or_eq_of_mem_set hd with hold | rfl
        · exact h.alive d hold
        · -- a sleep that raises is not one of those that will wake
          cases ha with
          | fail _ hr =>
              rw [h.wakes d (List.mem_of_getElem? hi)] at hr
              cases hr

theorem Fitting.running_of_mem (h : s.Fitting raises) {w : Worker} (hw : w ∈ s.workers)
    (hinc : w.incremented = true) : w.running = true :=
  Worker.running_of_incremented hinc fun d e => h.alive d (e ▸ hw)

theorem Fitting.count_running (h : s.Fitting raises) :
    s.nThreads = s.workers.countP Worker.running := by
  rw [h.count]
  congr 1
  refine List.countP_congr fun w hw => ⟨h.running_of_mem hw, fun hr => ?_⟩
  rw [Worker.running, Bool.and_eq_true] at hr
  exact hr.1

/-- A running worker's step brings it closer to its decrement. -/
theorem Fitting.advance (h : s.Fitting raises) (hn : s.nThreads ≠ 0) :
    ∃ e, (∃ i, e = .work i) ∧ ((server raises).step s e).Fitting raises ∧
      (((server raises).step s e).workers.map Worker.left).sum <
        (s.workers.map Worker.left).sum := by
  have hpos : 0 < s.workers.countP Worker.incremented := by
    have := h.count
    omega
  obtain ⟨w, hmem, hinc⟩ := List.countP_pos_iff.mp hpos
  have hrun := h.running_of_mem hmem hinc
  obtain ⟨i, hi⟩ := List.mem_iff_getElem?.mp hmem
  have hw : w.finished = false := by
    rw [Worker.running, Bool.and_eq_true, Bool.not_eq_true'] at hrun
    exact hrun.2
  have hfit : s.SleepsFit raises (.work i) := by
    intro d hd
    obtain rfl := Option.some.inj (hi.symm.trans hd)
    cases hinc
  refine ⟨.work i, ⟨i, rfl⟩, (server_move raises s (.work i)).fitting h hfit, ?_⟩
  obtain ⟨w', n, t, ha, hnext⟩ := next_work raises hi hw
  have hstep : (server raises).step s (.work i) = s.next raises (.work i) := rfl
  have hleft := ha.left_lt hrun fun d hd => h.wakes d (hd ▸ hmem)
  have hsum := List.sum_map_replaced Worker.left hi w'
  rw [hstep, hnext]
  show ((s.workers.set i w').map Worker.left).sum < _
  omega

/-- The workers' own steps give every slot back. -/
theorem Fitting.drains (h : s.Fitting raises) :
    ∃ ws, (∀ e ∈ ws, ∃ i, e = .work i) ∧ ((server raises).after s ws).nThreads = 0 := by
  obtain ⟨ws, hws, -, hzero⟩ := (server raises).exists_after_of_decreasing
    (P := fun s => s.Fitting raises) (Q := fun s => s.nThreads = 0)
    (fun s => (s.workers.map Worker.left).sum) (fun _ h hn => h.advance hn) h
  exact ⟨ws, hws, hzero⟩

/-! ### A sleep that raises -/

/-- The worker `i` is in its sleep on `d`, or the sleep has ended it. -/
def Stuck (i : Nat) (d : Datagram) (s : Server) : Prop :=
  s.workers[i]? = some (.sleeping d) ∨ s.workers[i]? = some (.failed d)

variable {i : Nat} {d : Datagram}

/-- Where the sleep raises the worker stays there, whatever happens. -/
theorem Move.stuck (hr : raises (fromBytes d.data) = true) (h : s.Stuck i d)
    (hmv : s.Move raises e s') : s'.Stuck i d := by
  cases hmv with
  | receive | deaf | hello | waiting | busy | accept | skip | gone => exact h
  | spawn =>
      have hlt : i < s.workers.length := by
        rcases h with h | h <;> exact (List.getElem?_eq_some_iff.mp h).1
      rw [Stuck, List.getElem?_append_left hlt]
      exact h
  | work j hj ha =>
      by_cases hji : j = i
      · subst hji
        have hlt : j < s.workers.length := (List.getElem?_eq_some_iff.mp hj).1
        rw [Stuck, List.getElem?_set_self hlt]
        rcases h with h | h
        · obtain rfl := Option.some.inj (hj.symm.trans h)
          cases ha with
          | fail => exact .inr rfl
          | wake _ hw =>
              rw [hr] at hw
              cases hw
        · obtain rfl := Option.some.inj (hj.symm.trans h)
          cases ha
      · rw [Stuck, List.getElem?_set_ne hji]
        exact h

/-- It holds its slot. -/
theorem Stuck.nThreads_pos (h : s.Stuck i d)
    (hc : s.nThreads = s.workers.countP Worker.incremented) : 0 < s.nThreads := by
  have hpos : 0 < s.workers.countP Worker.incremented := by
    rcases h with h | h <;> exact List.countP_pos_iff.mpr ⟨_, List.mem_of_getElem? h, rfl⟩
  omega

end Server

theorem count_after (raises : Nat → Bool) (es : List ServerEvent) :
    ((server raises).after Server.fresh es).nThreads =
      ((server raises).after Server.fresh es).workers.countP Worker.incremented :=
  (server raises).after_invariant
    (P := fun s => s.nThreads = s.workers.countP Worker.incremented) rfl
    (fun s e h => (server_move raises s e).count h) es

/-- With no sleep that raises, slots are given back. -/
theorem slotsGivenBack_of_fit {raises : Nat → Bool} {es : List ServerEvent}
    (h : (server raises).Along (Server.SleepsFit raises) Server.fresh es) :
    SlotsGivenBack raises es := by
  have hfit : ((server raises).after Server.fresh es).Fitting raises :=
    h.invariant (fun s e hs he => (server_move raises s e).fitting hs he) Server.fitting_fresh
  refine ⟨fun i w hi hw => ?_, hfit.count_running, hfit.drains⟩
  rw [updatesBy_eq, answersBy_eq, Server.atWorker, Server.atWorker, hi]
  cases w with
  | ended d => exact ⟨rfl, rfl⟩
  | failed d => exact absurd (List.mem_of_getElem? hi) (hfit.alive d)
  | started | called | sleeping | slept | summed | released => cases hw

/-- After a worker has entered a sleep that raises, they are not. -/
theorem not_slotsGivenBack {raises : Nat → Bool} {es : List ServerEvent} {i : Nat} {d : Datagram}
    (hi : ((server raises).after Server.fresh es).workers[i]? = some (.called d))
    (hr : raises (fromBytes d.data) = true) : ¬ SlotsGivenBack raises (es ++ [.work i]) := by
  intro h
  obtain ⟨ws, -, hzero⟩ := h.drains
  have hstuck : ((server raises).after Server.fresh (es ++ [.work i])).Stuck i d := by
    have hlt := (List.getElem?_eq_some_iff.mp hi).1
    rw [Machine.after_snoc]
    left
    show (Server.next raises _ (.work i)).workers[i]? = _
    obtain ⟨w', n, t, ha, e⟩ := Server.next_work raises hi rfl
    rw [e]
    cases ha with
    | count => exact List.getElem?_set_self hlt
  have hlast := (server raises).after_invariant (P := fun s => s.Stuck i d) hstuck
    (fun s e hs => (server_move raises s e).stuck hr hs) ws
  rw [← Machine.after_append] at hlast hzero
  have hpos := hlast.nThreads_pos (count_after raises _)
  omega

/-- **Slots are given back exactly when every sleep fits the clock**: throughout a run, a worker
whose thread is over has undone its increment and sent one `'D'`, `n_threads` counts the workers
running, and no slot is used up for good, if and only if no worker of the run enters `time.sleep`
with a duration for which it raises. -/
theorem slotsGivenBack_iff {raises : Nat → Bool} {es : List ServerEvent} :
    (∀ pre post, es = pre ++ post → SlotsGivenBack raises pre) ↔
      (server raises).Along (Server.SleepsFit raises) Server.fresh es := by
  constructor
  · intro h
    rw [Machine.along_iff]
    rintro pre e post rfl
    cases e with
    | recvfrom | main => trivial
    | work i =>
        intro d hi
        by_contra hr
        rw [Bool.not_eq_false] at hr
        exact not_slotsGivenBack hi hr (h (pre ++ [.work i]) post (by simp))
  · rintro h pre post rfl
    exact slotsGivenBack_of_fit (Machine.along_append.mp h).1

end EbpfLb
