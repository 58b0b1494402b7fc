import EbpfLoadBalancer.Protocol.Faults
import EbpfLoadBalancer.Protocol.Recovery
import Mathlib.Algebra.BigOperators.Group.Finset.Piecewise

/-!
# Protocol — no livelock

Every event that changes the system uses up some of what is there to do (`System.todo`): a host
without a process is to start one, a process is to send its `'S'`, and a job is to be received and
answered.  Only a client, a death, a reload and a message doubled add to it, and what goes wrong
otherwise takes from it.  So a run changes the system a bounded number of times
(`effective_steps`), and whoever schedules the threads and the network, the system comes to rest.
-/

namespace EbpfLb
open Bpf

variable {D : Deployment}

/-! ### What is there to do -/

/-- What a process has to do: its `'S'` counts twice, for the step that sends it and for the
balancer's. -/
def Server.todo (s : Server) : Nat := s.weight + 2 * s.pending

/-- What the host has to do: to start a process, if it has none. -/
def hostTodo (o : Option Server) : Nat := o.elim 3 Server.todo

def Msg.todo : Msg D → Nat
  | job _ => 11
  | ping _ => 1
  | dispatch _ => 10

/-- What there is to do: a job that waits has ten steps to go. -/
def System.todo (s : System D) : Nat :=
  10 * s.maps.queue.items.length + (s.net.map Msg.todo).sum + ∑ h, hostTodo (s.server h)

/-- What an event may add to it, and the event itself. -/
def Event.budget : Event D → Nat
  | client _ => 12
  | die _ => 4
  | reload => 1
  | _ => 0

def FaultyEvent.budget : FaultyEvent D → Nat
  | event e => e.budget
  | duplicate _ => 12
  | raise .. | stuck _ | drop _ => 0

namespace Server
variable {s s' : Server} {o : Option U8}

/-- A step of a thread leaves less to do, and a byte that it sends counts for one. -/
theorem Acts.todo (ha : s.Acts s' o) : s'.todo + 1 + o.toList.length ≤ s.todo := by
  rcases ha with hm | ⟨i, hw⟩
  · rw [main] at hm
    split at hm
    · -- `boot`
      rename_i hpc
      cases hm
      simp [Server.todo, weight, pending, hpc, MainPc.weight]
    · cases hm
    · -- `check`
      rename_i hpc
      split at hm <;>
      · cases hm
        simp only [Server.todo, weight, pending, hpc, MainPc.weight, reduceCtorEq, if_false,
          Option.toList, List.length_nil]
        omega
    · -- `spawn`
      rename_i hpc
      split at hm <;>
      · cases hm
        simp only [Server.todo, weight, pending, hpc, MainPc.weight, Worker.weight, reduceCtorEq,
          if_false, Option.toList, List.length_nil, List.map_append, List.map_cons, List.map_nil,
          List.sum_append, List.sum_cons, List.sum_nil]
        omega
  · rcases work_cases (fun _ => false) s i with hnone | ⟨w, hi, hf⟩
    · rw [hnone] at hw
      cases hw
    · have hu : w.unanswered = true := by
        cases w with
        | ended | failed => cases hf
        | started | called | sleeping | slept | summed | released => rfl
      -- a worker's step leaves the main thread where it is
      have hpc : s'.pending = s.pending := by
        obtain ⟨w', n, t, -, hnext⟩ := next_work (fun _ => false) hi hf
        have hs : s.next (fun _ => false) (.work i) = s' := by rw [next, hw]; rfl
        rw [← hs, hnext]
        rfl
      obtain ⟨t, b, hwork, hlt⟩ := work_progress hi hu
      cases hw.symm.trans hwork
      simp only [Server.todo, hpc]
      rcases hlt with ⟨rfl, hlt⟩ | ⟨rfl, hlt⟩
      · simp only [Option.toList_none, List.length_nil]
        omega
      · simp only [Option.toList_some, List.length_singleton]
        omega

/-- Only a sleep can raise. -/
theorem work_raising (s : Server) (i : Nat) :
    s.work (fun _ => true) i = s.work (fun _ => false) i ∨ ∃ d,
      s.workers[i]? = some (.sleeping d) ∧
        s.work (fun _ => true) i = some (s.setWorker i (.failed d), none) := by
  rw [work, work]
  cases hi : s.workers[i]? with
  | none => exact .inl rfl
  | some w =>
      cases w with
      | sleeping d => exact .inr ⟨d, rfl, rfl⟩
      | started | called | slept | summed | released | ended | failed => exact .inl rfl

/-- And then leaves less to do. -/
theorem todo_work_raising {i : Nat} (hw : s.work (fun _ => true) i = some (s', o)) :
    s'.todo + 1 + o.toList.length ≤ s.todo := by
  rcases s.work_raising i with hsame | ⟨d, hi, hfail⟩
  · exact Acts.todo (.inr ⟨i, hsame ▸ hw⟩)
  · cases hfail.symm.trans hw
    have hsum := List.sum_map_replaced Worker.weight hi (.failed d)
    have hpend : (s.setWorker i (.failed d)).pending = s.pending := rfl
    have hweight : (s.setWorker i (.failed d)).weight =
        s.pc.weight + ((s.workers.set i (.failed d)).map Worker.weight).sum := rfl
    simp only [Worker.weight] at hsum
    rw [todo, todo, hpend, hweight, weight, Option.toList_none, List.length_nil]
    omega

theorem todo_recvfrom {d : Datagram} (hr : s.recvfrom d = some s') :
    s'.todo = s.todo + 9 := by
  rw [recvfrom] at hr
  split at hr
  · rename_i hpc
    cases hr
    simp [Server.todo, weight, pending, hpc, MainPc.weight]
    omega
  · cases hr

end Server

namespace System
variable (s : System D)

theorem sum_update {n : Nat} (f : Fin n → Nat) (i : Fin n) (b : Nat) :
    ∑ j, Function.update f i b j + f i = ∑ j, f j + b := by
  rw [Finset.sum_update_of_mem (Finset.mem_univ i), ← Finset.erase_eq,
    ← Finset.add_sum_erase Finset.univ f (Finset.mem_univ i)]
  omega

theorem todo_setServer (g : Fin D.hosts) (o : Option Server) :
    (s.setServer g o).todo + hostTodo (s.server g) = s.todo + hostTodo o := by
  have hcomp : (fun h => hostTodo ((s.setServer g o).server h)) =
      Function.update (fun h => hostTodo (s.server h)) g (hostTodo o) :=
    Function.comp_update hostTodo s.server g o
  have hsum : ∑ h, hostTodo ((s.setServer g o).server h) + hostTodo (s.server g) =
      ∑ h, hostTodo (s.server h) + hostTodo o := by
    rw [hcomp]
    exact sum_update _ g _
  have htodo : (s.setServer g o).todo = 10 * s.maps.queue.items.length +
      (s.net.map Msg.todo).sum + ∑ h, hostTodo ((s.setServer g o).server h) := rfl
  rw [htodo, todo]
  omega

theorem todo_send (m : Msg D) : (s.send m).todo = s.todo + m.todo := by
  simp only [todo, send, Multiset.map_cons, Multiset.sum_cons]
  omega

theorem todo_take {m : Msg D} (hm : m ∈ s.net) : (s.take m).todo + m.todo = s.todo := by
  have hsum := congrArg (fun n => (n.map Msg.todo).sum) (Multiset.cons_erase hm)
  simp only [Multiset.map_cons, Multiset.sum_cons] at hsum
  simp only [todo, take, ← hsum]
  omega

theorem todo_balanced {m : Msg D} (hm : m ∈ s.net) (o : Outcome) :
    (s.balanced m o).todo + m.todo + 10 * s.maps.queue.items.length =
      s.todo + 10 * (o.maps.queue.items.length + if o.verdict = .tx then 1 else 0) := by
  have htake := s.todo_take hm
  have hmaps : { s.take m with maps := o.maps }.todo + 10 * s.maps.queue.items.length =
      (s.take m).todo + 10 * o.maps.queue.items.length := by
    simp only [todo, take]
    omega
  rw [balanced]
  split
  · rw [todo_send, Msg.todo]
    omega
  · omega

end System

/-- A job is sent on, or waits, or is refused. -/
theorem Move.length_queue_job {tail : Option (Vector U8 7)} {m : Maps} {f : Frame} {o : Outcome}
    (hmv : Move tail m f o) (hj : IsJob f.bytes) :
    o.maps.queue.items.length + (if o.verdict = .tx then 1 else 0) ≤
      m.queue.items.length + 1 := by
  cases hmv with
  | other _ hj' => exact absurd hj hj'
  | refuse hp | register _ hp | done _ hp | drain _ _ _ _ _ hp | stuck _ hp =>
      exact absurd hj hp.not_isJob
  | send => simp
  | wait =>
      simp only [reduceCtorEq, if_false, Maps.pushed_queue, QueueMap.items_push]
      split <;> simp

/-- A ping sends on what it takes off the queue, or loses it. -/
theorem Move.length_queue_ping {tail : Option (Vector U8 7)} {m : Maps} {f : Frame} {o : Outcome}
    (hmv : Move tail m f o) (hp : IsPing f.bytes) :
    o.maps.queue.items.length + (if o.verdict = .tx then 1 else 0) ≤ m.queue.items.length := by
  cases hmv with
  | other hp' => exact absurd hp hp'
  | refuse | register | done => simp
  | drain _ _ _ _ _ _ _ _ hq => simp [hq]
  | stuck => simp
  | send _ hj | wait hj => exact absurd hj hp.not_isJob

section
variable {s s' : System D} {e : Event D}

/-- The balancer's step on a message leaves less to do. -/
theorem System.balanced_todo (hm : CreditBound s.maps) {m : Msg D} {f : Frame}
    (hf : m.toBalancer = some f) (hin : m ∈ s.net) (tail : Option (Vector U8 7)) :
    (s.balanced m (loadBalancer tail s.maps f)).todo + 1 ≤ s.todo := by
  have hmv := loadBalancer_move tail f hm
  have hb := s.todo_balanced hin (loadBalancer tail s.maps f)
  generalize loadBalancer tail s.maps f = o at hmv hb ⊢
  cases m with
  | job j =>
      cases hf
      have hq := hmv.length_queue_job j.isJob
      simp only [Msg.todo] at hb
      omega
  | ping p =>
      cases hf
      have hq := hmv.length_queue_ping p.isPing
      simp only [Msg.todo] at hb
      omega
  | dispatch => cases hf

/-- And so does the receipt of a job. -/
theorem System.received_todo {g : Fin D.hosts} {f : Bytes} {srv srv' : Server}
    (hm : .dispatch f ∈ s.net) (hsrv : s.server g = some srv)
    (hr : srv.recvfrom (System.datagramOf f) = some srv') :
    ((s.setServer g (some srv')).take (.dispatch f)).todo + 1 ≤ s.todo := by
  have hset := s.todo_setServer g (some srv')
  have htake := (s.setServer g (some srv')).todo_take (m := .dispatch f) hm
  have hrecv := Server.todo_recvfrom hr
  simp only [hsrv, hostTodo, Option.elim, Msg.todo] at hset htake
  omega

/-- **Every event that changes the system leaves less to do**, but for what a client, a death or a
reload adds. -/
theorem Change.todo (hb : CreditBound s.maps) (hc : Change s e s') :
    s' = s ∨ s'.todo + 1 ≤ s.todo + e.budget := by
  have hset := fun g o => s.todo_setServer g o
  cases hc with
  | idle => exact .inl rfl
  | client j =>
      right
      simp only [System.todo_send, Msg.todo, Event.budget]
      omega
  | start g hn =>
      right
      have hg := hset g (some .fresh)
      rw [hn] at hg
      have hfresh : hostTodo (some .fresh) = 2 := rfl
      have hnone : hostTodo none = 3 := rfl
      show (s.setServer g (some .fresh)).todo + 1 ≤ _
      omega
  | quiet e g srv srv' hsrv ha =>
      right
      have hg := hset g (some srv')
      have hlt := ha.todo
      simp only [hsrv, hostTodo, Option.elim, Option.toList_none, List.length_nil] at hg hlt
      omega
  | sent e p srv srv' _ hsrv ha =>
      right
      have hg := hset p.host (some srv')
      have hlt := ha.todo
      simp only [hsrv, hostTodo, Option.elim, Option.toList_some, List.length_singleton] at hg hlt
      rw [System.todo_send, Msg.todo]
      omega
  | receive g f srv srv' hm _ hsrv hr => exact .inr (System.received_todo hm hsrv hr)
  | balance m f tail hf hm => exact .inr (System.balanced_todo hb hf hm (some tail))
  | die g =>
      right
      have hg := hset g none
      have hnone : hostTodo none = 3 := rfl
      simp only [Event.budget]
      omega
  | reload =>
      right
      have hle : ({ s with maps := Maps.empty } : System D).todo ≤ s.todo := by
        simp only [System.todo, Maps.empty, QueueMap.empty, List.length_nil]
        omega
      simp only [Event.budget]
      omega

end

/-- What goes wrong leaves less to do too, but for a message doubled. -/
theorem System.stepFaulty_todo {s : System D} (hb : CreditBound s.maps) (e : FaultyEvent D) :
    s.stepFaulty e = s ∨ (s.stepFaulty e).todo + 1 ≤ s.todo + e.budget := by
  cases e with
  | event e => exact (protocol_change s e).todo hb
  | raise h i f =>
      cases hs : s.server h with
      | none => exact .inl (by rw [stepFaulty, stepRaising, hs, Option.bind_none, acted])
      | some srv =>
          rw [stepFaulty, stepRaising, hs, Option.bind_some]
          cases hw : srv.work (fun _ => true) i with
          | none => exact .inl rfl
          | some r =>
              obtain ⟨srv', o⟩ := r
              have hset := s.todo_setServer h (some srv')
              have hlt := Server.todo_work_raising hw
              simp only [hs, hostTodo, Option.elim] at hset
              cases o with
              | none =>
                  right
                  rw [acted]
                  omega
              | some b =>
                  rw [Option.toList_some, List.length_singleton] at hlt
                  rw [acted]
                  split
                  · right
                    rw [todo_send, Msg.todo]
                    omega
                  · exact .inl rfl
  | stuck m =>
      rw [stepFaulty]
      cases hf : m.toBalancer with
      | none => exact .inl rfl
      | some f =>
          dsimp only
          split
          · rename_i hm
            exact .inr (balanced_todo hb hf hm none)
          · exact .inl rfl
  | drop m =>
      rw [stepFaulty]
      split
      · rename_i hm
        right
        have htake := s.todo_take hm
        have hpos : 1 ≤ m.todo := by cases m <;> simp [Msg.todo]
        omega
      · exact .inl rfl
  | duplicate m =>
      rw [stepFaulty]
      split
      · right
        have hle : m.todo ≤ 11 := by cases m <;> simp [Msg.todo]
        rw [todo_send, FaultyEvent.budget]
        omega
      · exact .inl rfl

/-! ### Every run comes to an end -/

instance : DecidableEq (System D) := fun s t =>
  decidable_of_iff (s.maps = t.maps ∧ s.gen = t.gen ∧ s.server = t.server ∧ s.net = t.net) (by
    cases s
    cases t
    simp)

instance : DecidableEq (Audit D) := fun a b =>
  decidable_of_iff (a.surplus = b.surplus ∧ a.lost = b.lost) (by
    cases a
    cases b
    simp)

instance : DecidableEq (Faulty D) := fun s t =>
  decidable_of_iff (s.system = t.system ∧ s.audit = t.audit ∧ s.dropped = t.dropped) (by
    cases s
    cases t
    simp)

/-- The auditor has nothing to book where nothing happens. -/
theorem Audit.next_self (s : System D) (a : Audit D) : a.next s s = a := by
  have hj : ∀ h, ¬ JustRegistered s s h := fun h => not_justRegistered_of_maps rfl h
  have hheld : ∀ h, (if s.server h = none then s.held h else 0) = 0 := by
    intro h
    split
    · rename_i hs
      rw [System.held, hs]
      rfl
    · rfl
  simp only [next, if_neg (hj _), hheld, Nat.sub_self, Nat.add_zero]

/-- So an event that leaves the system as it is leaves everything so. -/
theorem Faulty.step_self {s : Faulty D} {e : FaultyEvent D}
    (h : s.system.stepFaulty e = s.system) : s.step e = s := by
  obtain ⟨system, audit, dropped⟩ := s
  have hcard : ∀ m ∈ system.net, (system.net.erase m).card ≠ system.net.card := fun m hm => by
    have hlt := Multiset.card_erase_lt_of_mem hm
    omega
  simp only at h
  cases e with
  | event | raise | stuck => simp only [step, h, Audit.nextFaulty, Audit.next_self]
  | drop m =>
      by_cases hm : m ∈ system.net
      · rw [System.stepFaulty, if_pos hm] at h
        exact absurd (congrArg (fun t : System D => t.net.card) h) (hcard m hm)
      · simp only [step, h, Audit.nextFaulty, if_neg hm]
  | duplicate m =>
      by_cases hm : m ∈ system.net
      · rw [System.stepFaulty, if_pos hm] at h
        have hsame := congrArg (fun t : System D => t.net.card) h
        simp only [System.send, Multiset.card_cons] at hsame
        omega
      · simp only [step, h, Audit.nextFaulty, if_neg hm]

/-- A run changes the system as often as there is to do, and no more. -/
theorem effective_le {s : Faulty D} (hs : Sound s.system.revived) (es : List (FaultyEvent D)) :
    ((faulty D).after s es).system.todo + ((faulty D).effective s es).length ≤
      s.system.todo + (es.map FaultyEvent.budget).sum :=
  (faulty D).effective_length_le (P := fun s => Sound s.system.revived)
    (fun s => s.system.todo) FaultyEvent.budget (fun _ e h => h.stepFaulty e)
    (fun _ e h => (System.stepFaulty_todo h.bound_revived e).imp_left Faulty.step_self) hs es

/-- **No livelock.**  In every run, whatever goes wrong, the events that change something are at
most three for each host, twelve for each job the clients send and each message doubled, four for
each death and one for each reload. -/
theorem effective_steps (es : List (FaultyEvent D)) :
    ((faulty D).effective .initial es).length ≤
      3 * D.hosts + (es.map FaultyEvent.budget).sum := by
  have hle := effective_le (D := D) (s := Faulty.initial) sound_initial es
  have h₀ : (System.initial : System D).todo = 3 * D.hosts := by
    have hsum : ∑ h : Fin D.hosts, hostTodo ((System.initial : System D).server h) =
        D.hosts * 3 := by
      simp [System.initial, hostTodo]
    rw [System.todo, hsum]
    simp [System.initial, Maps.empty, QueueMap.empty]
    omega
  have h₁ : (Faulty.initial : Faulty D).system.todo = 3 * D.hosts := h₀
  omega

end EbpfLb
