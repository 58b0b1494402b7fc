import EbpfLoadBalancer.Model.Client
import EbpfLoadBalancer.Protocol.Delivery

/-!
# Protocol — the totals agree

The client and every server print the time that has been slept.  What a server has received is at
every moment in its total or still to be added to it (`Server.worked`), as long as it turns no job
away and no datagram overwrites another one under a thread that has yet to read it; a sleep that
raises is never added.  No server turns a job away in a first run, and a client sends fewer jobs
than the queue can hold.  So once the system is at rest the totals of the servers, and what has been
lost on the way, add up to the client's (`totals_agree`).
-/

namespace EbpfLb
open Bpf

variable {D : Deployment}

/-! ### One server -/

/-- What the worker has still to add to `total_sleep_time`, or never will, while `now` is what
`data, address` hold. -/
def Worker.due (now : Datagram) : Worker → Nat
  | started => fromBytes now.data
  | called d | sleeping d | slept d | failed d => fromBytes d.data
  | summed _ | released _ | ended _ => 0

/-- What it never will, since its sleep has raised. -/
def Worker.unslept : Worker → Nat
  | failed d => fromBytes d.data
  | _ => 0

theorem Worker.Advance.due {raises : Nat → Bool} {now : Datagram} {w w' : Worker} {n : Int}
    {t : Nat} (h : Advance raises now w w' n t) : w'.due now + t = w.due now := by
  cases h with
  | call | count | fail | wake | sum | release | answer => simp [Worker.due]

namespace Server

/-- The total once everything received has been added to it. -/
def worked (s : Server) : Nat :=
  s.totalSleepTime + (s.workers.map (Worker.due s.datagram)).sum +
    if s.Handling then fromBytes s.datagram.data else 0

/-- What the sleeps that raised would have added. -/
def unslept (s : Server) : Nat := (s.workers.map Worker.unslept).sum

variable {raises : Nat → Bool} {s s' : Server} {o : Option U8}

/-- A thread's step turns what is due into what is added, when no job is turned away. -/
theorem Move.worked {e : ServerEvent} (hmv : s.Move raises e s') (he : ∀ d, e ≠ .recvfrom d)
    (hd : s.Handling → s.datagram.data ≠ []) (hb : s.pc = .check → s.nThreads < 5) :
    s'.worked = s.worked := by
  cases hmv with
  | receive d => exact absurd rfl (he d)
  | deaf | waiting | gone => rfl
  | hello hpc | accept hpc => simp [Server.worked, Handling, hpc]
  | busy hpc hn => exact absurd (hb hpc) (Int.not_lt.mpr hn)
  | spawn hpc =>
      simp [Server.worked, Handling, hpc, Worker.due]
      omega
  | skip hpc hnil => exact absurd hnil (hd (.inr hpc))
  | work i hi hadv =>
      rename_i w w' n t
      have hdue := hadv.due
      have hsum := List.sum_map_replaced (Worker.due s.datagram) hi w'
      show s.totalSleepTime + t + ((s.workers.set i w').map (Worker.due s.datagram)).sum +
        (if s.Handling then fromBytes s.datagram.data else 0) = s.worked
      rw [Server.worked]
      omega

theorem main_worked (hm : s.main = some (s', o)) (hd : s.Handling → s.datagram.data ≠ [])
    (hb : s.pc = .check → s.nThreads < 5) : s'.worked = s.worked := by
  have hmv := s.next_move (fun _ => false) .main
  rw [next, hm] at hmv
  refine hmv.worked (fun d he => ?_) hd hb
  cases he

theorem work_worked {i : Nat} (hw : s.work raises i = some (s', o))
    (hd : s.Handling → s.datagram.data ≠ []) (hb : s.pc = .check → s.nThreads < 5) :
    s'.worked = s.worked := by
  have hmv := s.next_move raises (.work i)
  rw [next, hw] at hmv
  refine hmv.worked (fun d he => ?_) hd hb
  cases he

/-- A datagram received is due, when it overwrites none that is. -/
theorem recvfrom_worked {d : Datagram} (hk : s.KeepsJob (fun _ => false) (.recvfrom d))
    (hr : s.recvfrom d = some s') : s'.worked = s.worked + fromBytes (d.data.take 8) := by
  rw [recvfrom] at hr
  split at hr
  · rename_i hpc
    cases hr
    have hdue : s.workers.map (Worker.due ⟨d.data.take 8, d.address⟩) =
        s.workers.map (Worker.due s.datagram) := by
      refine List.map_congr_left fun w hw => ?_
      cases w with
      | started => rw [hk hpc hw]
      | called | sleeping | slept | summed | released | ended | failed => rfl
    simp [worked, Handling, hpc, hdue]
  · cases hr

/-- With every worker over and no job in hand, nothing more will be added. -/
theorem worked_idle (hpc : s.pc = .recvfrom) (hi : s.Idle) :
    s.worked = s.totalSleepTime + s.unslept := by
  have hdue : s.workers.map (Worker.due s.datagram) = s.workers.map Worker.unslept := by
    refine List.map_congr_left fun w hw => ?_
    have hdone := hi w hw
    cases w with
    | ended | failed => rfl
    | started | called | sleeping | slept | summed | released => cases hdone
  simp [worked, unslept, hdue, Handling, hpc]

end Server

/-! ### All servers -/

namespace System

/-- The totals of all servers, once everything they have received has been added. -/
def worked (s : System D) : Nat := ∑ h, (s.server h).elim 0 Server.worked

/-- The event overwrites no datagram that a thread has yet to read. -/
def KeepsJob (s : System D) : FaultyEvent D → Prop
  | .event (.receive h f) =>
    ∀ srv ∈ s.server h, srv.KeepsJob (fun _ => false) (.recvfrom (datagramOf f))
  | _ => True

instance (s : System D) : DecidablePred s.KeepsJob
  | .event (.receive h f) => inferInstanceAs (Decidable (∀ srv ∈ s.server h,
      srv.pc = .recvfrom → .started ∈ srv.workers →
        (⟨(datagramOf f).data.take 8, (datagramOf f).address⟩ : Datagram) = srv.datagram))
  | .event (.client _) | .event (.start _) | .event (.main ..) | .event (.work ..)
  | .event (.balance ..) | .event (.die _) | .event .reload | .raise .. | .stuck _ | .drop _
  | .duplicate _ => isTrue trivial

variable (s : System D)

theorem worked_setServer (g : Fin D.hosts) (o : Option Server) :
    (s.setServer g o).worked + (s.server g).elim 0 Server.worked =
      s.worked + o.elim 0 Server.worked := by
  have hcomp : (fun h => ((s.setServer g o).server h).elim 0 Server.worked) =
      Function.update (fun h => (s.server h).elim 0 Server.worked) g (o.elim 0 Server.worked) :=
    Function.comp_update (fun o : Option Server => o.elim 0 Server.worked) s.server g o
  rw [worked, hcomp]
  exact sum_update _ g _

variable {s}

theorem worked_congr {t : System D} (h : t.server = s.server) : t.worked = s.worked := by
  rw [worked, worked, h]

/-- A thread's step that keeps what its process is to add. -/
theorem worked_acted {g : Fin D.hosts} {f : Frame} {r : Option (Server × Option U8)}
    (hr : ∀ srv' o, r = some (srv', o) → ∃ srv, s.server g = some srv ∧
      srv'.worked = srv.worked) : (s.acted g f r).worked = s.worked := by
  refine Finset.sum_congr rfl fun h _ => ?_
  rcases acted_server (s := s) (h := h) g f r with e | ⟨rfl, srv', o, hr', e⟩
  · rw [e]
  · obtain ⟨srv, hs, hw⟩ := hr srv' o hr'
    rw [e, hs]
    exact hw

end System

section
variable {s : Faulty D} {e : FaultyEvent D}

/-- In a first run no process turns a job away, and none has an empty one in hand. -/
theorem Undisturbed.in_hand (h : Undisturbed s.shadow) {g : Fin D.hosts} {srv : Server}
    (hsrv : s.system.server g = some srv) :
    (srv.Handling → srv.datagram.data ≠ []) ∧ (srv.pc = .check → srv.nThreads < 5) := by
  have hrev : s.shadow.server g = some srv.revived := congrArg (Option.map Server.revived) hsrv
  have hbusy : srv.revived.pc = .check → srv.revived.nThreads < 5 := h.not_busy hrev
  exact ⟨(h.1.servers g _ hrev).data, hbusy⟩

/-- Without a death, what happens outside `recvfrom` keeps the totals. -/
theorem Faulty.worked_other (h : Undisturbed s.shadow) (he : e.Lossy)
    (hr : ∀ h f, e ≠ .event (.receive h f)) :
    (s.system.stepFaulty e).worked = s.system.worked := by
  have hwork : ∀ raises g i f, (s.system.acted g f
      ((s.system.server g).bind fun srv => srv.work raises i)).worked = s.system.worked := by
    intro raises g i f
    refine System.worked_acted fun srv' o hw => ?_
    obtain ⟨srv, hs, hw⟩ := Option.bind_eq_some_iff.mp hw
    obtain ⟨hd, hb⟩ := h.in_hand hs
    exact ⟨srv, hs, srv.work_worked hw hd hb⟩
  cases e with
  | event e =>
      cases e with
      | client => rfl
      | start g =>
          rw [System.stepFaulty, System.step]
          split
          · rename_i hn
            have hset := s.system.worked_setServer g (some .fresh)
            rw [hn] at hset
            exact hset
          · rfl
      | main g f =>
          refine System.worked_acted fun srv' o hm => ?_
          obtain ⟨srv, hs, hm⟩ := Option.bind_eq_some_iff.mp hm
          obtain ⟨hd, hb⟩ := h.in_hand hs
          exact ⟨srv, hs, srv.main_worked hm hd hb⟩
      | work g i f => exact hwork _ g i f
      | receive g f => exact absurd rfl (hr g f)
      | balance m tail =>
          rw [System.stepFaulty, System.step]
          split
          · rfl
          · split
            · exact System.worked_congr (System.balanced_server ..)
            · rfl
      | die | reload => exact he.elim
  | raise g i f => exact hwork _ g i f
  | stuck m =>
      rw [System.stepFaulty]
      split
      · rfl
      · split
        · exact System.worked_congr (System.balanced_server ..)
        · rfl
  | drop | duplicate =>
      rw [System.stepFaulty]
      split <;> rfl

/-- **Every event that delivers a job adds its value to the totals.** -/
theorem Faulty.step_worked (h : Undisturbed s.shadow) (he : e.Lossy) (hk : s.system.KeepsJob e) :
    (s.step e).system.worked =
      s.system.worked + ((s.system.relayed e).delivered.map jobValue).sum := by
  by_cases hr : ∃ g f, e = .event (.receive g f)
  · obtain ⟨g, f, rfl⟩ := hr
    show (s.system.step (.receive g f)).worked = _
    rw [System.step, System.relayed]
    by_cases hf : .dispatch f ∈ s.system.net ∧ ipDaddr f = D.addr g
    · cases hb : (s.system.server g).bind fun srv => srv.recvfrom (System.datagramOf f) with
      | none =>
          rw [if_pos hf, if_neg (by simp)]
          rfl
      | some srv' =>
          obtain ⟨srv, hsrv, hrecv⟩ := Option.bind_eq_some_iff.mp hb
          have hw := Server.recvfrom_worked (hk srv hsrv) hrecv
          have hlen := h.1.whole f (s.system.mem_undelivered s.dropped hf.1)
          rw [fromBytes_datagramOf hlen] at hw
          have hset := s.system.worked_setServer g (some srv')
          simp only [hsrv, Option.elim] at hset
          rw [if_pos hf, if_pos ⟨hf, rfl⟩]
          simp only [Relay.Event.delivered, List.map_singleton, List.sum_singleton]
          show (s.system.setServer g (some srv')).worked = _
          omega
    · rw [if_neg hf, if_neg fun h => hf h.1]
      rfl
  · have hr' : ∀ g f, e ≠ .event (.receive g f) := fun g f h => hr ⟨g, f, h⟩
    rw [System.relayed_delivered e fun g f h => absurd h (hr' g f)]
    exact worked_other h he hr'

end

/-- Along a run the totals are the values of the jobs delivered. -/
theorem worked_after {es : List (FaultyEvent D)} (hl : ∀ e ∈ es, e.Lossy)
    (hk : (faulty D).Along (fun s => s.system.KeepsJob) .initial es) :
    ((faulty D).after .initial es).system.worked =
      ((deliveredJobs (.initial : Faulty D) es).map jobValue).sum := by
  have hboth := Machine.along_and.mpr ⟨(faulty D).along_of_forall hl .initial, hk⟩
  refine (hboth.induction (P := fun es s => Undisturbed s.shadow ∧
    s.system.worked = ((deliveredJobs (.initial : Faulty D) es).map jobValue).sum) ?_ ?_).2
  · refine ⟨undisturbed_initial, ?_⟩
    simp [System.worked, Faulty.initial, System.initial, deliveredJobs, Machine.collect]
  · rintro is e ⟨hu, hw⟩ ⟨he, hk⟩
    refine ⟨undisturbed_step he hu, ?_⟩
    show (Faulty.step _ e).system.worked = _
    rw [Faulty.step_worked hu he hk, hw, deliveredJobs, deliveredJobs, Machine.collect_snoc,
      List.map_append, List.sum_append]

/-! ### The client -/

/-- The payloads the clients send. -/
def FaultyEvent.payload : FaultyEvent D → List Bytes
  | event (.client j) => [j.frame.bytes.drop 42]
  | _ => []

/-- What a server will decode of a job frame. -/
theorem jobValue_job (j : JobFrame) :
    jobValue (payload64 j.frame.bytes) = fromBytes (j.frame.bytes.drop 42) := by
  have hl := j.isJob.length
  have htake : (j.frame.bytes.drop 42).take 8 = j.frame.bytes.drop 42 :=
    List.take_of_length_le (by simp [hl])
  rw [← fromBytes_datagramOf hl, System.datagramOf, htake]

/-- A client's event submits its job, and no other event does. -/
theorem System.relayed_submitted (s : System D) (e : FaultyEvent D) :
    (s.relayed e).submitted.map jobValue = e.payload.map fromBytes := by
  by_cases hc : ∃ j, e = .event (.client j)
  · obtain ⟨j, rfl⟩ := hc
    simp only [relayed, Relay.Event.submitted, FaultyEvent.payload, List.map_singleton,
      jobValue_job]
  · have hpayload : e.payload = [] := by
      cases e with
      | event e =>
          cases e with
          | client j => exact absurd ⟨j, rfl⟩ hc
          | start | main | work | receive | balance | die | reload => rfl
      | raise | stuck | drop | duplicate => rfl
    have hr := s.relays e
    generalize s.relayed e = r at hr
    rw [hpayload]
    cases hr with
    | idle | deliver | clear => rfl
    | submit j he => exact absurd ⟨j, he⟩ hc
    | balance m tail => rw [(m.relayed_still _ _).1, List.map_nil, List.map_nil]
    | drop m | duplicate m => cases m <;> rfl

theorem submittedJobs_values (s : Faulty D) (es : List (FaultyEvent D)) :
    (submittedJobs s es).map jobValue = (es.flatMap FaultyEvent.payload).map fromBytes := by
  induction es generalizing s with
  | nil => rfl
  | cons e es ih =>
      rw [submittedJobs, Machine.collect, List.map_append, List.flatMap_cons, List.map_append,
        s.system.relayed_submitted e]
      exact congrArg _ (ih _)

/-- All the jobs of one client fit the queue, so none is turned away. -/
theorem turnedAway_eq_nil {es : List (FaultyEvent D)} (hl : ∀ e ∈ es, e.Lossy)
    (hfew : (submittedJobs (.initial : Faulty D) es).length ≤ maxQueue) :
    turnedAway (.initial : Faulty D) es = [] := by
  have hdoubled : doubledJobs (.initial : Faulty D) es = [] :=
    (faulty D).collect_eq_nil (fun _ e he => (System.relayed_lossy (hl e he)).2) _
  have h₀ : Multiset.card (Faulty.initial : Faulty D).system.relay.total = 0 := rfl
  refine Relay.refused_of_steps (M := faulty D) (P := fun s : Faulty D => Sound s.system.revived)
    (s := Faulty.initial) (fun _ e h => h.stepFaulty e)
    (fun _ e h => System.relay_step h.bound_revived e) sound_initial ?_
  show _ + (submittedJobs (.initial : Faulty D) es).length +
    (doubledJobs (.initial : Faulty D) es).length ≤ maxQueue
  rw [h₀, hdoubled, List.length_nil]
  omega

/-- **The totals agree.**  One client runs its program, no process dies, the balancer is not
reloaded, no message is doubled, and no datagram overwrites another one under a thread that has yet
to read it: once nothing more happens, the totals the servers have printed last add up to the
client's, with what the sleeps that raised would have added and the values of the jobs that the
network has dropped, that a `'D'` whose frame did not grow has taken off the queue, and that are
still there. -/
theorem totals_agree {es : List (FaultyEvent D)} {draws : Draws}
    (hc : es.flatMap FaultyEvent.payload = (client draws).sent) (hl : ∀ e ∈ es, e.Lossy)
    (hk : (faulty D).Along (fun s => s.system.KeepsJob) .initial es)
    (hq : ((faulty D).after .initial es).Quiescent) :
    ∑ h, (((faulty D).after .initial es).system.server h).elim 0 Server.totalSleepTime +
        ∑ h, (((faulty D).after .initial es).system.server h).elim 0 Server.unslept +
        ((lostJobs (.initial : Faulty D) es).map jobValue).sum +
        ((spilledJobs (.initial : Faulty D) es).map jobValue).sum +
        (((faulty D).after .initial es).system.maps.queue.items.map jobValue).sum =
      (client draws).totalSleepTime := by
  have hvalues := submittedJobs_values (.initial : Faulty D) es
  rw [hc] at hvalues
  have hfew : (submittedJobs (.initial : Faulty D) es).length ≤ maxQueue := by
    have hlen := congrArg List.length hvalues
    rw [List.length_map, List.length_map, client_length] at hlen
    rw [hlen]
    decide
  have hbal := accounted_at_rest hl hq
  rw [turnedAway_eq_nil hl hfew, Multiset.coe_nil, add_zero] at hbal
  have hsum := congrArg (fun m : Multiset U64 => (m.map jobValue).sum) hbal
  simp only [Multiset.map_add, Multiset.sum_add, Multiset.map_coe, Multiset.sum_coe] at hsum
  have htotals : ∑ h, (((faulty D).after .initial es).system.server h).elim 0
        Server.totalSleepTime +
      ∑ h, (((faulty D).after .initial es).system.server h).elim 0 Server.unslept =
        ((deliveredJobs (.initial : Faulty D) es).map jobValue).sum := by
    rw [← worked_after hl hk, ← Finset.sum_add_distrib, System.worked]
    refine Finset.sum_congr rfl fun h _ => ?_
    obtain ⟨srv, hsrv, hpc, hidle⟩ := hq.system.process h
    rw [hsrv]
    exact (Server.worked_idle hpc hidle).symm
  rw [← client_total, ← hvalues]
  omega

/-- The client's first choice, every time. -/
def ones : Draws := ⟨List.replicate 40 1, rfl, by decide⟩

/-- The job number `i`, from the client to its `'D'`. -/
def oneRound (i : Nat) : List (Event oneHost) :=
  [.client fourSeconds, .balance (.job fourSeconds) zeros,
    .receive host (rewrite (newInfo (pingOf byteS 1#32).bytes) fourSeconds.frame.bytes)] ++
    List.replicate 2 (.main host (pingOf byteD 1#32)) ++
    List.replicate 6 (.work host i (pingOf byteD 1#32)) ++ [.balance (.ping (pingAt 1 byteD)) zeros]

/-- The process registers and runs all jobs but the last, one after the other. -/
def allButLast : List (Event oneHost) :=
  [.start host, .main host (pingOf byteS 1#32), .balance (.ping (pingAt 1 byteS)) zeros] ++
    (List.range 39).flatMap oneRound

/-- The last one is dropped. -/
def wholeRun : List (FaultyEvent oneHost) := allButLast.map .event ++ lostJob

set_option maxRecDepth 20000 in
theorem along_wholeRun :
    (faulty oneHost).Along (fun s => s.system.KeepsJob) .initial wholeRun ∧
      ((faulty oneHost).after .initial wholeRun).system.net = 0 ∧
      ((faulty oneHost).after .initial wholeRun).system.server host = some ⟨.recvfrom,
        fourSecondsDatagram, 0, 156, List.replicate 39 (.ended fourSecondsDatagram)⟩ := by
  decide +kernel

set_option maxRecDepth 20000 in
theorem payloads_wholeRun : wholeRun.flatMap FaultyEvent.payload = (client ones).sent := by
  decide +kernel

theorem totals_agree_wholeRun :
    ∑ h, (((faulty oneHost).after .initial wholeRun).system.server h).elim 0
          Server.totalSleepTime +
        ∑ h, (((faulty oneHost).after .initial wholeRun).system.server h).elim 0
          Server.unslept +
        ((lostJobs (.initial : Faulty oneHost) wholeRun).map jobValue).sum +
        ((spilledJobs (.initial : Faulty oneHost) wholeRun).map jobValue).sum +
        (((faulty oneHost).after .initial wholeRun).system.maps.queue.items.map jobValue).sum =
      (client ones).totalSleepTime := by
  obtain ⟨hk, hnet, hserver⟩ := along_wholeRun
  refine totals_agree payloads_wholeRun (by decide +kernel) hk ?_
  refine Faulty.quiescent_of_idle hnet fun g => ?_
  obtain rfl : g = host := Subsingleton.elim (α := Fin 1) g host
  refine ⟨_, hserver, rfl, fun w hw => ?_⟩
  rw [List.eq_of_mem_replicate hw, Worker.finished]

end EbpfLb
