import EbpfLoadBalancer.Protocol.Faults
import EbpfLoadBalancer.Protocol.Recovery

/-!
# Protocol — what the servers of the deployment do

Two things the code of `server.py` does not see to, and the system does.

A server runs whatever it decodes.  In the system that is always a number some client has sent
(`values_from_clients`), through the queue or not, and whatever dies, is reloaded and goes wrong.

A server may admit more than five jobs when they come in a burst: its check of `n_threads` misses
the workers that have not incremented it yet.  In the system the balancer sends it five at most
until one of them is answered, so at most five are ever active and none is turned away, even when
sleeps raise (`five_active_in_deployment`).
-/

namespace EbpfLb

variable {D : Deployment}

/-- A worker's step passes on what fits, whatever sleeps raise. -/
theorem Server.Fits.work {raises raises' : Nat → Bool} {s s' : Server} {i : Nat} {o : Option U8}
    (h : s.Fits raises) (hw : s.work raises' i = some (s', o)) : s'.Fits raises := by
  have hmv := s.next_move raises' (.work i)
  rw [next, hw] at hmv
  refine hmv.fits h fun d hd => ?_
  cases hd

theorem System.Fits.acted {raises : Nat → Bool} {s : System D} (h : s.Fits raises)
    (g : Fin D.hosts) (f : Frame) {r : Option (Server × Option U8)}
    (hr : ∀ srv o, r = some (srv, o) → srv.Fits raises) : (s.acted g f r).Fits raises := by
  match r with
  | none => exact h
  | some (srv, none) => exact h.setServer g fun _ e => Option.some.inj e ▸ hr srv none rfl
  | some (srv, some b) =>
      rw [System.acted]
      split
      · exact System.Fits.send_ping
          (h.setServer g fun _ e => Option.some.inj e ▸ hr srv (some b) rfl) _
      · exact h

/-- What goes wrong makes up no number. -/
theorem System.Fits.stepFaulty {raises : Nat → Bool} {s : System D} (h : s.Fits raises)
    (hs : Sound s.revived) {e : FaultyEvent D} (he : ∀ e₀, e = .event e₀ → e₀.Fits raises) :
    (s.stepFaulty e).Fits raises := by
  cases e with
  | event e => exact h.change hs.bound_revived hs.whole (he e rfl) (protocol_change s e)
  | raise g i f =>
      refine h.acted g f fun srv' o hw => ?_
      obtain ⟨srv, hsrv, hw⟩ := Option.bind_eq_some_iff.mp hw
      exact (h.servers g srv hsrv).work hw
  | stuck m =>
      rw [System.stepFaulty]
      split
      · exact h
      · rename_i f hf
        split
        · rename_i hm
          exact h.balanced hs.bound_revived hm hf none
        · exact h
  | drop m =>
      rw [System.stepFaulty]
      split
      · exact h.take m
      · exact h
  | duplicate m =>
      rw [System.stepFaulty]
      split
      · rename_i hm
        exact h.net (fun _ hj => (Multiset.mem_cons.mp hj).elim (fun e => e ▸ hm) id)
          fun _ hf => (Multiset.mem_cons.mp hf).elim (fun e => e ▸ hm) id
      · exact h

/-- **Servers run what clients have sent.**  Whatever happens and goes wrong: a datagram passed to
`handle_client` decodes to the number of a job that a client has sent. -/
theorem values_from_clients {es : List (FaultyEvent D)} {h : Fin D.hosts} {srv : Server}
    (hs : ((faulty D).after .initial es).system.server h = some srv) {w : Worker} {d : Datagram}
    (hw : w ∈ srv.workers) (hd : d ∈ w.passed) :
    ∃ j : JobFrame, .event (.client j) ∈ es ∧
      fromBytes d.data = jobValue (payload64 j.frame.bytes) := by
  classical
  -- a number no client has sent counts as one that does not fit
  let raises (n : Nat) : Bool :=
    decide (¬ ∃ j : JobFrame, .event (.client j) ∈ es ∧ n = jobValue (payload64 j.frame.bytes))
  have hfit : ∀ e ∈ es, ∀ e₀, e = .event e₀ → e₀.Fits raises := by
    rintro _ he e₀ rfl
    cases e₀ with
    | client j => exact decide_eq_false (not_not.mpr ⟨j, he, rfl⟩)
    | start | main | work | receive | balance | die | reload => trivial
  have hrun := (((faulty D).along_of_forall hfit .initial).invariant
    (P := fun s => Sound s.system.revived ∧ s.system.Fits raises)
    (fun _ e h he => ⟨h.1.stepFaulty e, h.2.stepFaulty h.1 he⟩)
    ⟨sound_initial, fits_initial raises⟩).2
  exact not_not.mp (of_decide_eq_false ((hrun.servers h srv hs).workers w hw d hd))

theorem server_faultyRun : ((faulty oneHost).after .initial faultyRun).system.server host =
    some ⟨.recvfrom, System.datagramOf longestDispatch, 1, 0,
      [.failed (System.datagramOf longestDispatch)]⟩ := by
  decide +kernel

theorem values_from_clients_faultyRun : ∃ j : JobFrame, .event (.client j) ∈ faultyRun ∧
    fromBytes (System.datagramOf longestDispatch).data =
      jobValue (payload64 j.frame.bytes) :=
  values_from_clients server_faultyRun (List.mem_singleton_self _) (List.mem_singleton_self _)

/-! ### The limit on the jobs active -/

/-- An active worker is one that has not answered, once the failed ones are put back to sleep. -/
theorem Worker.unanswered_revived {w : Worker} (hw : w.active = true) :
    w.revived.unanswered = true := by
  cases w with
  | released | ended => cases hw
  | started | called | sleeping | slept | summed | failed => rfl

theorem Server.active_le (s : Server) : s.active ≤ s.revived.held := by
  have hle := List.countP_mono_left (l := s.workers) fun w _ =>
    Worker.unanswered_revived (w := w)
  have hcount : s.revived.workers.countP Worker.unanswered =
      s.workers.countP fun w => w.revived.unanswered := by
    rw [Server.revived, List.countP_map]
    rfl
  rw [Server.active, Server.held, hcount]
  omega

/-- **The balancer keeps the servers' limit.**  As long as no process dies, the balancer is not
reloaded and every message is delivered once, whatever sleeps raise: at most five jobs of a server
are between the start of their thread and their decrement, `n_threads` is at most five, and a check
finds it below five, so that no job is turned away. -/
theorem five_active_in_deployment (raises : Nat → Bool) {es : List (Event D)}
    (hb : ∀ e ∈ es, e.Basic) {h : Fin D.hosts} {srv : Server}
    (hs : ((deployment raises D).after .initial es).server h = some srv) :
    srv.active ≤ 5 ∧ srv.nThreads ≤ 5 ∧ (srv.pc = .check → srv.nThreads < 5) := by
  have hund := undisturbed_deployment raises hb
  have hsrv : ((deployment raises D).after .initial es).revived.server h = some srv.revived :=
    congrArg (Option.map Server.revived) hs
  have h5 : maxThreads.toNat = 5 := rfl
  have hheld := hund.held_le h
  rw [held_of_server hsrv] at hheld
  have hcount := (hund.1.servers h _ hsrv).counted_le
  have hn : srv.revived.nThreads = srv.nThreads := rfl
  have hactive := srv.active_le
  rw [hn] at hcount
  have hbusy : srv.revived.pc = .check → srv.revived.nThreads < 5 := hund.not_busy hsrv
  exact ⟨by omega, by split at hcount <;> omega, hbusy⟩

/-- Five jobs whose sleeps raise. -/
theorem five_active_in_deployment_fiveLongest :
    Server.active ⟨.recvfrom, System.datagramOf longestDispatch, 5, 0,
        List.replicate 5 (.failed (System.datagramOf longestDispatch))⟩ ≤ 5 ∧
      (5 : Int) ≤ 5 ∧ (MainPc.recvfrom = .check → (5 : Int) < 5) :=
  five_active_in_deployment sleepOverflows basic_fiveLongest server_fiveLongest

end EbpfLb
