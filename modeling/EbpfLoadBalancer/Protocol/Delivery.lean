import EbpfLoadBalancer.Balancer.Jobs
import EbpfLoadBalancer.Protocol.Quiescence
import EbpfLoadBalancer.Protocol.Transport

/-!
# Protocol — every job is delivered

The balancer's work conservation, read in the system.  As long as every frame that is to grow does
(`FaultyEvent.Grows`) and no host registers while jobs wait (`System.NoLate`), a job waits only
while every registered host has `MAX_THREADS` jobs on its hands, those included that the network or
an exception has taken from it (`saturated_while_waiting`).  So at rest no job waits beside a
credit, and the servers have received what the clients have sent but for the jobs that found the
queue full and those the network has dropped (`all_delivered`).
-/

namespace EbpfLb
open Bpf

variable {D : Deployment}

/-- The frame on which the balancer runs grows when it is asked to. -/
def FaultyEvent.Grows : FaultyEvent D → Prop
  | stuck _ => False
  | _ => True

instance : DecidablePred (FaultyEvent.Grows : FaultyEvent D → Prop)
  | .stuck _ => isFalse id
  | .event _ | .raise .. | .drop _ | .duplicate _ => isTrue trivial

theorem FaultyEvent.Grows.tail {e : FaultyEvent D} (he : e.Grows) {m : Msg D}
    {tail : Option (Vector U8 7)} (hb : e.balances = some (m, tail)) : ∃ bs, tail = some bs := by
  cases e with
  | event e =>
      cases e with
      | balance =>
          cases hb
          exact ⟨_, rfl⟩
      | client | start | main | work | receive | die | reload => cases hb
  | stuck => exact he.elim
  | raise | drop | duplicate => cases hb

/-- No host registers in the event while jobs wait. -/
def System.NoLate (s : System D) (e : FaultyEvent D) : Prop :=
  ∀ r ∈ e.balances, r.1 ∈ s.net → ∀ f ∈ r.1.toBalancer, ¬ LateRegistration s.maps f.bytes

instance (s : System D) : DecidablePred s.NoLate := fun e =>
  inferInstanceAs (Decidable (∀ r ∈ e.balances, _ → ∀ f ∈ (_ : Option Frame), _))

/-- Every event keeps the balancer work-conserving. -/
theorem System.conserving_stepFaulty {s : System D} (hb : CreditBound s.maps) {e : FaultyEvent D}
    (hg : e.Grows) (hl : s.NoLate e) (h : s.maps.dispatch.Conserving) :
    (s.stepFaulty e).maps.dispatch.Conserving := by
  cases maps_change s e with
  | same hm => rwa [hm]
  | balance m f tail he hf hin hm =>
      obtain ⟨bs, rfl⟩ := hg.tail he
      obtain ⟨a, ha⟩ := simulates (i := ⟨f, some bs⟩) hb (Option.some_ne_none _)
      rw [hm]
      exact ha.step.conserving h fun hlate => hl _ he hin f hf (ha.late.mp hlate)
  | reload _ hm =>
      rw [hm]
      exact fun hq => absurd rfl hq

section
variable {es : List (FaultyEvent D)}

theorem conserving_along (hg : ∀ e ∈ es, e.Grows)
    (hn : (faulty D).Along (fun s => s.system.NoLate) .initial es) :
    ((faulty D).after .initial es).system.maps.dispatch.Conserving :=
  ((Machine.along_and.mpr ⟨(faulty D).along_of_forall hg .initial, hn⟩).invariant
    (P := fun s => Sound s.system.revived ∧ s.system.maps.dispatch.Conserving)
    (fun _ e h hc => ⟨h.1.stepFaulty e,
      System.conserving_stepFaulty h.1.bound_revived hc.1 hc.2 h.2⟩)
    ⟨sound_initial, fun hq => absurd rfl hq⟩).2

/-- While a job waits no registered host has a credit. -/
theorem no_credit_while_waiting (hg : ∀ e ∈ es, e.Grows)
    (hn : (faulty D).Along (fun s => s.system.NoLate) .initial es)
    (hq : ((faulty D).after .initial es).system.maps.queue.items ≠ []) {k : Slot}
    {h : Fin D.hosts}
    (hk : (((faulty D).after .initial es).system.maps.servers k).saddr = D.addr h) :
    (((faulty D).after .initial es).system.maps.servers k).freeThreads = 0#16 :=
  Maps.dispatch_exhausted.mp (conserving_along hg hn hq) k (hk ▸ D.nonzero h)

end

/-- **A job waits only while every server is busy.**  When no process dies, the balancer is not
reloaded, no message is doubled, every frame that is to grow does and no host registers while jobs
wait: as long as a job is in the queue, every registered host has `MAX_THREADS` jobs in flight to
it, at its process, at a worker of it whose sleep has raised, answered by a `'D'` in flight, or
dropped by the network, on their way to it or with their `'D'`. -/
theorem saturated_while_waiting {es : List (FaultyEvent D)} (hl : ∀ e ∈ es, e.Lossy)
    (hg : ∀ e ∈ es, e.Grows) (hn : (faulty D).Along (fun s => s.system.NoLate) .initial es)
    (hq : ((faulty D).after .initial es).system.maps.queue.items ≠ []) {k : Slot}
    {h : Fin D.hosts}
    (hk : (((faulty D).after .initial es).system.maps.servers k).saddr = D.addr h) :
    ((faulty D).after .initial es).system.inFlight h +
      ((faulty D).after .initial es).system.held h +
      ((faulty D).after .initial es).system.failures h +
      ((faulty D).after .initial es).system.answers h +
      ((faulty D).after .initial es).losses h = maxThreads.toNat := by
  have hsum := (undisturbed_after hl).losses hk
  rw [no_credit_while_waiting hg hn hq hk] at hsum
  simpa using hsum

/-- Five jobs to the host, three of them dropped and one whose sleep raises, and a job that
waits. -/
def spentRun : List (FaultyEvent oneHost) :=
  lossyRun 3 ++ (List.replicate 2 [Event.client fourSeconds,
    .balance (.job fourSeconds) zeros]).flatten.map .event

theorem saturated_while_waiting_spentRun :
    ((faulty oneHost).after .initial spentRun).system.inFlight host +
      ((faulty oneHost).after .initial spentRun).system.held host +
      ((faulty oneHost).after .initial spentRun).system.failures host +
      ((faulty oneHost).after .initial spentRun).system.answers host +
      ((faulty oneHost).after .initial spentRun).losses host = maxThreads.toNat :=
  saturated_while_waiting (k := 0) (by decide +kernel) (by decide +kernel) (by decide +kernel)
    (by decide +kernel) (by decide +kernel)

/-! ### What is delivered -/

namespace System
variable {s : System D} {e : FaultyEvent D}

/-- Without a reload no job is cleared, and without a doubled message none is doubled. -/
theorem relayed_lossy (he : e.Lossy) :
    (s.relayed e).cleared = [] ∧ (s.relayed e).copied = [] := by
  have hr := s.relays e
  generalize s.relayed e = r at hr
  cases hr with
  | idle | submit | deliver => exact ⟨rfl, rfl⟩
  | balance m tail => exact (m.relayed_still _ _).2.2
  | drop m => cases m <;> exact ⟨rfl, rfl⟩
  | clear he' | duplicate m he' =>
      subst he'
      exact he.elim

/-- A frame that grows loses no job. -/
theorem relayed_spilled_tail {maps : Maps} (hm : CreditBound maps) (m : Msg D)
    (bs : Vector U8 7) : (m.relayed maps (some bs)).spilled = [] := by
  cases m with
  | dispatch => rfl
  | job j =>
      rw [Msg.relayed]
      split
      · rfl
      · split <;> rfl
  | ping p =>
      rw [Msg.relayed]
      split
      · rfl
      · rename_i hv
        split
        · rfl
        · rename_i hq
          have hmv := loadBalancer_move (some bs) p.frame hm
          generalize loadBalancer (some bs) maps p.frame = o at hmv hv hq
          cases hmv with
          | other | refuse | register | done => simp at hq
          | drain | send => exact absurd rfl hv
          | wait hj => exact absurd hj p.isPing.not_isJob
          | stuck _ _ _ _ _ ht => cases ht

theorem relayed_spilled (hm : CreditBound s.maps) (he : e.Grows) :
    (s.relayed e).spilled = [] := by
  have hr := s.relays e
  generalize s.relayed e = r at hr
  cases hr with
  | idle | submit | deliver | clear => rfl
  | balance m tail hb =>
      obtain ⟨bs, rfl⟩ := he.tail hb
      exact relayed_spilled_tail hm m bs
  | drop m | duplicate m => cases m <;> rfl

end System

section
variable {es : List (FaultyEvent D)}

/-- At rest the jobs the clients have sent are received, refused, lost or in the queue. -/
theorem accounted_at_rest (hl : ∀ e ∈ es, e.Lossy)
    (hq : ((faulty D).after .initial es).Quiescent) :
    (submittedJobs (.initial : Faulty D) es : Multiset U64) =
      deliveredJobs (.initial : Faulty D) es + turnedAway (.initial : Faulty D) es +
        spilledJobs (.initial : Faulty D) es + lostJobs (.initial : Faulty D) es +
        ((faulty D).after .initial es).system.maps.queue.items := by
  have hbal := transport_balance es (D := D)
  have hend : ((faulty D).after .initial es).system.relay.total =
      ((faulty D).after .initial es).system.maps.queue.items := by
    rw [System.relay, net_at_rest hq, Relay.State.total, Multiset.filterMap_zero,
      Multiset.filterMap_zero, zero_add, add_zero]
  have hcleared : clearedJobs (.initial : Faulty D) es = [] :=
    (faulty D).collect_eq_nil (fun _ e he => (System.relayed_lossy (hl e he)).1) _
  have hdoubled : doubledJobs (.initial : Faulty D) es = [] :=
    (faulty D).collect_eq_nil (fun _ e he => (System.relayed_lossy (hl e he)).2) _
  rwa [hend, hcleared, hdoubled, Multiset.coe_nil, add_zero, add_zero] at hbal

theorem spilledJobs_eq_nil (hg : ∀ e ∈ es, e.Grows) :
    spilledJobs (.initial : Faulty D) es = [] :=
  ((faulty D).along_of_forall hg .initial).collect_eq_nil
    (P := fun s => Sound s.system.revived) (fun _ e h _ => h.stepFaulty e)
    (fun _ _ h he => System.relayed_spilled h.bound_revived he) sound_initial

/-- At rest a job waits only where all the credits have been lost, or with them the ping that was
to register the host. -/
theorem waiting_at_rest (hl : ∀ e ∈ es, e.Lossy) (hg : ∀ e ∈ es, e.Grows)
    (hn : (faulty D).Along (fun s => s.system.NoLate) .initial es)
    (hq : ((faulty D).after .initial es).Quiescent)
    (hw : ((faulty D).after .initial es).system.maps.queue.items ≠ []) (h : Fin D.hosts) :
    (¬ Registered ((faulty D).after .initial es).system.maps (D.addr h) ∧
        ∃ p : Ping D, .ping p ∈ ((faulty D).after .initial es).dropped ∧ p.host = h) ∨
      ((faulty D).after .initial es).system.failures h +
        ((faulty D).after .initial es).losses h = maxThreads.toNat := by
  by_cases hr : Registered ((faulty D).after .initial es).system.maps (D.addr h)
  · obtain ⟨k, hk⟩ := hr
    have hsum := credits_at_rest hl hq hk
    rw [no_credit_while_waiting hg hn hw hk] at hsum
    right
    simpa using hsum
  · exact .inl ⟨hr, (registered_at_rest hl hq h).resolve_left hr⟩

end

/-- **Every job is delivered.**  When no process dies, the balancer is not reloaded, no message is
doubled, every frame that is to grow does, no host registers while jobs wait and nothing more
happens: the jobs the clients have sent are those the servers have received, those that found no
backend free and the queue full, those the network has dropped and those in the queue, each as
often; and the queue is empty, unless each of the hosts has lost all its credits, to sleeps that
raised and messages dropped, or is not registered and has lost a ping. -/
theorem all_delivered {es : List (FaultyEvent D)} (hl : ∀ e ∈ es, e.Lossy)
    (hg : ∀ e ∈ es, e.Grows) (hn : (faulty D).Along (fun s => s.system.NoLate) .initial es)
    (hq : ((faulty D).after .initial es).Quiescent) :
    (((faulty D).after .initial es).system.maps.queue.items = [] ∨
      ∀ h, (¬ Registered ((faulty D).after .initial es).system.maps (D.addr h) ∧
          ∃ p : Ping D, .ping p ∈ ((faulty D).after .initial es).dropped ∧ p.host = h) ∨
        ((faulty D).after .initial es).system.failures h +
          ((faulty D).after .initial es).losses h = maxThreads.toNat) ∧
    (submittedJobs (.initial : Faulty D) es : Multiset U64) =
      deliveredJobs (.initial : Faulty D) es + turnedAway (.initial : Faulty D) es +
        lostJobs (.initial : Faulty D) es +
        ((faulty D).after .initial es).system.maps.queue.items := by
  have hbal := accounted_at_rest hl hq
  rw [spilledJobs_eq_nil hg, Multiset.coe_nil, add_zero] at hbal
  refine ⟨?_, hbal⟩
  by_cases hw : ((faulty D).after .initial es).system.maps.queue.items = []
  · exact .inl hw
  · exact .inr (waiting_at_rest hl hg hn hq hw)

theorem all_delivered_lossyRun :
    (((faulty oneHost).after .initial (lossyRun 2)).system.maps.queue.items = [] ∨
      ∀ h, (¬ Registered ((faulty oneHost).after .initial (lossyRun 2)).system.maps
            (oneHost.addr h) ∧
          ∃ p : Ping oneHost, .ping p ∈ ((faulty oneHost).after .initial (lossyRun 2)).dropped ∧
            p.host = h) ∨
        ((faulty oneHost).after .initial (lossyRun 2)).system.failures h +
          ((faulty oneHost).after .initial (lossyRun 2)).losses h = maxThreads.toNat) ∧
    (submittedJobs (.initial : Faulty oneHost) (lossyRun 2) : Multiset U64) =
      deliveredJobs (.initial : Faulty oneHost) (lossyRun 2) +
        turnedAway (.initial : Faulty oneHost) (lossyRun 2) +
        lostJobs (.initial : Faulty oneHost) (lossyRun 2) +
        ((faulty oneHost).after .initial (lossyRun 2)).system.maps.queue.items :=
  all_delivered (by decide +kernel) (by decide +kernel) (by decide +kernel) quiescent_lossyRun

end EbpfLb
