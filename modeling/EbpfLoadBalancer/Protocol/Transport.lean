import EbpfLoadBalancer.Balancer.Dispatching
import EbpfLoadBalancer.Protocol.Faults
import EbpfLoadBalancer.Support.Relay

/-!
# Protocol — how jobs travel

Of everything in the system a relay remembers the jobs on their way alone: in flight to the
balancer, in its queue, and in flight to a server (`System.relay`).  Every step of the system is a
step of the relay (`relay_step`), whatever dies, starts, is reloaded and goes wrong.  So between the
client's `sendto` and the server's `recvfrom` a job is never invented, is doubled by the network
alone, and is lost in four places: it finds the queue full, it goes with the maps, a `'D'` whose
frame does not grow takes it off the queue, or the network drops it (`jobs_transported`).
-/

namespace EbpfLb
open Bpf

variable {D : Deployment}

/-! ### The abstraction -/

/-- The job of a message to the balancer. -/
def Msg.submitted : Msg D → Option U64
  | job j => some (payload64 j.frame.bytes)
  | _ => none

/-- The job of a message to a server. -/
def Msg.dispatched : Msg D → Option U64
  | dispatch f => some (payload64 f)
  | _ => none

section
variable (net : Multiset (Msg D))

@[simp] theorem submitted_cons_job (j : JobFrame) : (.job j ::ₘ net).filterMap Msg.submitted =
    payload64 j.frame.bytes ::ₘ net.filterMap Msg.submitted :=
  Multiset.filterMap_cons_some _ _ _ rfl
@[simp] theorem submitted_cons_ping (p : Ping D) :
    (.ping p ::ₘ net).filterMap Msg.submitted = net.filterMap Msg.submitted :=
  Multiset.filterMap_cons_none _ _ rfl
@[simp] theorem submitted_cons_dispatch (f : Bytes) :
    (.dispatch f ::ₘ net).filterMap Msg.submitted = net.filterMap Msg.submitted :=
  Multiset.filterMap_cons_none _ _ rfl
@[simp] theorem dispatched_cons_job (j : JobFrame) :
    (.job j ::ₘ net).filterMap Msg.dispatched = net.filterMap Msg.dispatched :=
  Multiset.filterMap_cons_none _ _ rfl
@[simp] theorem dispatched_cons_ping (p : Ping D) :
    (.ping p ::ₘ net).filterMap Msg.dispatched = net.filterMap Msg.dispatched :=
  Multiset.filterMap_cons_none _ _ rfl
@[simp] theorem dispatched_cons_dispatch (f : Bytes) :
    (.dispatch f ::ₘ net).filterMap Msg.dispatched =
      payload64 f ::ₘ net.filterMap Msg.dispatched :=
  Multiset.filterMap_cons_some _ _ _ rfl

end

/-- What becomes of the jobs when the balancer runs on the message. -/
def Msg.relayed (maps : Maps) (tail : Option (Vector U8 7)) : Msg D → Relay.Event U64
  | job j =>
    if (loadBalancer tail maps j.frame).verdict = .tx then .forward (payload64 j.frame.bytes)
    else if Refused maps j.frame.bytes then .refuse (payload64 j.frame.bytes)
    else .wait (payload64 j.frame.bytes)
  | ping p =>
    if (loadBalancer tail maps p.frame).verdict = .tx then
      .drain (payload64 (loadBalancer tail maps p.frame).frame)
    else if (loadBalancer tail maps p.frame).maps.queue.items = maps.queue.items then .idle
    else .spill (maps.queue.items.headD 0#64)
  | dispatch _ => .idle

/-- What becomes of them when the network drops the message. -/
def Msg.dropped : Msg D → Relay.Event U64
  | job j => .loseIn (payload64 j.frame.bytes)
  | dispatch f => .loseOut (payload64 f)
  | ping _ => .idle

/-- And when it doubles it. -/
def Msg.doubled : Msg D → Relay.Event U64
  | job j => .copyIn (payload64 j.frame.bytes)
  | dispatch f => .copyOut (payload64 f)
  | ping _ => .idle

theorem Msg.relayed_dispatch {m : Msg D} (hf : m.toBalancer = none) (maps : Maps)
    (tail : Option (Vector U8 7)) : m.relayed maps tail = .idle := by
  cases m with
  | job | ping => cases hf
  | dispatch => rfl

/-- The balancer itself submits, delivers, clears and doubles nothing. -/
theorem Msg.relayed_still (m : Msg D) (maps : Maps) (tail : Option (Vector U8 7)) :
    (m.relayed maps tail).submitted = [] ∧ (m.relayed maps tail).delivered = [] ∧
      (m.relayed maps tail).cleared = [] ∧ (m.relayed maps tail).copied = [] := by
  cases m with
  | job | ping =>
      rw [relayed]
      split
      · exact ⟨rfl, rfl, rfl, rfl⟩
      · split <;> exact ⟨rfl, rfl, rfl, rfl⟩
  | dispatch => exact ⟨rfl, rfl, rfl, rfl⟩

namespace System

/-- The jobs on their way. -/
def relay (s : System D) : Relay.State U64 :=
  ⟨s.net.filterMap Msg.submitted, s.maps.queue.items, s.net.filterMap Msg.dispatched⟩

/-- What becomes of the jobs in an event. -/
def relayed (s : System D) : FaultyEvent D → Relay.Event U64
  | .event (.client j) => .submit (payload64 j.frame.bytes)
  | .event (.receive h f) =>
    if (.dispatch f ∈ s.net ∧ ipDaddr f = D.addr h) ∧
        ((s.server h).bind fun srv => srv.recvfrom (datagramOf f)).isSome then
      .deliver (payload64 f)
    else .idle
  | .event (.balance m tail) => if m ∈ s.net then m.relayed s.maps (some tail) else .idle
  | .event .reload => .clear s.maps.queue.items
  | .stuck m => if m ∈ s.net then m.relayed s.maps none else .idle
  | .drop m => if m ∈ s.net then m.dropped else .idle
  | .duplicate m => if m ∈ s.net then m.doubled else .idle
  | _ => .idle

/-! ### Every step is one of the relay's -/

variable (s : System D) {m : Msg D}

theorem relay_acted (h : Fin D.hosts) (f : Frame) (r : Option (Server × Option U8)) :
    (s.acted h f r).relay = s.relay := by
  match r with
  | none => rfl
  | some (srv, none) => rfl
  | some (srv, some b) =>
      simp only [acted]
      split
      · simp only [relay, send, submitted_cons_ping, dispatched_cons_ping]
        rfl
      · rfl

variable {s}

/-- The message taken off the network, before and after. -/
theorem relay_of_mem (hm : m ∈ s.net) :
    s.relay = ⟨(m ::ₘ s.net.erase m).filterMap Msg.submitted, s.maps.queue.items,
      (m ::ₘ s.net.erase m).filterMap Msg.dispatched⟩ := by
  rw [relay, Multiset.cons_erase hm]

/-- After the balancer's step. -/
theorem relay_balanced (m : Msg D) (o : Outcome) :
    (s.balanced m o).relay = ⟨(s.net.erase m).filterMap Msg.submitted, o.maps.queue.items,
      (if o.verdict = .tx then {payload64 o.frame} else 0) +
        (s.net.erase m).filterMap Msg.dispatched⟩ := by
  rw [balanced]
  split
  · simp only [relay, send, take, submitted_cons_dispatch, dispatched_cons_dispatch,
      Multiset.singleton_add]
  · simp only [relay, take, zero_add]

/-- The balancer's step on a job: it is sent on, or refused, or waits. -/
theorem relay_balanced_job (hm : CreditBound s.maps) {j : JobFrame} (hj : .job j ∈ s.net)
    (tail : Option (Vector U8 7)) :
    Relay.Step maxQueue s.relay (Msg.relayed s.maps tail (.job j : Msg D))
      (s.balanced (.job j) (loadBalancer tail s.maps j.frame)).relay := by
  rw [relay_of_mem hj, relay_balanced, submitted_cons_job, dispatched_cons_job, Msg.relayed]
  have hmv := loadBalancer_move tail j.frame hm
  generalize loadBalancer tail s.maps j.frame = o at hmv
  cases hmv with
  | other _ hj' => exact absurd j.isJob hj'
  | refuse hp | register _ hp | done _ hp | drain _ _ _ _ _ hp | stuck _ hp =>
      exact absurd j.isJob hp.not_isJob
  | send k _ hk =>
      simp only [if_true, payload64_rewrite, Maps.charge_queue, Multiset.singleton_add]
      exact .forward _ _ _ _
  | wait _ he =>
      have hlen := s.maps.queue.bounded
      simp only [reduceCtorEq, if_false, Maps.pushed_queue, zero_add]
      by_cases hfull : s.maps.queue.items.length = maxQueue
      · have hr : Refused s.maps j.frame.bytes := ⟨j.isJob, he, hfull⟩
        rw [if_pos hr, QueueMap.push_full hfull]
        exact .refuse _ _ _ _ hfull
      · have hr : ¬ Refused s.maps j.frame.bytes := fun h => hfull h.2.2
        rw [if_neg hr, QueueMap.items_push, if_pos (Nat.lt_of_le_of_ne hlen hfull)]
        exact .wait _ _ _ _ (Nat.lt_of_le_of_ne hlen hfull)

/-- And on a ping: the oldest job is sent on, or lost, or nothing happens to the jobs. -/
theorem relay_balanced_ping (hm : CreditBound s.maps) {p : Ping D} (hp : .ping p ∈ s.net)
    (tail : Option (Vector U8 7)) :
    Relay.Step maxQueue s.relay (Msg.relayed s.maps tail (.ping p : Msg D))
      (s.balanced (.ping p) (loadBalancer tail s.maps p.frame)).relay := by
  rw [relay_of_mem hp, relay_balanced, submitted_cons_ping, dispatched_cons_ping, Msg.relayed]
  have hmv := loadBalancer_move tail p.frame hm
  generalize loadBalancer tail s.maps p.frame = o at hmv
  cases hmv with
  | other hp' => exact absurd p.isPing hp'
  | send _ hj | wait hj => exact absurd hj p.isPing.not_isJob
  | refuse | register | done =>
      simp only [reduceCtorEq, if_false, if_true, zero_add, Maps.bump_queue, Maps.note_queue,
        Maps.set_queue, Maps.credit_queue]
      exact .idle _
  | drain k j v rest bs hpf _ _ hq ht =>
      simp only [if_true, payload64_drained hpf, Maps.charge_queue, Maps.popped_items,
        Maps.credit_queue, Maps.note_queue, hq, List.tail_cons, Multiset.singleton_add]
      exact .drain _ _ _ _
  | stuck k hpf _ _ hq ht =>
      obtain ⟨v, rest, hv⟩ := List.exists_cons_of_ne_nil hq
      simp only [reduceCtorEq, if_false, zero_add, Maps.popped_items, Maps.credit_queue,
        Maps.note_queue, hv, List.tail_cons, List.headD_cons]
      rw [if_neg (List.cons_ne_self v rest).symm]
      exact .spill _ _ _ _

/-- What the balancer does to the jobs. -/
theorem relay_balance (hm : CreditBound s.maps) (hin : m ∈ s.net) {f : Frame}
    (hf : m.toBalancer = some f) (tail : Option (Vector U8 7)) :
    Relay.Step maxQueue s.relay (m.relayed s.maps tail)
      (s.balanced m (loadBalancer tail s.maps f)).relay := by
  cases m with
  | job j =>
      cases hf
      exact relay_balanced_job hm hin tail
  | ping p =>
      cases hf
      exact relay_balanced_ping hm hin tail
  | dispatch => cases hf

/-- A message the network drops. -/
theorem relay_take (hin : m ∈ s.net) : Relay.Step maxQueue s.relay m.dropped (s.take m).relay := by
  rw [relay_of_mem hin]
  cases m with
  | job j =>
      rw [submitted_cons_job, dispatched_cons_job]
      exact .loseIn _ _ _ _
  | ping p =>
      rw [submitted_cons_ping, dispatched_cons_ping]
      exact .idle _
  | dispatch f =>
      rw [submitted_cons_dispatch, dispatched_cons_dispatch]
      exact .loseOut _ _ _ _

/-- And one it doubles. -/
theorem relay_send (m : Msg D) : Relay.Step maxQueue s.relay m.doubled (s.send m).relay := by
  cases m with
  | job j =>
      simp only [relay, send, submitted_cons_job, dispatched_cons_job]
      exact .copyIn _ _ _ _
  | ping p =>
      simp only [relay, send, submitted_cons_ping, dispatched_cons_ping]
      exact .idle _
  | dispatch f =>
      simp only [relay, send, submitted_cons_dispatch, dispatched_cons_dispatch]
      exact .copyOut _ _ _ _

/-- **Every step of the system is one of the relay's.** -/
theorem relay_step (hm : CreditBound s.maps) (e : FaultyEvent D) :
    Relay.Step maxQueue s.relay (s.relayed e) (s.stepFaulty e).relay := by
  cases e with
  | event e =>
      rw [stepFaulty]
      cases e with
      | client j =>
          simp only [relayed, step, relay, send, submitted_cons_job, dispatched_cons_job]
          exact .submit _ _ _ _
      | start h =>
          rw [step]
          split <;> exact .idle _
      | main h f | work h _ f =>
          rw [step, relay_acted]
          exact .idle _
      | receive h f =>
          rw [relayed, step]
          by_cases hf : .dispatch f ∈ s.net ∧ ipDaddr f = D.addr h
          · cases hr : (s.server h).bind fun srv => srv.recvfrom (datagramOf f) with
            | none =>
                rw [if_neg (by simp), if_pos hf]
                exact .idle _
            | some srv =>
                rw [if_pos ⟨hf, rfl⟩, if_pos hf, relay_of_mem hf.1, submitted_cons_dispatch,
                  dispatched_cons_dispatch]
                exact .deliver _ _ _ _
          · rw [if_neg fun h => hf h.1, if_neg hf]
            exact .idle _
      | balance m tail =>
          rw [relayed, step]
          cases hf : m.toBalancer with
          | none =>
              rw [Msg.relayed_dispatch hf, ite_self]
              exact .idle _
          | some f =>
              by_cases hin : m ∈ s.net
              · simp only [if_pos hin]
                exact relay_balance hm hin hf (some tail)
              · simp only [if_neg hin]
                exact .idle _
      | die h => exact .idle _
      | reload => exact .clear _ _ _
  | raise h i f =>
      rw [stepFaulty, stepRaising, relay_acted]
      exact .idle _
  | stuck m =>
      rw [relayed, stepFaulty]
      cases hf : m.toBalancer with
      | none =>
          rw [Msg.relayed_dispatch hf, ite_self]
          exact .idle _
      | some f =>
          by_cases hin : m ∈ s.net
          · simp only [if_pos hin]
            exact relay_balance hm hin hf none
          · simp only [if_neg hin]
            exact .idle _
  | drop m =>
      rw [relayed, stepFaulty]
      split
      · rename_i hin
        exact relay_take hin
      · exact .idle _
  | duplicate m =>
      rw [relayed, stepFaulty]
      split
      · exact relay_send m
      · exact .idle _

/-- What can become of the jobs in an event. -/
inductive Relays (s : System D) (e : FaultyEvent D) : Relay.Event U64 → Prop
  | idle : Relays s e .idle
  | submit (j : JobFrame) (he : e = .event (.client j)) :
      Relays s e (.submit (payload64 j.frame.bytes))
  | deliver (h : Fin D.hosts) (f : Bytes) (he : e = .event (.receive h f))
      (hf : .dispatch f ∈ s.net ∧ ipDaddr f = D.addr h) : Relays s e (.deliver (payload64 f))
  | balance (m : Msg D) (tail : Option (Vector U8 7)) (he : e.balances = some (m, tail)) :
      Relays s e (m.relayed s.maps tail)
  | clear (he : e = .event .reload) : Relays s e (.clear s.maps.queue.items)
  | drop (m : Msg D) (he : e = .drop m) : Relays s e m.dropped
  | duplicate (m : Msg D) (he : e = .duplicate m) : Relays s e m.doubled

theorem relays (s : System D) (e : FaultyEvent D) : s.Relays e (s.relayed e) := by
  cases e with
  | event e =>
      cases e with
      | client j => exact .submit j rfl
      | start | main | work | die => exact .idle
      | receive h f =>
          rw [relayed]
          split
          · rename_i hf
            exact .deliver h f rfl hf.1
          · exact .idle
      | balance m tail =>
          rw [relayed]
          split
          · exact .balance m _ rfl
          · exact .idle
      | reload => exact .clear rfl
  | raise => exact .idle
  | stuck m =>
      rw [relayed]
      split
      · exact .balance m _ rfl
      · exact .idle
  | drop m =>
      rw [relayed]
      split
      · exact .drop m rfl
      · exact .idle
  | duplicate m =>
      rw [relayed]
      split
      · exact .duplicate m rfl
      · exact .idle

/-- Only a receipt delivers a job. -/
theorem relayed_delivered (e : FaultyEvent D) (he : ∀ h f, e = .event (.receive h f) →
    ¬ (.dispatch f ∈ s.net ∧ ipDaddr f = D.addr h)) : (s.relayed e).delivered = [] := by
  have hr := s.relays e
  generalize s.relayed e = r at hr
  cases hr with
  | idle | submit | clear => rfl
  | deliver h f he' hf => exact absurd hf (he h f he')
  | balance m tail => exact (m.relayed_still _ _).2.1
  | drop m | duplicate m => cases m <;> rfl

end System

/-! ### Runs -/

section
variable (s : Faulty D) (es : List (FaultyEvent D))

/-- The jobs the clients send in the run. -/
def submittedJobs : List U64 := (faulty D).collect (fun s e => (s.system.relayed e).submitted) s es

/-- The jobs the servers receive. -/
def deliveredJobs : List U64 := (faulty D).collect (fun s e => (s.system.relayed e).delivered) s es

/-- The jobs that find no backend free and the queue full. -/
def turnedAway : List U64 := (faulty D).collect (fun s e => (s.system.relayed e).refused) s es

/-- The jobs in the queue when the balancer is reloaded. -/
def clearedJobs : List U64 := (faulty D).collect (fun s e => (s.system.relayed e).cleared) s es

/-- The jobs that a `'D'` takes off the queue whose frame does not grow. -/
def spilledJobs : List U64 := (faulty D).collect (fun s e => (s.system.relayed e).spilled) s es

/-- The jobs the network drops, on either side of the balancer. -/
def lostJobs : List U64 := (faulty D).collect (fun s e => (s.system.relayed e).lost) s es

/-- The jobs the network doubles. -/
def doubledJobs : List U64 := (faulty D).collect (fun s e => (s.system.relayed e).copied) s es

end

theorem transport_balance (es : List (FaultyEvent D)) :
    (submittedJobs (.initial : Faulty D) es : Multiset U64) +
        doubledJobs (.initial : Faulty D) es =
      deliveredJobs (.initial : Faulty D) es + turnedAway (.initial : Faulty D) es +
        clearedJobs (.initial : Faulty D) es + spilledJobs (.initial : Faulty D) es +
        lostJobs (.initial : Faulty D) es +
        ((faulty D).after .initial es).system.relay.total := by
  have hstep : ∀ (s : Faulty D) e, Sound s.system.revived → Relay.Step maxQueue s.system.relay
      (s.system.relayed e) ((faulty D).step s e).system.relay :=
    fun s e h => System.relay_step h.bound_revived e
  have hb := Relay.balance_of_steps (s := Faulty.initial) (fun _ e h => h.stepFaulty e) hstep
    (sound_initial : Sound (System.initial : System D)) es
  have h₀ : (Faulty.initial : Faulty D).system.relay.total = 0 := rfl
  rw [h₀, zero_add] at hb
  exact hb

/-- **Every job is transported once.**  Whatever happens and goes wrong in between: the jobs the
clients have sent and the network has doubled are those the servers have received, those refused
for a full queue, those lost with the maps in a reload, those taken off the queue by a `'D'` whose
frame did not grow, those the network has dropped, those in flight on either side, and those in the
queue, each as often. -/
theorem jobs_transported (es : List (FaultyEvent D)) :
    (submittedJobs (.initial : Faulty D) es : Multiset U64) +
        doubledJobs (.initial : Faulty D) es =
      deliveredJobs (.initial : Faulty D) es + turnedAway (.initial : Faulty D) es +
        clearedJobs (.initial : Faulty D) es + spilledJobs (.initial : Faulty D) es +
        lostJobs (.initial : Faulty D) es +
        (((faulty D).after .initial es).system.net.filterMap Msg.submitted +
          ((faulty D).after .initial es).system.maps.queue.items +
          ((faulty D).after .initial es).system.net.filterMap Msg.dispatched) :=
  transport_balance es

end EbpfLb
