import EbpfLoadBalancer.Support.Dispatch
import EbpfLoadBalancer.Balancer.Counter

/-!
# Balancer — the balancer is a dispatcher

`Maps.dispatch` forgets everything of the maps but the credits of the registered slots and the
queue.  Every step whose tail growth succeeds is then one step of the abstract dispatcher
(`simulates`), with the jobs it receives, sends and refuses read off the frames, and so every run
is one of its runs (`run_simulates`).  A late worker is a host that registers, from a nonzero
address and at an empty slot, while jobs wait.
-/

namespace EbpfLb
open Bpf
open Dispatch (Event)

/-! ### The abstraction -/

/-- The credits of the registered slots, and the queue. -/
def Maps.dispatch (m : Maps) : Dispatch.State Slot U64 where
  credit k := if (m.servers k).saddr = 0#32 then 0 else (m.servers k).freeThreads.toNat
  queue := m.queue.items

namespace Maps
variable {m : Maps} {k : Slot}

theorem dispatch_congr {n : Maps} (hs : n.servers = m.servers)
    (hq : n.queue.items = m.queue.items) : n.dispatch = m.dispatch := by
  rw [dispatch, dispatch, hs, hq]

theorem dispatch_set (info : DestInfo) :
    (m.set k info).dispatch = ⟨Function.update m.dispatch.credit k
      (if info.saddr = 0#32 then 0 else info.freeThreads.toNat), m.queue.items⟩ := by
  rw [dispatch, Dispatch.State.mk.injEq]
  refine ⟨funext fun j => ?_, rfl⟩
  simp only [set_servers, Function.update_apply, dispatch]
  split <;> rfl

theorem dispatch_credit_apply (h : (m.servers k).saddr ≠ 0#32) :
    m.dispatch.credit k = (m.servers k).freeThreads.toNat := if_neg h

theorem dispatch_credit (hm : CreditBound m) (h : (m.servers k).saddr ≠ 0#32) :
    (m.credit k).dispatch =
      ⟨Dispatch.restore maxThreads.toNat m.dispatch.credit k, m.queue.items⟩ := by
  have hc : (m.servers k).credited.saddr ≠ 0#32 := h
  rw [credit, dispatch_set, if_neg hc, credited_toNat (hm k), Dispatch.restore,
    dispatch_credit_apply h]

theorem dispatch_charge (h : (m.servers k).saddr ≠ 0#32)
    (hp : 0 < (m.servers k).freeThreads.toNat) :
    (m.charge k).dispatch = ⟨Dispatch.spend m.dispatch.credit k, m.queue.items⟩ := by
  have hc : (m.servers k).charged.saddr ≠ 0#32 := h
  rw [charge, dispatch_set, if_neg hc, charged_toNat hp, Dispatch.spend, dispatch_credit_apply h]

theorem dispatch_exhausted : m.dispatch.Exhausted ↔ Exhausted m.servers := by
  refine forall_congr' fun k => ?_
  show (if _ then _ else _) = 0 ↔ _
  split
  · rename_i h
    simp [h]
  · rename_i h
    simp [h, ← BitVec.toNat_inj]

end Maps

/-! ### The jobs of a step -/

/-- The value of the job received. -/
def jobs (_ : Maps) (i : Input) : List U64 :=
  if IsJob i.frame.bytes then [payload64 i.frame.bytes] else []

/-- The payload of the frame sent out. -/
def sentJobs (m : Maps) (i : Input) : List U64 :=
  if (lb.out m i).verdict = .tx then [payload64 (lb.out m i).frame] else []

/-- A job that finds no backend free and the queue full. -/
def Refused (m : Maps) (f : Bytes) : Prop :=
  IsJob f ∧ Exhausted m.servers ∧ m.queue.items.length = maxQueue

instance (m : Maps) (f : Bytes) : Decidable (Refused m f) :=
  inferInstanceAs (Decidable (_ ∧ _ ∧ _))

def refusedJobs (m : Maps) (i : Input) : List U64 :=
  if Refused m i.frame.bytes then [payload64 i.frame.bytes] else []

def acceptedJobs (m : Maps) (i : Input) : List U64 :=
  if IsJob i.frame.bytes ∧ ¬ Refused m i.frame.bytes then [payload64 i.frame.bytes] else []

/-- A host registers, from a nonzero address and at an empty slot, while jobs wait. -/
def LateRegistration (m : Maps) (f : Bytes) : Prop :=
  IsPing f ∧ ipSaddr f ≠ 0#32 ∧ m.queue.items ≠ [] ∧
    ∃ k : Slot, m.keyOf (ipSaddr f) = slotKey k ∧ (m.servers k).saddr = 0#32

instance (m : Maps) (f : Bytes) : Decidable (LateRegistration m f) :=
  inferInstanceAs (Decidable (_ ∧ _ ∧ _ ∧ ∃ _ : Slot, _))

/-- The step on `i` from `m` is the event `e` of the dispatcher. -/
structure Simulates (m : Maps) (i : Input) (e : Event Slot U64) : Prop where
  step : Dispatch.Step maxQueue maxThreads.toNat m.dispatch e (lb.step m i).dispatch
  arrived : e.arrived = jobs m i
  accepted : e.accepted = acceptedJobs m i
  refused : e.refused = refusedJobs m i
  sent : e.sent = sentJobs m i
  late : e.Late m.dispatch ↔ LateRegistration m i.frame.bytes

section
variable {m : Maps} {i : Input}

theorem not_late_of_occupied {f : Bytes} {k : Slot} (hk : m.keyOf (ipSaddr f) = slotKey k)
    (hr : (m.servers k).saddr ≠ 0#32) : ¬ LateRegistration m f := by
  rintro ⟨-, -, -, j, hj, h₀⟩
  obtain rfl := slotKey_injective (hk.symm.trans hj)
  exact hr h₀

theorem not_late_of_past {f : Bytes} (hk : maxServers ≤ (m.keyOf (ipSaddr f)).toNat) :
    ¬ LateRegistration m f := by
  rintro ⟨-, -, -, j, hj, -⟩
  exact ne_slotKey_of_past hk j hj

/-- The job a completion sends has the dequeued payload. -/
theorem payload64_drained {f : Frame} (hp : IsPing f.bytes) (bs : Vector U8 7) (v : U64)
    (info : DestInfo) : payload64 (rewrite info ((f.bytes ++ bs.toList).put 42 v)) = v := by
  rw [payload64_rewrite]
  exact Bytes.load_put_same _ v rfl (by simp [hp.length])

theorem not_late_of_job {f : Bytes} (hj : IsJob f) : ¬ LateRegistration m f :=
  fun h => h.1.not_isJob hj

/-- A step that receives no job. -/
theorem Simulates.of_not_job {e : Event Slot U64} (hj : ¬ IsJob i.frame.bytes)
    (hs : Dispatch.Step maxQueue maxThreads.toNat m.dispatch e (lb.step m i).dispatch)
    (ha : e.arrived = []) (hx : e.sent = sentJobs m i)
    (hl : e.Late m.dispatch ↔ LateRegistration m i.frame.bytes) : Simulates m i e := by
  obtain ⟨hc, hr⟩ := List.append_eq_nil_iff.mp (e.arrived_eq.symm.trans ha)
  refine ⟨hs, ?_, ?_, ?_, hx, hl⟩
  · rw [ha, jobs, if_neg hj]
  · rw [hc, acceptedJobs, if_neg fun h => hj h.1]
  · rw [hr, refusedJobs, if_neg fun h => hj h.1]

theorem dispatch_register (k : Slot) (f : Bytes) :
    ((m.note (ipSaddr f)).set k (newInfo f)).bump.dispatch =
      ⟨Function.update m.dispatch.credit k (if ipSaddr f = 0#32 then 0 else maxThreads.toNat),
        m.dispatch.queue⟩ := by
  have hn : (m.note (ipSaddr f)).dispatch = m.dispatch := Maps.dispatch_congr (by simp) (by simp)
  have hb : ((m.note (ipSaddr f)).set k (newInfo f)).bump.dispatch =
      ((m.note (ipSaddr f)).set k (newInfo f)).dispatch := Maps.dispatch_congr rfl rfl
  rw [hb, Maps.dispatch_set, hn, Maps.note_queue]
  rfl

/-- A completion that sends the oldest job to `j`. -/
theorem dispatch_drain {n : Maps} {k j : Slot} {v : U64} {rest : List U64}
    (hn : n.dispatch = ⟨Dispatch.restore maxThreads.toNat m.dispatch.credit k, m.queue.items⟩)
    (hq : m.queue.items = v :: rest) (hj : LeastLoaded n.servers j) :
    Dispatch.Step maxQueue maxThreads.toNat m.dispatch (.drain k j v)
      (n.popped.charge j).dispatch := by
  have hc : n.dispatch.credit = Dispatch.restore maxThreads.toNat m.dispatch.credit k := by rw [hn]
  have hi : n.queue.items = v :: rest := (congrArg Dispatch.State.queue hn).trans hq
  have hpop : n.popped.dispatch.credit = n.dispatch.credit := rfl
  rw [Maps.dispatch_charge (m := n.popped) hj.registered hj.pos, hpop, hc, Maps.popped_items, hi]
  refine .drain _ k j v rest hq ?_
  rw [← hc, Maps.dispatch_credit_apply hj.registered]
  exact hj.pos

/-- **Every step is one of the dispatcher's**, when its tail grows. -/
theorem simulates (hm : CreditBound m) (ht : i.tail ≠ none) : ∃ e, Simulates m i e := by
  have hmv : Move i.tail m i.frame (lb.out m i) := loadBalancer_move i.tail i.frame hm
  have hcr : ∀ k, (m.servers k).saddr ≠ 0#32 →
      ((m.note (ipSaddr i.frame.bytes)).credit k).dispatch =
        ⟨Dispatch.restore maxThreads.toNat m.dispatch.credit k, m.queue.items⟩ := by
    intro k hr
    rw [← Maps.dispatch_credit hm hr]
    exact Maps.dispatch_congr (m.note_credit_servers _ k) (by simp)
  have hlen := m.queue.bounded
  generalize ho : lb.out m i = o at hmv
  have hstep : lb.step m i = o.maps := congrArg lb.next ho
  cases hmv with
  | other hp hj =>
      refine ⟨.idle, .of_not_job hj ?_ rfl ?_ (iff_of_false id fun h => hp h.1)⟩
      · rw [hstep]
        exact .idle _
      · simp only [sentJobs, Event.sent, ho]
        split <;> simp
  | refuse hp hk =>
      refine ⟨.idle, .of_not_job hp.not_isJob ?_ rfl (by simp [sentJobs, Event.sent, ho]) ?_⟩
      · have hn : (m.note (ipSaddr i.frame.bytes)).bump.dispatch = m.dispatch :=
          Maps.dispatch_congr (by simp) (by simp)
        rw [hstep, hn]
        exact .idle _
      · exact iff_of_false id (not_late_of_past hk)
  | register k hp hk h₀ =>
      -- at `0.0.0.0` the slot stays empty, which is a worker that joins with no credits
      refine ⟨.join k (if ipSaddr i.frame.bytes = 0#32 then 0 else maxThreads.toNat),
        .of_not_job hp.not_isJob ?_ rfl (by simp [sentJobs, Event.sent, ho]) ⟨?_, ?_⟩⟩
      · rw [hstep, dispatch_register]
        exact .join _ k _ (if_pos h₀)
      · rintro ⟨hq, hn⟩
        refine ⟨hp, fun h => ?_, hq, k, hk, h₀⟩
        rw [if_pos h] at hn
        exact Nat.lt_irrefl 0 hn
      · rintro ⟨-, hz, hq, -⟩
        refine ⟨hq, ?_⟩
        rw [if_neg hz]
        decide
  | done k hp hk hr hq =>
      refine ⟨.done k, .of_not_job hp.not_isJob ?_ rfl (by simp [sentJobs, Event.sent, ho])
        (iff_of_false id (not_late_of_occupied hk hr))⟩
      rw [hstep, hcr k hr]
      exact .done _ k hq
  | drain k j v rest bs hp hk hr hq ht' hj =>
      refine ⟨.drain k j v, .of_not_job hp.not_isJob ?_ rfl
        (by simp [sentJobs, Event.sent, ho, payload64_drained hp])
        (iff_of_false id (not_late_of_occupied hk hr))⟩
      rw [hstep]
      exact dispatch_drain (hcr k hr) hq (m.note_credit_servers _ k ▸ hj)
  | stuck k hp hk hr hq ht' => exact absurd ht' ht
  | send k hj hk =>
      refine ⟨.send k (payload64 i.frame.bytes), ?_, ?_, ?_, ?_, ?_, ?_⟩
      · rw [hstep, Maps.dispatch_charge hk.registered hk.pos]
        exact .send _ k _ (by rw [Maps.dispatch_credit_apply hk.registered]; exact hk.pos)
      · simp [jobs, Event.arrived, hj]
      · simp [acceptedJobs, Refused, Event.accepted, hj, hk.not_exhausted]
      · simp [refusedJobs, Refused, Event.refused, hk.not_exhausted]
      · simp [sentJobs, Event.sent, ho, payload64_rewrite]
      · exact iff_of_false id (not_late_of_job hj)
  | wait hj he =>
      have he' := Maps.dispatch_exhausted.mpr he
      have hx : sentJobs m i = [] := by simp [sentJobs, ho]
      by_cases hc : m.queue.items.length < maxQueue
      · have hr : ¬ Refused m i.frame.bytes := fun h => hc.ne h.2.2
        refine ⟨.wait (payload64 i.frame.bytes), ?_, ?_, ?_, ?_, hx.symm,
          iff_of_false id (not_late_of_job hj)⟩
        · have hp : (m.pushed (payload64 i.frame.bytes)).dispatch =
              ⟨m.dispatch.credit, m.queue.items ++ [payload64 i.frame.bytes]⟩ := by
            rw [Maps.dispatch, Maps.pushed_queue, QueueMap.items_push, if_pos hc]
            rfl
          rw [hstep, hp]
          exact .wait _ _ he' hc
        · simp [jobs, Event.arrived, hj]
        · simp [acceptedJobs, Event.accepted, hj, hr]
        · simp [refusedJobs, Event.refused, hr]
      · have hfull : m.queue.items.length = maxQueue := Nat.le_antisymm hlen (Nat.not_lt.mp hc)
        have hr : Refused m i.frame.bytes := ⟨hj, he, hfull⟩
        refine ⟨.refuse (payload64 i.frame.bytes), ?_, ?_, ?_, ?_, hx.symm,
          iff_of_false id (not_late_of_job hj)⟩
        · have hp : (m.pushed (payload64 i.frame.bytes)).dispatch = m.dispatch := by
            rw [Maps.dispatch, Maps.pushed_queue, QueueMap.push_full hfull]
            rfl
          rw [hstep, hp]
          exact .refuse _ _ he' hfull
        · simp [jobs, Event.arrived, hj]
        · simp [acceptedJobs, Event.accepted, hr]
        · simp [refusedJobs, Event.refused, hr]

end

/-! ### Runs -/

/-- The run on `is` from `m` is a run of the dispatcher along the events `es`. -/
structure RunSimulates (C : Dispatch.State Slot U64 → Event Slot U64 → Prop) (m : Maps)
    (is : List Input) (es : List (Event Slot U64)) : Prop where
  run : Dispatch.Run maxQueue maxThreads.toNat C m.dispatch es (lb.after m is).dispatch
  arrived : es.flatMap Event.arrived = lb.collect jobs m is
  accepted : es.flatMap Event.accepted = lb.collect acceptedJobs m is
  refused : es.flatMap Event.refused = lb.collect refusedJobs m is
  sent : es.flatMap Event.sent = lb.collect sentJobs m is

/-- **Every run is one of the dispatcher's**, when every tail grows; a condition on the steps
becomes one on the events. -/
theorem run_simulates {C : Maps → Input → Prop}
    {D : Dispatch.State Slot U64 → Event Slot U64 → Prop}
    (hD : ∀ {m i e}, Simulates m i e → C m i → D m.dispatch e) {m : Maps} (hm : CreditBound m)
    {is : List Input} (ht : ∀ i ∈ is, i.tail ≠ none) (hC : lb.Along C m is) :
    ∃ es, RunSimulates D m is es := by
  induction is generalizing m with
  | nil => exact ⟨[], .nil _, rfl, rfl, rfl, rfl⟩
  | cons i is ih =>
      obtain ⟨e, he⟩ := simulates hm (ht i (by simp))
      obtain ⟨es, h⟩ := ih (creditBound_step i hm) (fun j hj => ht j (by simp [hj])) hC.2
      refine ⟨e :: es, .cons (hD he hC.1) he.step h.run, ?_, ?_, ?_, ?_⟩
      · rw [List.flatMap_cons, he.arrived, h.arrived, Machine.collect]
      · rw [List.flatMap_cons, he.accepted, h.accepted, Machine.collect]
      · rw [List.flatMap_cons, he.refused, h.refused, Machine.collect]
      · rw [List.flatMap_cons, he.sent, h.sent, Machine.collect]

end EbpfLb
