import EbpfLoadBalancer.Protocol.Delivery

/-!
# Protocol — all or nothing

A job leaves the queue on a completion alone, and a registration is none.  So the jobs that come
before the first server wait, with all the credits free, and nothing that is left to happen in the
system sends them on.  One job that comes later does: it goes out, its completion sends the next
one, and so on to the end of the queue, unless a credit is lost on the way.  Once the system is at
rest either every job has been delivered or none has, but for what has been lost, and which of the
two depends on whether any job reached the balancer after the first registration
(`all_or_nothing`).
-/

namespace EbpfLb
open Bpf

variable {D : Deployment}

/-! ### The balancer -/

namespace Maps
variable (m : Maps)

/-- Every registered slot has all its credits. -/
def Full : Prop := ∀ k : Slot, (m.servers k).saddr ≠ 0#32 → (m.servers k).freeThreads = maxThreads

/-- A host is registered, and no job waits while all the credits are there. -/
structure Attended : Prop where
  registered : ∃ k : Slot, (m.servers k).saddr ≠ 0#32
  waiting : m.queue.items ≠ [] → ¬ m.Full

variable {m} {n : Maps}

theorem Full.congr (h : m.Full) (hs : n.servers = m.servers) : n.Full := by
  rw [Full, hs]
  exact h

theorem Attended.congr (h : m.Attended) (hs : n.servers = m.servers)
    (hq : n.queue.items = m.queue.items) : n.Attended where
  registered := hs ▸ h.registered
  waiting hn hf := h.waiting (hq ▸ hn) (hf.congr hs.symm)

/-- The slot that is charged does not have all its credits. -/
theorem not_full_charge {k : Slot} (hr : (m.servers k).saddr ≠ 0#32)
    (hp : 0 < (m.servers k).freeThreads.toNat)
    (hm : (m.servers k).freeThreads.toNat ≤ maxThreads.toNat) : ¬ (m.charge k).Full := by
  intro hf
  have hk := congrArg BitVec.toNat (hf k ((saddr_of_identity (identity_charge m k k)).trans_ne hr))
  rw [Maps.charge_servers, if_pos rfl, charged_toNat hp] at hk
  omega

/-- Somebody is charged, so a host is registered and not all the credits are there. -/
theorem attended_charge {k : Slot} (hr : (m.servers k).saddr ≠ 0#32)
    (hp : 0 < (m.servers k).freeThreads.toNat)
    (hm : (m.servers k).freeThreads.toNat ≤ maxThreads.toNat) : (m.charge k).Attended where
  registered := ⟨k, (saddr_of_identity (identity_charge m k k)).trans_ne hr⟩
  waiting _ := not_full_charge hr hp hm

end Maps

section
variable {bs : Vector U8 7} {tail : Option (Vector U8 7)} {m : Maps} {f : Frame} {o : Outcome}

/-- A job that reaches the balancer with a host registered goes out, or finds no credit left. -/
theorem Move.attended_job (hm : CreditBound m) (hj : IsJob f.bytes)
    (hr : ∃ k : Slot, (m.servers k).saddr ≠ 0#32) (hmv : Move tail m f o) :
    o.maps.Attended := by
  cases hmv with
  | other _ hj' => exact absurd hj hj'
  | refuse hp | register _ hp | done _ hp | drain _ _ _ _ _ hp | stuck _ hp =>
      exact absurd hj hp.not_isJob
  | send k _ hk => exact Maps.attended_charge hk.registered hk.pos (hm k)
  | wait _ he =>
      obtain ⟨k, hk⟩ := hr
      refine ⟨⟨k, hk⟩, fun _ hf => ?_⟩
      have hfull : (m.servers k).freeThreads = maxThreads := hf k hk
      rw [he k hk] at hfull
      exact absurd hfull (by decide)

/-- **Every step whose frame grows keeps the queue attended.** -/
theorem Move.attended (hm : CreditBound m) (h : m.Attended) (hmv : Move (some bs) m f o) :
    o.maps.Attended := by
  have hstay := fun k => hmv.slot_of_registered (j := k)
  by_cases hj : IsJob f.bytes
  · exact hmv.attended_job hm hj h.registered
  cases hmv with
  | other => exact h
  | refuse => exact h.congr (by simp) (by simp)
  | register k _ _ h₀ =>
      -- a slot whose credits are out is not the one taken
      obtain ⟨j, hj⟩ := h.registered
      refine ⟨⟨j, (saddr_of_identity (hstay j hj)).trans_ne hj⟩, fun hn hf => ?_⟩
      refine h.waiting (by simpa using hn) fun i hi => ?_
      have hik : i ≠ k := fun e => hi (e ▸ h₀)
      have hfull := hf i ((saddr_of_identity (hstay i hi)).trans_ne hi)
      simpa [hik] using hfull
  | done k _ _ hr hq =>
      refine ⟨⟨k, (saddr_of_identity (hstay k hr)).trans_ne hr⟩, fun hn => ?_⟩
      exact absurd hq (by simpa using hn)
  | drain k j v rest _ _ _ _ _ _ hl =>
      have hs : ((m.note (ipSaddr f.bytes)).credit k).popped.servers = (m.credit k).servers :=
        m.note_credit_servers _ k
      refine Maps.attended_charge (by rw [hs]; exact hl.registered) (by rw [hs]; exact hl.pos) ?_
      rw [hs, freeThreads_credit hm]
      exact Nat.min_le_right _ _
  | stuck _ _ _ _ _ ht => cases ht
  | send _ hj' | wait hj' => exact absurd hj' hj

end

/-! ### A job after the first registration -/

/-- No job reaches the balancer while a host is registered. -/
def System.Unserved (s : System D) (e : FaultyEvent D) : Prop :=
  ∀ r ∈ e.balances, r.1 ∈ s.net → r.1.submitted ≠ none → ∀ h, ¬ Registered s.maps (D.addr h)

instance (s : System D) : DecidablePred s.Unserved := fun e =>
  inferInstanceAs (Decidable (∀ r ∈ e.balances, _ → _ → ∀ _ : Fin D.hosts, _))

section
variable {s : System D} {e : FaultyEvent D}

/-- A job that reaches the balancer while a host is registered leaves it attended. -/
theorem attended_of_served (hb : CreditBound s.maps) (he : ¬ s.Unserved e) :
    (s.stepFaulty e).maps.Attended := by
  simp only [System.Unserved, not_forall, not_not] at he
  obtain ⟨⟨m, tail⟩, he, hin, hsub, g, k, hk⟩ := he
  cases m with
  | ping | dispatch => exact absurd rfl hsub
  | job j =>
      rw [System.stepFaulty_balances he rfl hin, System.balanced_maps]
      exact (loadBalancer_move tail j.frame hb).attended_job hb j.isJob ⟨k, hk ▸ D.nonzero g⟩

theorem System.attended_stepFaulty (hb : CreditBound s.maps) (hl : e.Lossy) (hg : e.Grows)
    (h : s.maps.Attended) : (s.stepFaulty e).maps.Attended := by
  cases maps_change s e with
  | same hm => rwa [hm]
  | balance m f tail he _ _ hm =>
      obtain ⟨bs, rfl⟩ := hg.tail he
      rw [hm]
      exact (loadBalancer_move (some bs) f hb).attended hb h
  | reload he =>
      subst he
      exact hl.elim

end

theorem attended_after {es : List (FaultyEvent D)} (hl : ∀ e ∈ es, e.Lossy)
    (hg : ∀ e ∈ es, e.Grows)
    (hu : ¬ (faulty D).Along (fun s => s.system.Unserved) .initial es) :
    ((faulty D).after .initial es).system.maps.Attended := by
  simp only [Machine.along_iff, not_forall] at hu
  obtain ⟨pre, e, post, rfl, he⟩ := hu
  have hs := sound_faulty (D := D) pre
  have hpost : ∀ e ∈ post, e.Lossy ∧ e.Grows := fun e he =>
    ⟨hl e (by simp [he]), hg e (by simp [he])⟩
  rw [Machine.after_append, Machine.after_cons]
  exact (((faulty D).along_of_forall hpost _).invariant
    (P := fun s => Sound s.system.revived ∧ s.system.maps.Attended)
    (fun _ e h he => ⟨h.1.stepFaulty e,
      System.attended_stepFaulty h.1.bound_revived he.1 he.2 h.2⟩)
    (s := (faulty D).step ((faulty D).after .initial pre) e)
    ⟨hs.stepFaulty e, attended_of_served hs.bound_revived he⟩).2

/-! ### No job after the first registration -/

section
variable {s : System D}

/-- With all the credits there nothing is in flight to a host, and no ping from a registered one. -/
theorem Undisturbed.idle_of_full (hu : Undisturbed s) (hf : s.maps.Full) (g : Fin D.hosts) :
    s.inFlight g = 0 ∧ ∀ p, .ping p ∈ s.net → p.host = g → ¬ Registered s.maps (D.addr g) := by
  have ⟨_, a, _, hfirst⟩ := hu
  by_cases hr : Registered s.maps (D.addr g)
  · obtain ⟨k, hk⟩ := hr
    have hset := hu.credits hk
    have hpings := (hfirst.registered g ⟨k, hk⟩).2.2
    rw [hf k (hk ▸ D.nonzero g)] at hset
    refine ⟨by omega, fun p hp hg => ?_⟩
    have hpos : 0 < s.pings g := Multiset.countP_pos_of_mem hp (by simpa using hg)
    omega
  · exact ⟨(hfirst.unregistered g hr).1, fun _ _ _ => hr⟩

/-- Without a job for a registered host, all the credits stay. -/
theorem Undisturbed.full_balance (hu : Undisturbed s) (h : s.maps.Full) {m : Msg D} {f : Frame}
    (hf : m.toBalancer = some f) (hm : m ∈ s.net)
    (hl : m.submitted ≠ none → ∀ h, ¬ Registered s.maps (D.addr h))
    (tail : Option (Vector U8 7)) : (loadBalancer tail s.maps f).maps.Full := by
  have hs := hu.1
  have hmv := loadBalancer_move tail f hs.bound
  -- the ping of a registered host would be an answer
  have hping : ∀ k : Slot, IsPing f.bytes → s.maps.keyOf (ipSaddr f.bytes) = slotKey k →
      (s.maps.servers k).saddr = 0#32 := by
    intro k hp hk
    obtain ⟨p, rfl, hsrc⟩ := Msg.ping_source hf hp
    by_contra hr
    rw [hsrc, hs.registry.credited_host hs.hosts hr] at hk
    exact (hu.idle_of_full h p.host).2 p hm rfl ⟨k, hk⟩
  generalize loadBalancer tail s.maps f = o at hmv
  cases hmv with
  | other | wait => exact h
  | refuse => exact h.congr (by simp)
  | register k =>
      intro j hj
      by_cases e : j = k
      · simp [e, newInfo]
      · simp only [Maps.bump_servers, Maps.set_servers, Maps.note_servers,
          Function.update_of_ne e] at hj ⊢
        exact h j hj
  | done k hp hk hr | drain k _ _ _ _ hp hk hr | stuck k hp hk hr =>
      exact absurd (hping k hp hk) hr
  | send k hj hk =>
      -- there would be a registered host to send it to
      obtain ⟨g, hg⟩ := hs.hosts k hk.registered
      cases m with
      | job j => exact absurd ⟨k, hg⟩ (hl (Option.some_ne_none _) g)
      | ping p =>
          cases hf
          exact absurd hj p.isPing.not_isJob
      | dispatch => cases hf

theorem System.delivered_of_idle (hi : ∀ g, s.inFlight g = 0) (e : FaultyEvent D) :
    (s.relayed e).delivered = [] := by
  refine relayed_delivered e fun h f _ => ?_
  rintro ⟨hm, hf⟩
  have hpos : 0 < s.inFlight h := Multiset.countP_pos_of_mem hm (by simpa using hf)
  exact hpos.ne' (hi h)

end

section
variable {s : Faulty D} {e : FaultyEvent D}

theorem Faulty.full_step (hu : Undisturbed s.shadow) (hl : e.Lossy) (he : s.system.Unserved e)
    (h : s.system.maps.Full) : ((faulty D).step s e).system.maps.Full := by
  show (s.system.stepFaulty e).maps.Full
  cases maps_change s.system e with
  | same hm => rwa [hm]
  | balance m f tail hb hf hin hm =>
      rw [hm]
      exact hu.full_balance h hf (s.system.mem_undelivered s.dropped hin) (he _ hb hin) tail
  | reload he =>
      subst he
      exact hl.elim

theorem Faulty.idle_of_full (hu : Undisturbed s.shadow) (h : s.system.maps.Full)
    (g : Fin D.hosts) : s.system.inFlight g = 0 := by
  have hin : s.shadow.inFlight g = s.system.inFlight g + _ :=
    s.system.inFlight_undelivered s.dropped g
  have hidle := (hu.idle_of_full h g).1
  omega

end

/-- Nothing is delivered. -/
theorem deliveredJobs_eq_nil {es : List (FaultyEvent D)} (hl : ∀ e ∈ es, e.Lossy)
    (hu : (faulty D).Along (fun s => s.system.Unserved) .initial es) :
    deliveredJobs (.initial : Faulty D) es = [] :=
  (Machine.along_and.mpr ⟨(faulty D).along_of_forall hl _, hu⟩).collect_eq_nil
    (P := fun s => Undisturbed s.shadow ∧ s.system.maps.Full)
    (fun _ _ h hc => ⟨undisturbed_step hc.1 h.1, Faulty.full_step h.1 hc.1 hc.2 h.2⟩)
    (fun _ e h _ => System.delivered_of_idle (Faulty.idle_of_full h.1 h.2) e)
    ⟨undisturbed_initial, fun _ hk => absurd rfl hk⟩

/-- **All or nothing.**  Once a system in which no process dies, the balancer is not reloaded, no
message is doubled and every frame that is to grow does has come to rest: if no job reached the
balancer while a host was registered, no job has been delivered, and all that were not refused or
dropped wait in the queue; and otherwise all that were not refused or dropped have been delivered or
wait, and they wait only where a registered host has lost a credit, to a sleep that raised or a
message dropped. -/
theorem all_or_nothing {es : List (FaultyEvent D)} (hl : ∀ e ∈ es, e.Lossy)
    (hg : ∀ e ∈ es, e.Grows) (hq : ((faulty D).after .initial es).Quiescent) :
    ((faulty D).Along (fun s => s.system.Unserved) .initial es →
      deliveredJobs (.initial : Faulty D) es = [] ∧
        (submittedJobs (.initial : Faulty D) es : Multiset U64) =
          turnedAway (.initial : Faulty D) es + lostJobs (.initial : Faulty D) es +
            ((faulty D).after .initial es).system.maps.queue.items) ∧
    (¬ (faulty D).Along (fun s => s.system.Unserved) .initial es →
      (((faulty D).after .initial es).system.maps.queue.items = [] ∨
        ∃ h, Registered ((faulty D).after .initial es).system.maps (D.addr h) ∧
          0 < ((faulty D).after .initial es).system.failures h +
            ((faulty D).after .initial es).losses h) ∧
        (submittedJobs (.initial : Faulty D) es : Multiset U64) =
          deliveredJobs (.initial : Faulty D) es + turnedAway (.initial : Faulty D) es +
            lostJobs (.initial : Faulty D) es +
            ((faulty D).after .initial es).system.maps.queue.items) := by
  have hbal := accounted_at_rest hl hq
  rw [spilledJobs_eq_nil hg, Multiset.coe_nil, add_zero] at hbal
  constructor
  · intro hu
    have hnil := deliveredJobs_eq_nil hl hu
    rw [hnil, Multiset.coe_nil, zero_add] at hbal
    exact ⟨hnil, hbal⟩
  · intro hu
    refine ⟨?_, hbal⟩
    by_cases hw : ((faulty D).after .initial es).system.maps.queue.items = []
    · exact .inl hw
    · -- a job that waits does so beside a slot short of credits
      have hfull := (attended_after hl hg hu).waiting hw
      simp only [Maps.Full, not_forall] at hfull
      obtain ⟨k, hk, hfree⟩ := hfull
      obtain ⟨g, hk⟩ := (sound_faulty es).hosts k hk
      have hsum := credits_at_rest hl hq hk
      refine .inr ⟨g, ⟨k, hk⟩, Nat.pos_of_ne_zero fun hzero => hfree ?_⟩
      exact BitVec.eq_of_toNat_eq (by omega)

/-- A job comes before the process has registered. -/
def jobFirst : List (FaultyEvent oneHost) :=
  [.event (.client fourSeconds), .event (.balance (.job fourSeconds) zeros),
    .event (.start host), .event (.main host (pingOf byteS 1#32)),
    .event (.balance (.ping (pingAt 1 byteS)) zeros)]

theorem quiescent_jobFirst : ((faulty oneHost).after .initial jobFirst).Quiescent := by
  have hserver : ((faulty oneHost).after .initial jobFirst).system.server host =
      some { Server.fresh with pc := .recvfrom } := by
    decide +kernel
  refine Faulty.quiescent_of_idle (by decide +kernel) fun g => ?_
  obtain rfl : g = host := Subsingleton.elim (α := Fin 1) g host
  refine ⟨_, hserver, rfl, fun w hw => ?_⟩
  cases hw

theorem all_or_nothing_jobFirst :
    deliveredJobs (.initial : Faulty oneHost) jobFirst = [] ∧
      (submittedJobs (.initial : Faulty oneHost) jobFirst : Multiset U64) =
        turnedAway (.initial : Faulty oneHost) jobFirst +
          lostJobs (.initial : Faulty oneHost) jobFirst +
          ((faulty oneHost).after .initial jobFirst).system.maps.queue.items :=
  (all_or_nothing (by decide +kernel) (by decide +kernel) quiescent_jobFirst).1 (by decide +kernel)

end EbpfLb
