import EbpfLoadBalancer.Protocol.Faults

/-!
# Protocol — what is lost costs credits

To everyone else a message dropped is one that stays in flight for ever, and a worker whose sleep
has raised one that stays asleep.  Seen so (`Faulty.shadow`), a run without a death, a reload or a
doubled message is one in which nothing is lost, and the credits are conserved in it
(`undisturbed_after`).  So every job and every `'D'` that is dropped, and every sleep that raises,
costs its host one credit (`losses_cost_credits`), and costs it for good (`losses_stay`): nothing in
the protocol asks for it again.
-/

namespace EbpfLb
open Bpf

variable {D : Deployment}

/-- Without a death, a reload or a doubled message. -/
def FaultyEvent.Lossy : FaultyEvent D → Prop
  | event e => e.Basic
  | raise .. | stuck _ | drop _ => True
  | duplicate _ => False

instance : DecidablePred (FaultyEvent.Lossy : FaultyEvent D → Prop)
  | .event e => inferInstanceAs (Decidable e.Basic)
  | .raise .. | .stuck _ | .drop _ => isTrue trivial
  | .duplicate _ => isFalse id

theorem FaultyEvent.Lossy.base {e : FaultyEvent D} (he : e.Lossy) {e₀ : Event D}
    (h : e.base = some e₀) : e₀.Basic := by
  cases e with
  | event e =>
      cases h
      exact he
  | raise | stuck =>
      cases h
      trivial
  | drop | duplicate => cases h

/-! ### A message dropped is a message that never arrives -/

namespace System
variable (s : System D) (lost : Multiset (Msg D))

/-- The system with the messages `lost` in flight besides. -/
def undelivered : System D := { s with net := s.net + lost }

theorem undelivered_send (m : Msg D) :
    (s.send m).undelivered lost = (s.undelivered lost).send m := by
  simp only [undelivered, send, Multiset.cons_add]

theorem undelivered_take {m : Msg D} (hm : m ∈ s.net) :
    (s.take m).undelivered lost = (s.undelivered lost).take m := by
  simp only [undelivered, take, Multiset.erase_add_left_pos _ hm]

theorem undelivered_acted (h : Fin D.hosts) (f : Frame) (r : Option (Server × Option U8)) :
    (s.acted h f r).undelivered lost = (s.undelivered lost).acted h f r := by
  match r with
  | none | some (srv, none) => rfl
  | some (srv, some b) =>
      simp only [acted]
      split
      · exact undelivered_send _ lost _
      · rfl

theorem undelivered_balanced {m : Msg D} (hm : m ∈ s.net) (o : Outcome) :
    (s.balanced m o).undelivered lost = (s.undelivered lost).balanced m o := by
  have htake := s.undelivered_take lost hm
  simp only [balanced]
  split
  · rw [undelivered_send, ← htake]
    rfl
  · rw [← htake]
    rfl

theorem mem_undelivered {m : Msg D} (hm : m ∈ s.net) : m ∈ (s.undelivered lost).net :=
  Multiset.mem_add.mpr (.inl hm)

/-- An event does the same with them, or nothing without them. -/
theorem undelivered_step (e : Event D) :
    s.step e = s ∨ (s.step e).undelivered lost = (s.undelivered lost).step e := by
  cases e with
  | client j => exact .inr (s.undelivered_send lost _)
  | start h =>
      right
      have hsame : (s.undelivered lost).server h = s.server h := rfl
      cases hs : s.server h with
      | none =>
          simp only [step, hsame, hs]
          rfl
      | some srv => simp only [step, hsame, hs]
  | main h f | work h _ f => exact .inr (s.undelivered_acted lost h f _)
  | receive h f =>
      by_cases hf : .dispatch f ∈ s.net ∧ ipDaddr f = D.addr h
      · right
        have hf' : .dispatch f ∈ (s.undelivered lost).net ∧ ipDaddr f = D.addr h :=
          ⟨s.mem_undelivered lost hf.1, hf.2⟩
        have hsame : (s.undelivered lost).server h = s.server h := rfl
        simp only [step, if_pos hf, if_pos hf', hsame]
        cases (s.server h).bind fun srv => srv.recvfrom (datagramOf f) with
        | none => rfl
        | some srv => exact undelivered_take (s.setServer h (some srv)) lost hf.1
      · exact .inl (by rw [step, if_neg hf])
  | balance m tail =>
      cases hm : m.toBalancer with
      | none => exact .inl (by rw [step, hm])
      | some f =>
          by_cases hin : m ∈ s.net
          · right
            simp only [step, hm, if_pos hin, if_pos (s.mem_undelivered lost hin)]
            exact s.undelivered_balanced lost hin _
          · exact .inl (by simp only [step, hm, if_neg hin])
  | die | reload => exact .inr rfl

theorem undelivered_stepFaulty {e : FaultyEvent D} {e₀ : Event D} (he : e.base = some e₀) :
    s.stepFaulty e = s ∨
      (s.stepFaulty e).undelivered lost = (s.undelivered lost).stepFaulty e := by
  cases e with
  | event e => exact s.undelivered_step lost e
  | raise h i f => exact .inr (s.undelivered_acted lost h f _)
  | stuck m =>
      cases hm : m.toBalancer with
      | none => exact .inl (by rw [stepFaulty, hm])
      | some f =>
          by_cases hin : m ∈ s.net
          · right
            simp only [stepFaulty, hm, if_pos hin, if_pos (s.mem_undelivered lost hin)]
            exact s.undelivered_balanced lost hin _
          · exact .inl (by simp only [stepFaulty, hm, if_neg hin])
  | drop | duplicate => cases he

theorem inFlight_undelivered (h : Fin D.hosts) :
    (s.undelivered lost).inFlight h = s.inFlight h + lost.countP fun m => m.isDispatchTo h :=
  Multiset.countP_add _ _ _

theorem answers_undelivered (h : Fin D.hosts) :
    (s.undelivered lost).answers h = s.answers h + lost.countP fun m => m.isAnswerOf h :=
  Multiset.countP_add _ _ _

theorem pings_undelivered (h : Fin D.hosts) :
    (s.undelivered lost).pings h = s.pings h + lost.countP fun m => m.isPingOf h :=
  Multiset.countP_add _ _ _

end System

/-! ### The run in which nothing is lost -/

namespace Faulty
variable (s : Faulty D)

/-- What has been dropped is still in flight, and the failed workers are asleep. -/
def shadow : System D := (s.system.undelivered s.dropped).revived

/-- What the shadow does is booked as what a thread or the balancer does. -/
theorem shadow_step {e : FaultyEvent D} (he : e.Lossy) (hs : Sound s.shadow) :
    Sound (s.step e).shadow ∧ ∃ e₀ : Event D, e₀.Basic ∧ Booked s.shadow e₀ (s.step e).shadow := by
  have hsame : ∀ e₀ : Event D, e₀.Basic → (s.step e).shadow = s.shadow →
      Sound (s.step e).shadow ∧
        ∃ e₀ : Event D, e₀.Basic ∧ Booked s.shadow e₀ (s.step e).shadow := by
    intro e₀ hb h
    rw [h]
    exact ⟨hs, e₀, hb, (Change.idle e₀).booked hs⟩
  have hbase : ∀ e₀, e.base = some e₀ → (s.step e).dropped = s.dropped →
      Sound (s.step e).shadow ∧
        ∃ e₀ : Event D, e₀.Basic ∧ Booked s.shadow e₀ (s.step e).shadow := by
    intro e₀ hbase hd
    have hshadow : (s.step e).shadow = ((s.system.stepFaulty e).undelivered s.dropped).revived := by
      rw [shadow, hd]
      rfl
    rcases s.system.undelivered_stepFaulty s.dropped hbase with hidle | hstep
    · exact hsame e₀ (he.base hbase) (by rw [hshadow, hidle]; rfl)
    · rw [hshadow, hstep]
      exact ⟨hs.stepFaulty e, e₀, he.base hbase, stepFaulty_booked hs hbase⟩
  cases e with
  | event | raise | stuck => exact hbase _ rfl rfl
  | drop m =>
      refine hsame (.balance m (Vector.replicate 7 0#8)) trivial ?_
      by_cases hm : m ∈ s.system.net
      · have hnet : s.system.net.erase m + m ::ₘ s.dropped = s.system.net + s.dropped := by
          rw [Multiset.add_cons, ← Multiset.cons_add, Multiset.cons_erase hm]
        simp only [shadow, step, System.stepFaulty, if_pos hm, System.undelivered, System.take,
          hnet]
      · simp only [shadow, step, System.stepFaulty, if_neg hm]
  | duplicate => exact he.elim

/-- The jobs and the `'D'`s of `h` that the network has dropped. -/
def losses (h : Fin D.hosts) : Nat :=
  (s.dropped.countP fun m => m.isDispatchTo h) + s.dropped.countP fun m => m.isAnswerOf h

end Faulty

theorem undisturbed_step {s : Faulty D} {e : FaultyEvent D} (he : e.Lossy)
    (h : Undisturbed s.shadow) : Undisturbed (s.step e).shadow := by
  obtain ⟨hs, e₀, hb, hbook⟩ := s.shadow_step he h.1
  exact h.booked hs hb hbook

/-- **Seen so, nothing is lost.** -/
theorem undisturbed_after {es : List (FaultyEvent D)} (hl : ∀ e ∈ es, e.Lossy) :
    Undisturbed ((faulty D).after .initial es).shadow :=
  ((faulty D).along_of_forall hl .initial).invariant (P := fun s => Undisturbed s.shadow)
    (fun _ _ h he => undisturbed_step he h) undisturbed_initial

/-- What the credits of a registered host come to. -/
theorem Undisturbed.losses {s : Faulty D} (h : Undisturbed s.shadow) {k : Slot} {g : Fin D.hosts}
    (hk : (s.system.maps.servers k).saddr = D.addr g) :
    (s.system.maps.servers k).freeThreads.toNat + s.system.inFlight g + s.system.held g +
      s.system.failures g + s.system.answers g + s.losses g = maxThreads.toNat := by
  have hset := h.credits (k := k) hk
  have hin : s.shadow.inFlight g = s.system.inFlight g + _ :=
    s.system.inFlight_undelivered s.dropped g
  have hans : s.shadow.answers g = s.system.answers g + _ :=
    s.system.answers_undelivered s.dropped g
  have hheld : s.shadow.held g = s.system.held g + s.system.failures g :=
    (s.system.undelivered s.dropped).held_revived g
  rw [hin, hans, hheld] at hset
  have hset : (s.system.maps.servers k).freeThreads.toNat + (s.system.inFlight g + _) +
      (s.system.held g + s.system.failures g) + (s.system.answers g + _) = maxThreads.toNat := hset
  rw [Faulty.losses]
  omega

/-- **Every loss costs one credit.**  As long as no process dies, the balancer is not reloaded and
no message is doubled, whatever the network drops, whatever sleeps raise and whatever frames do not
grow: for every registered host, its credits, the jobs in flight to it, the jobs it has received and
not answered, the workers of it whose sleep has raised, its `'D'`s in flight, and the jobs and
`'D'`s that have been dropped add up to `MAX_THREADS`. -/
theorem losses_cost_credits {es : List (FaultyEvent D)} (hl : ∀ e ∈ es, e.Lossy) {k : Slot}
    {h : Fin D.hosts}
    (hk : (((faulty D).after .initial es).system.maps.servers k).saddr = D.addr h) :
    (((faulty D).after .initial es).system.maps.servers k).freeThreads.toNat +
        ((faulty D).after .initial es).system.inFlight h +
        ((faulty D).after .initial es).system.held h +
        ((faulty D).after .initial es).system.failures h +
        ((faulty D).after .initial es).system.answers h +
        ((faulty D).after .initial es).losses h = maxThreads.toNat :=
  (undisturbed_after hl).losses hk

/-- A client sends a job, and the network drops it behind the balancer. -/
def lostJob : List (FaultyEvent oneHost) :=
  [.event (.client fourSeconds), .event (.balance (.job fourSeconds) zeros),
    .drop (.dispatch (rewrite (newInfo (pingOf byteS 1#32).bytes) fourSeconds.frame.bytes))]

/-- A job whose sleep raises, and `n` jobs to the host that are dropped. -/
def lossyRun (n : Nat) : List (FaultyEvent oneHost) :=
  (registerAndSendLongest ++ receiveLongest).map .event ++
    [.raise host 0 (pingOf byteD 1#32)] ++ (List.replicate n lostJob).flatten

theorem losses_cost_credits_lossyRun :
    (((faulty oneHost).after .initial (lossyRun 2)).system.maps.servers 0).freeThreads.toNat +
        ((faulty oneHost).after .initial (lossyRun 2)).system.inFlight host +
        ((faulty oneHost).after .initial (lossyRun 2)).system.held host +
        ((faulty oneHost).after .initial (lossyRun 2)).system.failures host +
        ((faulty oneHost).after .initial (lossyRun 2)).system.answers host +
        ((faulty oneHost).after .initial (lossyRun 2)).losses host = maxThreads.toNat :=
  losses_cost_credits (by decide +kernel) (by decide +kernel)

/-! ### What is lost is lost for good -/

theorem Faulty.step_dropped (s : Faulty D) (e : FaultyEvent D) :
    s.dropped ≤ (s.step e).dropped := by
  cases e with
  | event | raise | stuck | duplicate => exact le_refl _
  | drop m =>
      simp only [step]
      split
      · exact Multiset.le_cons_self _ _
      · exact le_refl _

/-- A failed worker stays failed. -/
theorem System.failures_stepFaulty (s : System D) {e : FaultyEvent D} (he : e.Lossy)
    (h : Fin D.hosts) : s.failures h ≤ (s.stepFaulty e).failures h := by
  have hthread : ∀ raises, ∀ e : Event D, e.Basic →
      s.failures h ≤ (s.stepRaising raises e).failures h := fun raises e he => by
    have hone : ∀ e' ∈ [e], e'.Basic := by simpa using he
    exact failures_after raises s hone h
  cases e with
  | event e =>
      have hle := hthread (fun _ => false) e he
      rwa [stepRaising_never] at hle
  | raise g i f => exact hthread _ (.work g i f) trivial
  | stuck m =>
      rw [stepFaulty]
      split
      · exact le_refl _
      · split
        · rw [failures, failures, balanced_server]
        · exact le_refl _
  | drop | duplicate =>
      rw [stepFaulty]
      split <;> exact le_refl _

theorem losses_after (s : Faulty D) {es : List (FaultyEvent D)} (hl : ∀ e ∈ es, e.Lossy)
    (h : Fin D.hosts) : s.losses h + s.system.failures h ≤
      ((faulty D).after s es).losses h + ((faulty D).after s es).system.failures h := by
  refine ((faulty D).along_of_forall hl s).invariant
    (P := fun t => s.losses h + s.system.failures h ≤ t.losses h + t.system.failures h)
    (fun t e ht he => ht.trans ?_) (le_refl _)
  have hle := t.step_dropped e
  exact Nat.add_le_add
    (Nat.add_le_add (Multiset.countP_le_of_le _ hle) (Multiset.countP_le_of_le _ hle))
    (t.system.failures_stepFaulty he h)

/-- A host keeps its slot. -/
theorem Faulty.saddr_after {s : Faulty D} (hs : Sound s.shadow) {es : List (FaultyEvent D)}
    (hl : ∀ e ∈ es, e.Lossy) {k : Slot} {g : Fin D.hosts}
    (hk : (s.system.maps.servers k).saddr = D.addr g) :
    (((faulty D).after s es).system.maps.servers k).saddr = D.addr g :=
  (((faulty D).along_of_forall hl s).invariant
    (P := fun s => Sound s.shadow ∧ (s.system.maps.servers k).saddr = D.addr g)
    (fun s e h he => by
      obtain ⟨hs, e₀, hb, hbook⟩ := s.shadow_step he h.1
      have hkeep : ((s.step e).shadow.maps.servers k).saddr = D.addr g :=
        hbook.saddr h.1 hb (k := k) (g := g) h.2
      exact ⟨hs, hkeep⟩) ⟨hs, hk⟩).2

/-- **A server whose credits are lost is given up.**  Once as many jobs and `'D'`s of a registered
host have been dropped, and sleeps of it have raised, as it has credits, it stays registered without
a credit, and is never sent a job again, whatever happens without a death, a reload or a doubled
message. -/
theorem losses_stay {es es' : List (FaultyEvent D)} (hl : ∀ e ∈ es ++ es', e.Lossy) {k : Slot}
    {h : Fin D.hosts}
    (hk : (((faulty D).after .initial es).system.maps.servers k).saddr = D.addr h)
    (hlost : maxThreads.toNat ≤ ((faulty D).after .initial es).losses h +
      ((faulty D).after .initial es).system.failures h) :
    (((faulty D).after .initial (es ++ es')).system.maps.servers k).saddr = D.addr h ∧
      (((faulty D).after .initial (es ++ es')).system.maps.servers k).freeThreads = 0#16 ∧
      ((faulty D).after .initial (es ++ es')).system.inFlight h = 0 := by
  obtain ⟨hl₁, hl₂⟩ := List.forall_mem_append.mp hl
  have hk' := Faulty.saddr_after (undisturbed_after hl₁).1 hl₂ hk
  rw [← Machine.after_append] at hk'
  have hsum := (undisturbed_after hl).losses hk'
  have hle := losses_after ((faulty D).after .initial es) hl₂ h
  rw [← Machine.after_append] at hle
  exact ⟨hk', BitVec.eq_of_toNat_eq (by rw [BitVec.toNat_ofNat]; omega), by omega⟩

theorem losses_stay_lossyRun :
    (((faulty oneHost).after .initial (lossyRun 4 ++ lostJob)).system.maps.servers 0).saddr =
        oneHost.addr host ∧
      (((faulty oneHost).after .initial (lossyRun 4 ++ lostJob)).system.maps.servers
        0).freeThreads = 0#16 ∧
      ((faulty oneHost).after .initial (lossyRun 4 ++ lostJob)).system.inFlight host = 0 :=
  losses_stay (by decide +kernel) (by decide +kernel) (by decide +kernel)

end EbpfLb
