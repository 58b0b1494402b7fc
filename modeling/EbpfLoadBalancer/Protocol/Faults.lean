import EbpfLoadBalancer.Protocol.Raising
import EbpfLoadBalancer.Protocol.Restarts

/-!
# Protocol — what can go wrong

In the system of `System` nothing goes wrong: no `time.sleep` raises, a frame grows whenever it is
asked to, and the network delivers every message once.  In `Faulty` all of it may, in any step: a
sleep raises, a frame does not grow, the network drops a message or delivers it twice.  A process
that dies takes the datagrams in its socket with it; here they are messages dropped.

The auditor goes on beside it.  To the auditor a worker whose sleep has raised is asleep for ever
(`System.revived`), a message doubled is surplus to its host and a message dropped is lost.  The
auditor's inequalities hold of every run (`credits_across_faults`).
-/

namespace EbpfLb
open Bpf

variable {D : Deployment}

/-- What happens next. -/
inductive FaultyEvent (D : Deployment)
  /-- Nothing goes wrong. -/
  | event (e : Event D)
  /-- Worker `i` of the process at `h` steps, and if it is in `time.sleep`, that raises. -/
  | raise (h : Fin D.hosts) (i : Nat) (f : Frame)
  /-- The balancer runs on `m`, whose frame does not grow. -/
  | stuck (m : Msg D)
  | drop (m : Msg D)
  | duplicate (m : Msg D)

def System.stepFaulty (s : System D) : FaultyEvent D → System D
  | .event e => s.step e
  | .raise h i f => s.stepRaising (fun _ => true) (.work h i f)
  | .stuck m =>
    match m.toBalancer with
    | none => s
    | some f => if m ∈ s.net then s.balanced m (loadBalancer none s.maps f) else s
  | .drop m => if m ∈ s.net then s.take m else s
  | .duplicate m => if m ∈ s.net then s.send m else s

/-- How much of what is outstanding at `h` the message is. -/
def Msg.share (h : Fin D.hosts) (m : Msg D) : Nat :=
  (if m.isDispatchTo h then 1 else 0) + if m.isPingOf h then 1 else 0

/-- The figures after the event. -/
def Audit.nextFaulty (s : System D) (a : Audit D) : FaultyEvent D → Audit D
  | .drop m =>
    if m ∈ s.net then { a with lost := fun h => a.lost h + m.share h } else a
  | .duplicate m =>
    if m ∈ s.net then { a with surplus := fun h => a.surplus h + m.share h } else a
  | e => a.next s.revived (s.stepFaulty e).revived

structure Faulty (D : Deployment) where
  system : System D
  audit : Audit D
  /-- What the network has dropped. -/
  dropped : Multiset (Msg D)

namespace Faulty

def initial : Faulty D := ⟨.initial, ⟨fun _ => 0, fun _ => 0⟩, 0⟩

def step (s : Faulty D) (e : FaultyEvent D) : Faulty D where
  system := s.system.stepFaulty e
  audit := s.audit.nextFaulty s.system e
  dropped :=
    match e with
    | .drop m => if m ∈ s.system.net then m ::ₘ s.dropped else s.dropped
    | _ => s.dropped

end Faulty

/-- The system in which things go wrong, one event after the other. -/
def faulty (D : Deployment) : Machine (Faulty D) (FaultyEvent D) (Faulty D) where
  out := Faulty.step
  next := id

theorem faulty_system (s : Faulty D) (e : FaultyEvent D) :
    ((faulty D).step s e).system = s.system.stepFaulty e := rfl

/-- The message on which the balancer runs in the event, and the bytes by which its frame can
grow. -/
def FaultyEvent.balances : FaultyEvent D → Option (Msg D × Option (Vector U8 7))
  | event (.balance m tail) => some (m, some tail)
  | stuck m => some (m, none)
  | _ => none

theorem System.stepFaulty_balances {s : System D} {e : FaultyEvent D} {m : Msg D} {f : Frame}
    {tail : Option (Vector U8 7)} (he : e.balances = some (m, tail)) (hf : m.toBalancer = some f)
    (hin : m ∈ s.net) : s.stepFaulty e = s.balanced m (loadBalancer tail s.maps f) := by
  cases e with
  | event e =>
      cases e with
      | balance =>
          cases he
          rw [stepFaulty, step, hf]
          exact if_pos hin
      | client | start | main | work | receive | die | reload => cases he
  | stuck =>
      cases he
      rw [stepFaulty, hf]
      exact if_pos hin
  | raise | drop | duplicate => cases he

/-- What an event can do to the maps. -/
inductive MapsChange (s : System D) (e : FaultyEvent D) (s' : System D) : Prop
  | same (hm : s'.maps = s.maps)
  | balance (m : Msg D) (f : Frame) (tail : Option (Vector U8 7))
      (he : e.balances = some (m, tail)) (hf : m.toBalancer = some f) (hin : m ∈ s.net)
      (hm : s'.maps = (loadBalancer tail s.maps f).maps)
  | reload (he : e = .event .reload) (hm : s'.maps = Maps.empty)

theorem maps_change (s : System D) (e : FaultyEvent D) : MapsChange s e (s.stepFaulty e) := by
  cases e with
  | event e =>
      have hc : Change s e (s.stepFaulty (.event e)) := protocol_change s e
      generalize s.stepFaulty (.event e) = s' at hc ⊢
      cases hc with
      | idle | client | start | quiet | sent | receive | die => exact .same rfl
      | balance m f tail hf hin => exact .balance m f _ rfl hf hin (s.balanced_maps m _)
      | reload => exact .reload rfl rfl
  | raise h i f => exact .same (s.acted_maps h f _)
  | stuck m =>
      rw [System.stepFaulty]
      cases hf : m.toBalancer with
      | none => exact .same rfl
      | some f =>
          dsimp only
          split
          · rename_i hin
            exact .balance m f none rfl hf hin (s.balanced_maps m _)
          · exact .same rfl
  | drop | duplicate =>
      rw [System.stepFaulty]
      split <;> exact .same rfl

/-! ### With the failed workers asleep

What a thread or the balancer does, with a fault or without, is then one of the changes of the
system, or the balancer's step on a frame that does not grow. -/

/-- The event of the system that the event is, but for what goes wrong. -/
def FaultyEvent.base : FaultyEvent D → Option (Event D)
  | event e => some e
  | raise h i f => some (.work h i f)
  | stuck m => some (.balance m (Vector.replicate 7 0#8))
  | drop _ | duplicate _ => none

section
variable {s : System D} {e : FaultyEvent D} {e₀ : Event D}

theorem stepRaising_never (s : System D) (e : Event D) :
    s.stepRaising (fun _ => false) e = s.step e := by cases e <;> rfl

theorem step_revived (s : System D) (e : Event D) :
    (s.step e).revived = s.revived.step e ∨ (s.step e).revived = s.revived := by
  rw [← stepRaising_never]
  exact s.stepRaising_revived _ e

/-- The failed workers are no business of the balancer's. -/
theorem Sound.bound_revived (hs : Sound s.revived) : CreditBound s.maps := hs.bound

theorem Sound.stepFaulty (hs : Sound s.revived) (e : FaultyEvent D) :
    Sound (s.stepFaulty e).revived := by
  have hstep : ∀ {t : System D} {e : Event D}, t = s.revived.step e ∨ t = s.revived → Sound t := by
    rintro t e (rfl | rfl)
    · exact sound_step s.revived e hs
    · exact hs
  cases e with
  | event e => exact hstep (step_revived s e)
  | raise h i f => exact hstep (s.stepRaising_revived _ (.work h i f))
  | stuck m =>
      rw [System.stepFaulty]
      cases hf : m.toBalancer with
      | none => exact hs
      | some f =>
          dsimp only
          split
          · rw [System.balanced_revived]
            exact hs.balanced hf none
          · exact hs
  | drop m =>
      rw [System.stepFaulty]
      split
      · exact hs.net fun f hf => hs.whole f (Multiset.mem_of_mem_erase hf)
      · exact hs
  | duplicate m =>
      rw [System.stepFaulty]
      split
      · rename_i hm
        refine hs.net fun f hf => ?_
        rcases Multiset.mem_cons.mp hf with e | hf
        · exact hs.whole f (e ▸ hm)
        · exact hs.whole f hf
      · exact hs

/-- **What a thread or the balancer does is booked**, whatever goes wrong. -/
theorem stepFaulty_booked (hs : Sound s.revived) (he : e.base = some e₀) :
    Booked s.revived e₀ (s.stepFaulty e).revived := by
  have hstep : ∀ {t : System D} {e : Event D}, t = s.revived.step e ∨ t = s.revived →
      Booked s.revived e t := by
    rintro t e (rfl | rfl)
    · exact (protocol_change s.revived e).booked hs
    · exact (Change.idle e).booked hs
  cases e with
  | event e =>
      cases he
      exact hstep (step_revived s _)
  | raise h i f =>
      cases he
      exact hstep (s.stepRaising_revived _ (.work h i f))
  | stuck m =>
      cases he
      rw [System.stepFaulty]
      cases hf : m.toBalancer with
      | none => exact (Change.idle _).booked hs
      | some f =>
          dsimp only
          split
          · rename_i hm
            exact .balance m f none hf hm (s.balanced_revived m _)
          · exact (Change.idle _).booked hs
  | drop | duplicate => cases he

end

theorem sound_faulty (es : List (FaultyEvent D)) :
    Sound ((faulty D).after .initial es).system.revived :=
  (faulty D).after_invariant (s := Faulty.initial) (P := fun s => Sound s.system.revived)
    sound_initial (fun _ e h => h.stepFaulty e) es

/-! ### The books -/

section
variable {s : System D} {a : Audit D} {m : Msg D}

theorem share_take (hm : m ∈ s.net) (h : Fin D.hosts) :
    (s.take m).inFlight h + (s.take m).pings h + m.share h = s.inFlight h + s.pings h := by
  have hin := System.inFlight_take hm h
  have hp := System.pings_take hm h
  rw [Msg.share]
  omega

theorem share_send (m : Msg D) (h : Fin D.hosts) :
    (s.send m).inFlight h + (s.send m).pings h = s.inFlight h + s.pings h + m.share h := by
  rw [System.inFlight_send, System.pings_send, Msg.share]
  omega

/-- A message dropped is booked as lost. -/
theorem Audited.drop (h : Audited s a) (hm : m ∈ s.net) :
    Audited (s.take m) { a with lost := fun g => a.lost g + m.share g } := by
  constructor
  · intro k g hk
    have hup := h.upper k g hk
    have hshare := share_take hm g
    rw [System.outstanding] at hup
    show (s.maps.servers k).freeThreads.toNat +
      ((s.take m).inFlight g + s.held g + (s.take m).pings g + s.pending g) ≤
        maxThreads.toNat + a.surplus g
    omega
  · intro k g hk
    have hlow := h.lower k g hk
    have hshare := share_take hm g
    show _ ≤ (s.maps.servers k).freeThreads.toNat + (s.take m).inFlight g + s.held g +
      (s.take m).pings g + (a.lost g + m.share g)
    omega

/-- And one doubled as surplus. -/
theorem Audited.duplicate (h : Audited s a) :
    Audited (s.send m) { a with surplus := fun g => a.surplus g + m.share g } := by
  constructor
  · intro k g hk
    have hup := h.upper k g hk
    have hshare := share_send (s := s) m g
    rw [System.outstanding] at hup
    show (s.maps.servers k).freeThreads.toNat +
      ((s.send m).inFlight g + s.held g + (s.send m).pings g + s.pending g) ≤
        maxThreads.toNat + (a.surplus g + m.share g)
    omega
  · intro k g hk
    have hlow := h.lower k g hk
    have hshare := share_send (s := s) m g
    show _ ≤ (s.maps.servers k).freeThreads.toNat + (s.send m).inFlight g + s.held g +
      (s.send m).pings g + a.lost g
    omega

end

/-- The auditor's figures bear out the system with the failed workers asleep. -/
theorem Audited.stepFaulty {s : System D} {a : Audit D} (h : Audited s.revived a)
    (hs : Sound s.revived) (e : FaultyEvent D) :
    Audited (s.stepFaulty e).revived (a.nextFaulty s e) := by
  cases e with
  | event e => exact h.booked hs (stepFaulty_booked (e := .event e) hs rfl)
  | raise g i f => exact h.booked hs (stepFaulty_booked (e := .raise g i f) hs rfl)
  | stuck m => exact h.booked hs (stepFaulty_booked (e := .stuck m) hs rfl)
  | drop m =>
      rw [System.stepFaulty, Audit.nextFaulty]
      split
      · rename_i hm
        exact h.drop (s := s.revived) hm
      · exact h
  | duplicate m =>
      rw [System.stepFaulty, Audit.nextFaulty]
      split
      · exact h.duplicate (s := s.revived)
      · exact h

theorem faulty_audited (es : List (FaultyEvent D)) :
    Audited ((faulty D).after .initial es).system.revived
      ((faulty D).after .initial es).audit :=
  ((faulty D).after_invariant (s := Faulty.initial)
    (P := fun s => Sound s.system.revived ∧ Audited s.system.revived s.audit)
    ⟨sound_initial, audited_initial⟩
    (fun _ e h => ⟨h.1.stepFaulty e, h.2.stepFaulty h.1 e⟩) es).2

/-- **Credits, whatever goes wrong.**  Whatever dies, starts, is reloaded, raises, does not grow, is
dropped and is doubled: for a registered host, its credits, the jobs in flight to it, the jobs its
process holds, the workers of it whose sleep has raised and the `'D'`s in flight of that process are
at most `MAX_THREADS` and the surplus; and when nothing is outstanding its credits are short of
`MAX_THREADS` by the workers whose sleep has raised and what has been lost at most. -/
theorem credits_across_faults (es : List (FaultyEvent D)) {k : Slot} {h : Fin D.hosts}
    (hk : (((faulty D).after .initial es).system.maps.servers k).saddr = D.addr h) :
    (((faulty D).after .initial es).system.maps.servers k).freeThreads.toNat +
        ((faulty D).after .initial es).system.inFlight h +
        ((faulty D).after .initial es).system.held h +
        ((faulty D).after .initial es).system.failures h +
        ((faulty D).after .initial es).system.dones h ≤
      maxThreads.toNat + ((faulty D).after .initial es).audit.surplus h ∧
    (((faulty D).after .initial es).system.Quiet h →
      maxThreads.toNat ≤
        (((faulty D).after .initial es).system.maps.servers k).freeThreads.toNat +
          ((faulty D).after .initial es).system.failures h +
          ((faulty D).after .initial es).audit.lost h) := by
  have ha := faulty_audited (D := D) es
  generalize (faulty D).after .initial es = s at ha hk
  have hup := ha.upper k h hk
  have hlow := ha.lower k h hk
  have hle := s.system.dones_le_pings h
  rw [System.outstanding, System.held_revived] at hup
  rw [System.held_revived] at hlow
  have hup : (s.system.maps.servers k).freeThreads.toNat + (s.system.inFlight h +
      (s.system.held h + s.system.failures h) + s.system.pings h + s.system.revived.pending h) ≤
        maxThreads.toNat + s.audit.surplus h := hup
  have hlow : maxThreads.toNat ≤ (s.system.maps.servers k).freeThreads.toNat +
      s.system.inFlight h + (s.system.held h + s.system.failures h) + s.system.pings h +
        s.audit.lost h := hlow
  refine ⟨by omega, ?_⟩
  rintro ⟨hin, hp, -, hh⟩
  omega

/-- The process starts and registers, and the longest job is sent to it. -/
def registerAndSendLongest : List (Event oneHost) :=
  [.start host, .main host (pingOf byteS 1#32), .balance (.ping (pingAt 1 byteS)) zeros,
    .client longestJob, .balance (.job longestJob) zeros]

/-- The job arrives, and its worker is about to sleep. -/
def receiveLongest : List (Event oneHost) :=
  [.receive host longestDispatch] ++ List.replicate 2 (.main host (pingOf byteD 1#32)) ++
    List.replicate 2 (.work host 0 (pingOf byteD 1#32))

/-- The job is doubled on its way and one copy dropped; the other one arrives, and its sleep
raises. -/
def faultyRun : List (FaultyEvent oneHost) :=
  registerAndSendLongest.map .event ++
    [.duplicate (.dispatch longestDispatch), .drop (.dispatch longestDispatch)] ++
    receiveLongest.map .event ++ [.raise host 0 (pingOf byteD 1#32)]

theorem credits_across_faults_faultyRun :
    (((faulty oneHost).after .initial faultyRun).system.maps.servers 0).freeThreads.toNat +
        ((faulty oneHost).after .initial faultyRun).system.inFlight host +
        ((faulty oneHost).after .initial faultyRun).system.held host +
        ((faulty oneHost).after .initial faultyRun).system.failures host +
        ((faulty oneHost).after .initial faultyRun).system.dones host ≤
      maxThreads.toNat + ((faulty oneHost).after .initial faultyRun).audit.surplus host ∧
    (((faulty oneHost).after .initial faultyRun).system.Quiet host →
      maxThreads.toNat ≤
        (((faulty oneHost).after .initial faultyRun).system.maps.servers 0).freeThreads.toNat +
          ((faulty oneHost).after .initial faultyRun).system.failures host +
          ((faulty oneHost).after .initial faultyRun).audit.lost host) :=
  credits_across_faults faultyRun (by decide +kernel)

end EbpfLb
