import EbpfLoadBalancer.Balancer.Dispatching
import EbpfLoadBalancer.Protocol.Raising

/-!
# Protocol — jobs that fit the clock

When no client sends a job whose value is too long a sleep, no such value is anywhere: every payload
in flight, every job waiting in the queue and every datagram a process has received is a client's
(`System.Fits`).  So no sleep raises, and the deployment runs as the system does
(`System.Fits.after`).
-/

namespace EbpfLb
open Bytes

variable {D : Deployment}

/-- The number a server decodes from the payload `v`. -/
def jobValue (v : U64) : Nat := fromBytes (toLE 8 v.toNat)

/-- A client that sends a job sends one that fits. -/
def Event.Fits (raises : Nat → Bool) : Event D → Prop
  | client j => raises (jobValue (payload64 j.frame.bytes)) = false
  | _ => True

instance (raises : Nat → Bool) : DecidablePred (Event.Fits raises : Event D → Prop)
  | .client _ => inferInstanceAs (Decidable (_ = _))
  | .start _ | .main .. | .work .. | .receive .. | .balance .. | .die _ | .reload => isTrue trivial

/-- What the process has received fits: the datagram in hand, as soon as there is one, and those
its workers run. -/
structure Server.Fits (raises : Nat → Bool) (s : Server) : Prop where
  datagram : raises (fromBytes s.datagram.data) = true → s.workers = [] ∧ ¬ s.Handling
  workers : ∀ w ∈ s.workers, ∀ d ∈ w.passed, raises (fromBytes d.data) = false

structure System.Fits (raises : Nat → Bool) (s : System D) : Prop where
  queue : ∀ v ∈ s.maps.queue.items, raises (jobValue v) = false
  jobs : ∀ j, .job j ∈ s.net → raises (jobValue (payload64 j.frame.bytes)) = false
  dispatched : ∀ f, .dispatch f ∈ s.net → raises (jobValue (payload64 f)) = false
  servers : ∀ h srv, s.server h = some srv → srv.Fits raises

/-! ### The payload of a frame -/

theorem jobValue_payload64 (f : Bytes) :
    jobValue (payload64 f) = fromBytes (f.read 42 8).toList := by
  have hl : (f.read 42 8).toList.length = 8 := by simp
  rw [jobValue, payload64, toNat_load f rfl]
  conv_rhs => rw [← toLE_ofLE (f.read 42 8).toList, hl]

/-- What a server makes of a frame it receives. -/
theorem fromBytes_datagramOf {f : Bytes} (hf : f.length = 50) :
    fromBytes ((System.datagramOf f).data.take 8) = jobValue (payload64 f) := by
  have hread : (f.drop 42).take 8 = (f.read 42 8).toList := by
    refine ext_byte (by simp [hf]) fun i => ?_
    rw [byte_toList_read, List.take_of_length_le (by simp [hf]), byte_drop]
    split
    · rfl
    · exact byte_of_le (by omega)
  rw [jobValue_payload64, ← hread]
  rfl

/-- What a step keeps waiting or sends was waiting, or is in the frame. -/
theorem Move.jobs_of {tail : Option (Vector U8 7)} {m : Maps} {f : Frame} {o : Outcome}
    {P : U64 → Prop} (hmv : Move tail m f o) (hq : ∀ v ∈ m.queue.items, P v)
    (hj : IsJob f.bytes → P (payload64 f.bytes)) :
    (∀ v ∈ o.maps.queue.items, P v) ∧ (o.verdict = .tx → P (payload64 o.frame)) := by
  cases hmv with
  | other =>
      refine ⟨hq, fun h => ?_⟩
      split at h <;> cases h
  | refuse => exact ⟨by simpa using hq, nofun⟩
  | register => exact ⟨by simpa using hq, nofun⟩
  | done => exact ⟨by simpa using hq, nofun⟩
  | drain k j v rest bs hp _ _ hv =>
      refine ⟨fun x hx => ?_, fun _ => ?_⟩
      · simp only [Maps.charge_queue, Maps.popped_items, Maps.credit_queue, Maps.note_queue] at hx
        exact hq x (List.mem_of_mem_tail hx)
      · rw [payload64_drained hp]
        exact hq v (by simp [hv])
  | stuck =>
      refine ⟨fun x hx => ?_, nofun⟩
      simp only [Maps.popped_items, Maps.credit_queue, Maps.note_queue] at hx
      exact hq x (List.mem_of_mem_tail hx)
  | send _ hj' =>
      refine ⟨by simpa using hq, fun _ => ?_⟩
      rw [payload64_rewrite]
      exact hj hj'
  | wait hj' =>
      refine ⟨fun x hx => ?_, nofun⟩
      rw [Maps.pushed_queue, Bpf.QueueMap.items_push] at hx
      split at hx
      · rcases List.mem_append.mp hx with hx | hx
        · exact hq x hx
        · rw [List.mem_singleton.mp hx]
          exact hj hj'
      · exact hq x hx

/-! ### What every step keeps -/

namespace Server
variable {raises raises' : Nat → Bool} {s s' : Server} {e : ServerEvent}

theorem fits_fresh : fresh.Fits raises :=
  ⟨fun _ => ⟨rfl, fun h => by rcases h with h | h <;> cases h⟩, by simp [fresh]⟩

/-- A thread that has yet to read `data, address` reads what fits. -/
theorem Fits.datagram_of_mem (h : s.Fits raises) {w : Worker} (hw : w ∈ s.workers) :
    raises (fromBytes s.datagram.data) = false := by
  by_contra hr
  have hnone := (h.datagram (Bool.not_eq_false _ ▸ hr)).1
  rw [hnone] at hw
  cases hw

theorem Move.fits (h : s.Fits raises)
    (hr : ∀ d, e = .recvfrom d → raises (fromBytes (d.data.take 8)) = false)
    (hmv : s.Move raises' e s') : s'.Fits raises := by
  cases hmv with
  | deaf | waiting | gone => exact h
  | receive d =>
      refine ⟨fun hd => ?_, h.workers⟩
      rw [show raises _ = false from hr d rfl] at hd
      cases hd
  | hello | busy | skip =>
      refine ⟨fun hd => ⟨(h.datagram hd).1, fun hh => ?_⟩, h.workers⟩
      rcases hh with hh | hh <;> cases hh
  | accept hpc => exact ⟨fun hd => absurd (.inl hpc) (h.datagram hd).2, h.workers⟩
  | spawn hpc =>
      refine ⟨fun hd => absurd (.inr hpc) (h.datagram hd).2, fun w hw => ?_⟩
      rcases List.mem_append.mp hw with hw | hw
      · exact h.workers w hw
      · rw [List.mem_singleton.mp hw]
        exact fun _ hd => by cases hd
  | work i hi ha =>
      have hmem := List.mem_of_getElem? hi
      have hdata := h.datagram_of_mem hmem
      refine ⟨fun hd => ?_, fun w hw d hd => ?_⟩
      · rw [show raises _ = false from hdata] at hd
        cases hd
      · rcases List.mem_or_eq_of_mem_set hw with hw | rfl
        · exact h.workers w hw d hd
        · -- a worker passes what it had, or what `data, address` hold
          rw [ha.passed] at hd
          rcases List.mem_append.mp hd with hd | hd
          · exact h.workers _ hmem d hd
          · split at hd
            · rw [List.mem_singleton.mp hd]
              exact hdata
            · cases hd

theorem Acts.move {o : Option U8} (ha : s.Acts s' o) :
    ∃ e, (∀ d, e ≠ .recvfrom d) ∧ s.Move (fun _ => false) e s' := by
  rcases ha with hm | ⟨i, hw⟩
  · have hmv := s.next_move (fun _ => false) .main
    rw [next, hm] at hmv
    refine ⟨.main, fun d h => ?_, hmv⟩
    cases h
  · have hmv := s.next_move (fun _ => false) (.work i)
    rw [next, hw] at hmv
    refine ⟨.work i, fun d h => ?_, hmv⟩
    cases h

theorem Acts.fits {o : Option U8} (ha : s.Acts s' o) (h : s.Fits raises) : s'.Fits raises := by
  obtain ⟨e, he, hmv⟩ := ha.move
  exact hmv.fits h fun d hd => absurd hd (he d)

theorem recvfrom_fits {d : Datagram} (h : s.Fits raises)
    (hd : raises (fromBytes (d.data.take 8)) = false) (hr : s.recvfrom d = some s') :
    s'.Fits raises := by
  have hmv := s.next_move (fun _ => false) (.recvfrom d)
  rw [next, hr] at hmv
  exact hmv.fits h fun d' e => ServerEvent.recvfrom.inj e ▸ hd

/-- No sleep of such a process raises. -/
theorem Fits.work_eq (h : s.Fits raises) (i : Nat) :
    s.work raises i = s.work (fun _ => false) i := by
  rw [work, work]
  cases hi : s.workers[i]? with
  | none => rfl
  | some w =>
      cases w with
      | sleeping d =>
          have hd := h.workers _ (List.mem_of_getElem? hi) d (by simp [Worker.passed])
          simp only [hd]
      | started | called | slept | summed | released | ended | failed => rfl

end Server

section
variable {raises : Nat → Bool} {s s' : System D} {e : Event D}

theorem System.Fits.setServer (h : s.Fits raises) (g : Fin D.hosts) {o : Option Server}
    (ho : ∀ srv, o = some srv → srv.Fits raises) : (s.setServer g o).Fits raises where
  queue := h.queue
  jobs := h.jobs
  dispatched := h.dispatched
  servers j srv hj := by
    rw [System.server_setServer] at hj
    split at hj
    · exact ho srv hj
    · exact h.servers j srv hj

/-- No message is new. -/
theorem System.Fits.net (h : s.Fits raises) {net : Multiset (Msg D)}
    (hj : ∀ j, .job j ∈ net → .job j ∈ s.net) (hd : ∀ f, .dispatch f ∈ net → .dispatch f ∈ s.net) :
    ({ s with net } : System D).Fits raises where
  queue := h.queue
  jobs j hm := h.jobs j (hj j hm)
  dispatched f hm := h.dispatched f (hd f hm)
  servers := h.servers

theorem System.Fits.send_ping (h : s.Fits raises) (p : Ping D) : (s.send (.ping p)).Fits raises :=
  h.net (fun _ hm => (Multiset.mem_cons.mp hm).resolve_left nofun)
    fun _ hm => (Multiset.mem_cons.mp hm).resolve_left nofun

theorem System.Fits.take (h : s.Fits raises) (m : Msg D) : (s.take m).Fits raises :=
  h.net (fun _ => Multiset.mem_of_mem_erase) fun _ => Multiset.mem_of_mem_erase

theorem System.Fits.balanced (h : s.Fits raises) (hb : CreditBound s.maps) {m : Msg D} {f : Frame}
    (hm : m ∈ s.net) (hf : m.toBalancer = some f) (tail : Option (Vector U8 7)) :
    (s.balanced m (loadBalancer tail s.maps f)).Fits raises := by
  have hjob : IsJob f.bytes → raises (jobValue (payload64 f.bytes)) = false := by
    intro hj
    cases m with
    | job j =>
        cases hf
        exact h.jobs j hm
    | ping p =>
        cases hf
        exact absurd hj p.isPing.not_isJob
    | dispatch => cases hf
  obtain ⟨hq, htx⟩ := (loadBalancer_move tail f hb).jobs_of h.queue hjob
  constructor
  · rw [System.balanced_maps]
    exact hq
  · intro j hj
    rw [System.balanced] at hj
    split at hj
    · rcases Multiset.mem_cons.mp hj with e | hj
      · cases e
      · exact h.jobs j (Multiset.mem_of_mem_erase hj)
    · exact h.jobs j (Multiset.mem_of_mem_erase hj)
  · intro g hg
    rw [System.balanced] at hg
    split at hg
    · rename_i hv
      rcases Multiset.mem_cons.mp hg with e | hg
      · rw [Msg.dispatch.inj e]
        exact htx hv
      · exact h.dispatched g (Multiset.mem_of_mem_erase hg)
    · exact h.dispatched g (Multiset.mem_of_mem_erase hg)
  · rw [System.balanced_server]
    exact h.servers

theorem System.Fits.change (h : s.Fits raises) (hb : CreditBound s.maps)
    (hw : ∀ f, .dispatch f ∈ s.net → f.length = 50) (he : e.Fits raises)
    (hc : Change s e s') : s'.Fits raises := by
  cases hc with
  | idle => exact h
  | client j =>
      refine ⟨h.queue, fun j' hj => ?_, fun f hf => ?_, h.servers⟩
      · rcases Multiset.mem_cons.mp hj with e | hj
        · cases e
          exact he
        · exact h.jobs j' hj
      · rcases Multiset.mem_cons.mp hf with e | hf
        · cases e
        · exact h.dispatched f hf
  | start g =>
      have hset := h.setServer g (o := some .fresh) fun _ e =>
        Option.some.inj e ▸ Server.fits_fresh
      exact ⟨hset.queue, hset.jobs, hset.dispatched, hset.servers⟩
  | quiet e g srv srv' hsrv ha =>
      exact h.setServer g fun _ e => Option.some.inj e ▸ ha.fits (h.servers g srv hsrv)
  | sent e p srv srv' hg hsrv ha =>
      have hset := h.setServer p.host (o := some srv') fun _ e =>
        Option.some.inj e ▸ ha.fits (h.servers p.host srv hsrv)
      exact hset.send_ping p
  | receive g f srv srv' hm hf hsrv hr =>
      have hfit : raises (fromBytes ((System.datagramOf f).data.take 8)) = false := by
        rw [fromBytes_datagramOf (hw f hm)]
        exact h.dispatched f hm
      have hset := h.setServer g (o := some srv') fun _ e =>
        Option.some.inj e ▸ Server.recvfrom_fits (h.servers g srv hsrv) hfit hr
      exact hset.take _
  | balance m f tail hf hm => exact h.balanced hb hm hf (some tail)
  | die g => exact h.setServer g nofun
  | reload => exact ⟨fun _ hv => absurd hv List.not_mem_nil, h.jobs, h.dispatched, h.servers⟩

/-- Where everything fits the deployment steps as the system does. -/
theorem System.Fits.step_eq (h : s.Fits raises) (e : Event D) :
    s.stepRaising raises e = s.step e := by
  cases e with
  | work g i f =>
      cases hs : s.server g with
      | none => simp only [stepRaising, step, hs, Option.bind_none]
      | some srv =>
          simp only [stepRaising, step, hs, Option.bind_some, (h.servers g srv hs).work_eq i]
  | client | start | main | receive | balance | die | reload => rfl

/-- And so does a run in which clients send jobs that fit. -/
theorem System.Fits.after (h : s.Fits raises) (hs : Sound s) {es : List (Event D)}
    (hf : ∀ e ∈ es, e.Fits raises) :
    (deployment raises D).after s es = (protocol D).after s es ∧
      ((protocol D).after s es).Fits raises := by
  induction es generalizing s with
  | nil => exact ⟨rfl, h⟩
  | cons e es ih =>
      have hc := protocol_change s e
      have hstep : (deployment raises D).step s e = (protocol D).step s e := h.step_eq e
      rw [Machine.after_cons, Machine.after_cons, hstep]
      have hfits := h.change hs.bound hs.whole (hf e (by simp)) hc
      exact ih hfits (hs.change hc) fun e he => hf e (by simp [he])

end

theorem fits_initial (raises : Nat → Bool) : (System.initial : System D).Fits raises where
  queue _ hv := absurd hv List.not_mem_nil
  jobs j hj := absurd hj (Multiset.notMem_zero _)
  dispatched f hf := absurd hf (Multiset.notMem_zero _)
  servers _ _ h := by cases h

end EbpfLb
