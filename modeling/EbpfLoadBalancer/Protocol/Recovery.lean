import EbpfLoadBalancer.Protocol.Fitting
import Mathlib.Algebra.BigOperators.Group.Finset.Basic

/-!
# Protocol — the credits come back

From every state of the system, as long as no process dies and the balancer is not reloaded, the
work already there can be finished without any more from the clients: the jobs in flight are
received, the workers run to their end, their `'D'`s reach the balancer, and the jobs those take off
the queue do the same (`Undisturbed.exists_settled`).  Every step of that brings some job closer to
its completion (`System.weight`).  Once nothing of a host is outstanding all its credits are back.

In the deployment this needs that the jobs' values fit the clock (`slots_given_back`).  A job whose
sleep raises takes a slot of its server and a credit of the balancer that never come back, so five
of them are all it takes (`longest_jobs_use_up_server`).
-/

namespace EbpfLb

variable {D : Deployment}

/-! ### What is left to do

A job weighs as much as the steps between it and its completion: ten while it waits or is in
flight, and one less for each step its server takes. -/

def Msg.weight : Msg D → Nat
  | job _ => 0
  | ping _ => 1
  | dispatch _ => 10

def MainPc.weight : MainPc → Nat
  | check => 9
  | spawn => 8
  | boot | recvfrom => 0

def Worker.weight : Worker → Nat
  | started => 7
  | called _ => 6
  | sleeping _ => 5
  | slept _ => 4
  | summed _ => 3
  | released _ => 2
  | ended _ | failed _ => 0

def Server.weight (s : Server) : Nat := s.pc.weight + (s.workers.map Worker.weight).sum

/-- The weight of the process at a host, if there is one. -/
def processWeight (o : Option Server) : Nat := o.elim 0 Server.weight

def System.weight (s : System D) : Nat :=
  10 * s.maps.queue.items.length + (s.net.map Msg.weight).sum +
    ∑ h, processWeight (s.server h)

namespace System
variable (s : System D)

theorem weight_setServer (g : Fin D.hosts) (o : Option Server) :
    (s.setServer g o).weight + processWeight (s.server g) = s.weight + processWeight o := by
  have hsum : ∀ t : System D, processWeight (t.server g) +
      ∑ h ∈ Finset.univ.erase g, processWeight (t.server h) = ∑ h, processWeight (t.server h) :=
    fun t => Finset.add_sum_erase _ (fun h => processWeight (t.server h)) (Finset.mem_univ g)
  have hrest : ∑ h ∈ Finset.univ.erase g, processWeight ((s.setServer g o).server h) =
      ∑ h ∈ Finset.univ.erase g, processWeight (s.server h) := by
    refine Finset.sum_congr rfl fun h hh => ?_
    rw [server_setServer, if_neg (Finset.ne_of_mem_erase hh)]
  have hnew := hsum (s.setServer g o)
  have hold := hsum s
  rw [hrest, server_setServer, if_pos rfl] at hnew
  have hw : (s.setServer g o).weight = 10 * s.maps.queue.items.length +
      (s.net.map Msg.weight).sum + ∑ h, processWeight ((s.setServer g o).server h) := rfl
  rw [hw, weight]
  omega

theorem weight_send (m : Msg D) : (s.send m).weight = s.weight + m.weight := by
  simp only [weight, send, Multiset.map_cons, Multiset.sum_cons]
  omega

theorem weight_take {m : Msg D} (hm : m ∈ s.net) : (s.take m).weight + m.weight = s.weight := by
  have hsum := congrArg (fun n => (n.map Msg.weight).sum) (Multiset.cons_erase hm)
  simp only [Multiset.map_cons, Multiset.sum_cons] at hsum
  simp only [weight, take, ← hsum]
  omega

end System

/-! ### There is always a step to take -/

namespace Server
variable {s : Server}

/-- The main thread is done with the job it has in its hands. -/
theorem main_progress (h : s.Handling) : ∃ s', s.main = some (s', none) ∧ s'.weight < s.weight := by
  rcases h with hpc | hpc
  · by_cases hn : s.nThreads ≥ 5
    · refine ⟨{ s with pc := .recvfrom }, by simp [main, hpc, hn], ?_⟩
      simp [weight, hpc, MainPc.weight]
    · refine ⟨{ s with pc := .spawn }, by simp [main, hpc, hn], ?_⟩
      simp [weight, hpc, MainPc.weight]
  · by_cases hd : s.datagram.data = []
    · refine ⟨{ s with pc := .recvfrom }, by simp [main, hpc, hd], ?_⟩
      simp [weight, hpc, MainPc.weight]
    · refine ⟨{ s with pc := .recvfrom, workers := s.workers ++ [.started] },
        by simp [main, hpc, hd], ?_⟩
      simp only [weight, hpc, MainPc.weight, List.map_append, List.sum_append, List.map_singleton,
        List.sum_singleton, Worker.weight]
      omega

/-- And a worker that has not sent its `'D'` gets closer to it, or sends it. -/
theorem work_progress {i : Nat} {w : Worker} (hi : s.workers[i]? = some w)
    (hu : w.unanswered = true) :
    ∃ s' o, s.work (fun _ => false) i = some (s', o) ∧
      (o = none ∧ s'.weight < s.weight ∨ o = some byteD ∧ s'.weight + 1 < s.weight) := by
  have hset : ∀ w' (s' : Server), s'.pc = s.pc → s'.workers = s.workers.set i w' →
      s'.weight + w.weight = s.weight + w'.weight := by
    intro w' s' hpc hws
    have hsum := List.sum_map_replaced Worker.weight hi w'
    rw [weight, weight, hpc, hws]
    omega
  have hquiet : ∀ w' (s' : Server), s.work (fun _ => false) i = some (s', none) → s'.pc = s.pc →
      s'.workers = s.workers.set i w' → w'.weight < w.weight →
      ∃ s' o, s.work (fun _ => false) i = some (s', o) ∧
        (o = none ∧ s'.weight < s.weight ∨ o = some byteD ∧ s'.weight + 1 < s.weight) := by
    intro w' s' hwork hpc hws hw
    have := hset w' s' hpc hws
    exact ⟨s', none, hwork, .inl ⟨rfl, by omega⟩⟩
  cases w with
  | started =>
      exact hquiet _ (s.setWorker i (.called s.datagram)) (by rw [work, hi]) rfl rfl
        (by simp [Worker.weight])
  | called d =>
      exact hquiet _ { s.setWorker i (.sleeping d) with nThreads := s.nThreads + 1 }
        (by rw [work, hi]) rfl rfl (by simp [Worker.weight])
  | sleeping d =>
      exact hquiet _ (s.setWorker i (.slept d))
        (by rw [work, hi]; exact if_neg Bool.false_ne_true) rfl rfl (by simp [Worker.weight])
  | slept d =>
      exact hquiet _ { s.setWorker i (.summed d) with
        totalSleepTime := s.totalSleepTime + fromBytes d.data }
        (by rw [work, hi]) rfl rfl (by simp [Worker.weight])
  | summed d =>
      exact hquiet _ { s.setWorker i (.released d) with nThreads := s.nThreads - 1 }
        (by rw [work, hi]) rfl rfl (by simp [Worker.weight])
  | released d =>
      have hended := hset (.ended d) (s.setWorker i (.ended d)) rfl rfl
      simp only [Worker.weight] at hended
      exact ⟨_, some byteD, by rw [work, hi], .inr ⟨rfl, by omega⟩⟩
  | ended | failed => cases hu

end Server

/-- No client sends, no process dies and the balancer is not reloaded. -/
def Event.Internal : Event D → Prop
  | client _ | die _ | reload => False
  | _ => True

theorem Event.Internal.basic {e : Event D} (h : e.Internal) : e.Basic := by
  cases e with
  | client | start | main | work | receive | balance => trivial
  | die | reload => exact h.elim

/-- A ping takes nothing off the queue but the job it sends on. -/
theorem Move.length_queue {bs : Vector U8 7} {m : Maps} {f : Frame} {o : Outcome}
    (hmv : Move (some bs) m f o) (hp : IsPing f.bytes) :
    o.maps.queue.items.length + (if o.verdict = .tx then 1 else 0) = m.queue.items.length := by
  cases hmv with
  | other hp' => exact absurd hp hp'
  | refuse | register | done => simp
  | drain _ _ _ _ _ _ _ _ hq => simp [hq]
  | stuck _ _ _ _ _ ht => cases ht
  | send _ hj | wait hj => exact absurd hj hp.not_isJob

namespace System
variable {s : System D} {g : Fin D.hosts}

theorem weight_balanced {p : Ping D} (hm : .ping p ∈ s.net) {o : Outcome}
    (hq : o.maps.queue.items.length + (if o.verdict = .tx then 1 else 0) =
      s.maps.queue.items.length) : (s.balanced (.ping p) o).weight + 1 = s.weight := by
  have htake : (s.take (.ping p)).weight + 1 = s.weight := s.weight_take hm
  have hmaps : { s.take (.ping p) with maps := o.maps }.weight +
      10 * s.maps.queue.items.length =
        (s.take (.ping p)).weight + 10 * o.maps.queue.items.length := by
    simp only [weight, take]
    omega
  rw [balanced]
  split
  · rename_i hv
    rw [if_pos hv] at hq
    rw [weight_send, Msg.weight]
    omega
  · rename_i hv
    rw [if_neg hv] at hq
    omega

/-- A process that holds a job has a step to take on one. -/
theorem held_progress {srv : Server} (hs : s.server g = some srv) (hh : srv.held ≠ 0) :
    ∃ e, e.Internal ∧ ((protocol D).step s e).weight < s.weight := by
  have hset : ∀ srv', (s.setServer g (some srv')).weight + srv.weight =
      s.weight + srv'.weight := by
    intro srv'
    have hw := s.weight_setServer g (some srv')
    rwa [hs] at hw
  by_cases hd : srv.Handling
  · obtain ⟨srv', hm, hlt⟩ := Server.main_progress hd
    refine ⟨.main g (pingOf byteD (D.addr g)), trivial, ?_⟩
    have hstep : (protocol D).step s (.main g (pingOf byteD (D.addr g))) =
        s.setServer g (some srv') := by
      show s.acted g _ ((s.server g).bind Server.main) = _
      rw [hs, Option.bind_some, hm, acted]
    have := hset srv'
    rw [hstep]
    omega
  · have hpos : 0 < srv.workers.countP Worker.unanswered := by
      rw [Server.held, if_neg hd] at hh
      omega
    obtain ⟨w, hmem, hu⟩ := List.countP_pos_iff.mp hpos
    obtain ⟨i, hi⟩ := List.mem_iff_getElem?.mp hmem
    obtain ⟨srv', o, hw, ho⟩ := Server.work_progress hi hu
    refine ⟨.work g i (pingOf byteD (D.addr g)), trivial, ?_⟩
    have hstep : (protocol D).step s (.work g i (pingOf byteD (D.addr g))) =
        s.acted g (pingOf byteD (D.addr g)) (some (srv', o)) := by
      show s.acted g _ ((s.server g).bind fun srv => srv.work (fun _ => false) i) = _
      rw [hs, Option.bind_some, hw]
    have := hset srv'
    rw [hstep]
    rcases ho with ⟨rfl, hlt⟩ | ⟨rfl, hlt⟩
    · rw [acted]
      omega
    · rw [acted, dif_pos ⟨isPing_pingOf _ _, ipSaddr_pingOf _ _, byte_pingOf _ _⟩, weight_send,
        Msg.weight]
      omega

/-- A job in flight to a process in `recvfrom` can be received. -/
theorem inFlight_progress {srv : Server} (hs : s.server g = some srv) (hpc : srv.pc = .recvfrom)
    (hin : s.inFlight g ≠ 0) :
    ∃ e, e.Internal ∧ ((protocol D).step s e).weight < s.weight := by
  obtain ⟨m, hm, hto⟩ := Multiset.countP_pos.mp (Nat.pos_of_ne_zero hin)
  cases m with
  | job | ping => cases hto
  | dispatch f =>
      have hf : ipDaddr f = D.addr g := by simpa using hto
      obtain ⟨srv', hr, hw⟩ : ∃ srv', srv.recvfrom (datagramOf f) = some srv' ∧
          srv'.weight = srv.weight + 9 := by
        refine ⟨_, if_pos hpc, ?_⟩
        simp only [Server.weight, hpc, MainPc.weight]
        omega
      refine ⟨.receive g f, trivial, ?_⟩
      have hstep : (protocol D).step s (.receive g f) =
          (s.setServer g (some srv')).take (.dispatch f) := by
        show (if .dispatch f ∈ s.net ∧ ipDaddr f = D.addr g then _ else s) = _
        rw [if_pos ⟨hm, hf⟩, hs, Option.bind_some, hr]
      have hset := s.weight_setServer g (some srv')
      have htake := (s.setServer g (some srv')).weight_take (m := .dispatch f) hm
      simp only [hs, processWeight, Option.elim, Msg.weight] at hset htake
      rw [hstep]
      omega

/-- A `'D'` in flight can reach the balancer. -/
theorem answers_progress (hb : CreditBound s.maps) (ha : s.answers g ≠ 0) :
    ∃ e, e.Internal ∧ ((protocol D).step s e).weight < s.weight := by
  obtain ⟨m, hm, hof⟩ := Multiset.countP_pos.mp (Nat.pos_of_ne_zero ha)
  cases m with
  | job | dispatch => cases hof
  | ping p =>
      have hmv := loadBalancer_move (some (Vector.replicate 7 0#8)) p.frame hb
      have hstep : (protocol D).step s (.balance (.ping p) (Vector.replicate 7 0#8)) =
          s.balanced (.ping p) (loadBalancer (some (Vector.replicate 7 0#8)) s.maps p.frame) :=
        if_pos hm
      have hw := weight_balanced hm (hmv.length_queue p.isPing)
      refine ⟨.balance (.ping p) (Vector.replicate 7 0#8), trivial, ?_⟩
      rw [hstep]
      omega

end System

/-! ### So the work ends -/

/-- Nothing of a registered host is outstanding. -/
def System.Settled (s : System D) : Prop :=
  ∀ (k : Slot) (g : Fin D.hosts), (s.maps.servers k).saddr = D.addr g →
    s.inFlight g = 0 ∧ s.held g = 0 ∧ s.answers g = 0

section
variable {s : System D}

/-- As long as something of a registered host is outstanding there is a step that brings a job
closer to its completion. -/
theorem Undisturbed.progress (h : Undisturbed s) (hn : ¬ s.Settled) :
    ∃ e, e.Internal ∧ ((protocol D).step s e).weight < s.weight := by
  obtain ⟨hs, a, ha, hf⟩ := h
  simp only [System.Settled, not_forall] at hn
  obtain ⟨k, g, hk, hn⟩ := hn
  cases hserver : s.server g with
  | none => exact absurd ⟨k, hk⟩ (hf.absent g hserver).1
  | some srv =>
      by_cases hh : srv.held = 0
      · have hheld : s.held g = 0 := (held_of_server hserver).trans hh
        by_cases hin : s.inFlight g = 0
        · exact System.answers_progress hs.bound fun hans => hn ⟨hin, hheld, hans⟩
        · -- its `'S'` is sent and its main thread has no job: it is in `recvfrom`
          have hpend : srv.pending = 0 := by
            have hp := (hf.settled ha hk).2
            rwa [System.pending, hserver] at hp
          have hpc : srv.pc = .recvfrom := by
            cases hpc : srv.pc with
            | recvfrom => rfl
            | boot => simp [Server.pending, hpc] at hpend
            | check | spawn => simp [Server.held, Server.Handling, hpc] at hh
          exact System.inFlight_progress hserver hpc hin
      · exact System.held_progress hserver hh

/-- **What is there can be finished**, without any more from the clients. -/
theorem Undisturbed.exists_settled (h : Undisturbed s) :
    ∃ es, (∀ e ∈ es, e.Internal) ∧ Undisturbed ((protocol D).after s es) ∧
      ((protocol D).after s es).Settled :=
  (protocol D).exists_after_of_decreasing System.weight
    (fun _ h hn => by
      obtain ⟨e, he, hlt⟩ := h.progress hn
      exact ⟨e, he, h.step he.basic, hlt⟩) h

end

/-! ### The deployment -/

/-- After the run on `es` the work that is there can be finished without another job, and then
every registered host has all its credits. -/
def CreditsGivenBack (raises : Nat → Bool) (es : List (Event D)) : Prop :=
  ∃ es', (∀ e ∈ es', e.Internal) ∧ ∀ (k : Slot) (h : Fin D.hosts),
    (((deployment raises D).after .initial es).maps.servers k).saddr = D.addr h →
      (((deployment raises D).after .initial (es ++ es')).maps.servers k).saddr = D.addr h ∧
        (((deployment raises D).after .initial (es ++ es')).maps.servers k).freeThreads =
          maxThreads

section
variable {raises : Nat → Bool} {es : List (Event D)}

theorem Event.Internal.fits {e : Event D} (h : e.Internal) : e.Fits raises := by
  cases e with
  | client => exact h.elim
  | start | main | work | receive | balance | die | reload => trivial

/-- When no client sends a job that is too long a sleep, the credits come back. -/
theorem creditsGivenBack_of_fits (h : ∀ e ∈ es, e.Basic ∧ e.Fits raises) :
    CreditsGivenBack raises es := by
  have hb : ∀ e ∈ es, e.Basic := fun e he => (h e he).1
  have hf : ∀ e ∈ es, e.Fits raises := fun e he => (h e he).2
  have hnow := ((fits_initial raises).after (D := D) sound_initial hf).1
  obtain ⟨es', hes', ⟨-, a, ha, hfirst⟩, hset⟩ := (basic_after hb).exists_settled
  have hall : ∀ e ∈ es ++ es', e.Fits raises :=
    List.forall_mem_append.mpr ⟨hf, fun e he => (hes' e he).fits⟩
  have hthen := ((fits_initial raises).after (D := D) sound_initial hall).1
  refine ⟨es', hes', fun k g hk => ?_⟩
  rw [hthen, Machine.after_append]
  rw [hnow] at hk
  have hk' := saddr_after (basic_after hb).1 (fun e he => (hes' e he).basic) hk
  obtain ⟨hin, hh, hans⟩ := hset k g hk'
  have hcredits := (hfirst.settled ha hk').1
  exact ⟨hk', BitVec.eq_of_toNat_eq (by omega)⟩

/-- After one failure they do not. -/
theorem not_creditsGivenBack (hb : ∀ e ∈ es, e.Basic) {k : Slot} {g : Fin D.hosts}
    (hk : (((deployment raises D).after .initial es).maps.servers k).saddr = D.addr g)
    (hf : 0 < ((deployment raises D).after .initial es).failures g) :
    ¬ CreditsGivenBack raises es := by
  rintro ⟨es', hes', hback⟩
  have hle := credits_lost hb (fun e he => (hes' e he).basic) hk
  rw [(hback k g hk).2] at hle
  omega

end

/-- Whether `n` seconds overflow a clock that counts nanoseconds in 64 bits, so that `time.sleep(n)`
raises `OverflowError`.  It is one instance of what may raise: the results hold for any. -/
def sleepOverflows (n : Nat) : Bool := decide (2 ^ 63 ≤ n * 10 ^ 9)

/-- **Slots and credits are given back as long as no sleep raises.**  A server gives every slot back
throughout a run if and only if no worker of the run enters `time.sleep` with a duration for which
it raises.  In the deployment, while no process dies and the balancer is not reloaded, the credits
come back when no client sends a job with such a value. -/
theorem slots_given_back (raises : Nat → Bool) :
    (∀ es, (∀ pre post, es = pre ++ post → SlotsGivenBack raises pre) ↔
      (server raises).Along (Server.SleepsFit raises) Server.fresh es) ∧
    ∀ (D : Deployment) (es : List (Event D)), (∀ e ∈ es, e.Basic ∧ e.Fits raises) →
      CreditsGivenBack raises es :=
  ⟨fun _ => slotsGivenBack_iff, fun _ _ => creditsGivenBack_of_fits⟩

/-- A server that starts, receives the datagram `d` and takes `n` steps of its worker. -/
def serve (d : Datagram) (n : Nat) : List ServerEvent :=
  [.main, .recvfrom d, .main, .main] ++ List.replicate n (.work 0)

/-- The datagram of `fourSeconds` at its server. -/
def fourSecondsDatagram : Datagram :=
  System.datagramOf (rewrite (newInfo (pingOf byteS 1#32).bytes) fourSeconds.frame.bytes)

theorem slots_given_back_oneJob :
    (∀ pre post, serve fourSecondsDatagram 6 = pre ++ post →
      SlotsGivenBack sleepOverflows pre) ∧ CreditsGivenBack sleepOverflows oneJob := by
  have hfit : (server sleepOverflows).Along (Server.SleepsFit sleepOverflows) Server.fresh
      (serve fourSecondsDatagram 6) := by
    refine ⟨trivial, trivial, trivial, trivial, ?_, fun d hd => ?_, ?_, ?_, ?_, ?_, trivial⟩
    -- the worker enters its sleep in its second step
    case refine_2 =>
      cases hd
      decide +kernel
    all_goals
      intro d hd
      cases hd
  exact ⟨((slots_given_back sleepOverflows).1 _).mpr hfit,
    (slots_given_back sleepOverflows).2 oneHost oneJob (by decide +kernel)⟩

/-! ### A job of 2^64 - 1 seconds -/

/-- One more is sent to the server, whose worker `i` takes it and fails. -/
def sendLongest (i : Nat) : List (Event oneHost) :=
  [.client longestJob, .balance (.job longestJob) zeros, .receive host longestDispatch] ++
    List.replicate 2 (.main host (pingOf byteD 1#32)) ++
    List.replicate 3 (.work host i (pingOf byteD 1#32))

/-- A server is registered, and sent five of them. -/
def fiveLongest : List (Event oneHost) :=
  [.start host, .main host (pingOf byteS 1#32), .balance (.ping (pingAt 1 byteS)) zeros] ++
    (List.range 5).flatMap sendLongest

theorem basic_fiveLongest : ∀ e ∈ fiveLongest, e.Basic := by decide +kernel

theorem registered_fiveLongest :
    (((deployment sleepOverflows oneHost).after .initial fiveLongest).maps.servers 0).saddr =
      oneHost.addr host := by decide +kernel

theorem server_fiveLongest :
    ((deployment sleepOverflows oneHost).after .initial fiveLongest).server host =
      some ⟨.recvfrom, System.datagramOf longestDispatch, 5, 0,
        List.replicate 5 (.failed (System.datagramOf longestDispatch))⟩ := by decide +kernel

theorem failures_fiveLongest :
    ((deployment sleepOverflows oneHost).after .initial fiveLongest).failures host = 5 := by
  rw [System.failures, server_fiveLongest]
  rfl

/-- The thread of the longest job ends with its increment not undone and no `'D'` sent.  Five of
them, and the server has no slot and the balancer no credit for it, whatever happens next. -/
theorem longest_jobs_use_up_server :
    (¬ ∀ es, SlotsGivenBack sleepOverflows es) ∧
    (¬ ∀ (D : Deployment) (es : List (Event D)), (∀ e ∈ es, e.Basic) →
      CreditsGivenBack sleepOverflows es) ∧
    ∀ es, (∀ e ∈ es, e.Basic) →
      (((deployment sleepOverflows oneHost).after .initial (fiveLongest ++ es)).maps.servers
        0).freeThreads = 0#16 ∧
      ∃ srv, ((deployment sleepOverflows oneHost).after .initial (fiveLongest ++ es)).server host =
        some srv ∧ 5 ≤ srv.nThreads := by
  refine ⟨fun h => ?_, fun h => ?_, fun es hb => ⟨?_, ?_⟩⟩
  · have hended := (h (serve (System.datagramOf longestDispatch) 3)).ended 0
      (.failed (System.datagramOf longestDispatch)) (by decide +kernel) rfl
    exact absurd hended.1 (by decide +kernel)
  · refine not_creditsGivenBack basic_fiveLongest registered_fiveLongest ?_
      (h oneHost fiveLongest basic_fiveLongest)
    rw [failures_fiveLongest]
    decide
  · have hle := credits_lost basic_fiveLongest hb registered_fiveLongest
    rw [failures_fiveLongest] at hle
    have h5 : maxThreads.toNat = 5 := rfl
    exact BitVec.eq_of_toNat_eq (by rw [BitVec.toNat_ofNat]; omega)
  · obtain ⟨srv, hs, hle⟩ := slots_lost sleepOverflows hb server_fiveLongest rfl
    rw [Machine.after_append]
    exact ⟨srv, hs, hle⟩

end EbpfLb
