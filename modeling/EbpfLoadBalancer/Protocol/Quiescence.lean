import EbpfLoadBalancer.Balancer.Places
import EbpfLoadBalancer.Protocol.Losses
import EbpfLoadBalancer.Protocol.Progress

/-!
# Protocol — the system at rest

At rest nothing is in flight, and every host has a process that waits in `recvfrom` with all its
workers over, by a return or by an exception (`quiescent_iff`): where a thread or the balancer could
go on there is less to do afterwards, and nothing that leaves less to do leaves the system as it is.

When no process has died, the balancer has not been reloaded and no message has been doubled, all
the credits are there but for those that a sleep that raised or a message dropped has cost
(`settled_at_rest`).
-/

namespace EbpfLb
open Bpf

variable {D : Deployment}

/-! ### At rest -/

/-- Without another job, death or reload nothing happens. -/
def System.Quiescent (s : System D) : Prop :=
  ∀ e : Event D, e.Internal → (protocol D).step s e = s

/-- What threads and the balancer do, as it goes well or wrong. -/
def FaultyEvent.Internal : FaultyEvent D → Prop
  | event e => e.Internal
  | raise .. | stuck _ => True
  | drop _ | duplicate _ => False

/-- Without another job, death or reload, and while the network keeps what it has, nothing
happens. -/
def Faulty.Quiescent (s : Faulty D) : Prop :=
  ∀ e : FaultyEvent D, e.Internal → (faulty D).step s e = s

theorem Faulty.Quiescent.system {s : Faulty D} (hq : s.Quiescent) : s.system.Quiescent :=
  fun e he => congrArg Faulty.system (hq (.event e) he)

/-- Every job in flight from the balancer is addressed to a host. -/
def System.Addressed (s : System D) : Prop :=
  ∀ f, .dispatch f ∈ s.net → ∃ g, ipDaddr f = D.addr g

section
variable {s : System D}

/-- The balancer sends to hosts only. -/
theorem Sound.addressed_tx (hs : Sound s.revived) {f : Frame} (tail : Option (Vector U8 7))
    (hv : (loadBalancer tail s.maps f).verdict = .tx) :
    ∃ g, ipDaddr (loadBalancer tail s.maps f).frame = D.addr g := by
  obtain ⟨j, info, r, hj, hid, hl, hr⟩ := (loadBalancer_move tail f hs.bound_revived).tx hv
  obtain ⟨g, hg⟩ := hs.hosts j hj
  have hg : (s.maps.servers j).saddr = D.addr g := hg
  exact ⟨g, by rw [hr, ipDaddr_rewrite (by omega), saddr_of_identity hid, hg]⟩

theorem System.Addressed.balanced (h : s.Addressed) (hs : Sound s.revived) (m : Msg D) (f : Frame)
    (tail : Option (Vector U8 7)) : (s.balanced m (loadBalancer tail s.maps f)).Addressed := by
  intro g hg
  rw [System.balanced] at hg
  split at hg
  · rename_i hv
    rcases Multiset.mem_cons.mp hg with e | hg
    · rw [Msg.dispatch.inj e]
      exact hs.addressed_tx tail hv
    · exact h g (Multiset.mem_of_mem_erase hg)
  · exact h g (Multiset.mem_of_mem_erase hg)

theorem System.Addressed.send (h : s.Addressed) {m : Msg D} (hm : ∀ f, m ≠ .dispatch f) :
    (s.send m).Addressed :=
  fun f hf => (Multiset.mem_cons.mp hf).elim (fun e => absurd e.symm (hm f)) (h f)

theorem System.Addressed.take (h : s.Addressed) (m : Msg D) : (s.take m).Addressed :=
  fun f hf => h f (Multiset.mem_of_mem_erase hf)

theorem System.Addressed.acted (ha : s.Addressed) (h : Fin D.hosts) (f : Frame)
    (r : Option (Server × Option U8)) : (s.acted h f r).Addressed := by
  match r with
  | none | some (_, none) => exact ha
  | some (srv, some b) =>
      rw [System.acted]
      split
      · refine System.Addressed.send (s := s.setServer h (some srv)) ha fun g e => ?_
        cases e
      · exact ha

theorem System.Addressed.stepFaulty (h : s.Addressed) (hs : Sound s.revived)
    (e : FaultyEvent D) : (s.stepFaulty e).Addressed := by
  cases e with
  | event e =>
      have hc : Change s e (s.stepFaulty (.event e)) := protocol_change s e
      generalize s.stepFaulty (.event e) = s' at hc ⊢
      cases hc with
      | idle | start | quiet | die | reload => exact h
      | client | sent => exact h.send nofun
      | receive g f => exact h.take _
      | balance m f tail => exact h.balanced hs m f (some tail)
  | raise g i f => exact h.acted g f _
  | stuck m =>
      rw [System.stepFaulty]
      split
      · exact h
      · split
        · exact h.balanced hs m _ none
        · exact h
  | drop m =>
      rw [System.stepFaulty]
      split
      · exact h.take m
      · exact h
  | duplicate m =>
      rw [System.stepFaulty]
      split
      · rename_i hm
        intro f hf
        rcases Multiset.mem_cons.mp hf with e | hf
        · exact h f (e ▸ hm)
        · exact h f hf
      · exact h

end

theorem addressed_after (es : List (FaultyEvent D)) :
    ((faulty D).after .initial es).system.Addressed :=
  ((faulty D).after_invariant (s := Faulty.initial)
    (P := fun s => Sound s.system.revived ∧ s.system.Addressed)
    ⟨sound_initial, fun _ hf => absurd hf (Multiset.notMem_zero _)⟩
    (fun _ e h => ⟨h.1.stepFaulty e, h.2.stepFaulty h.1 e⟩) es).2

namespace System
variable {s : System D}

/-- An event after which there is less to do changes the system. -/
theorem Quiescent.not_lt (hq : s.Quiescent) {e : Event D} (he : e.Internal) :
    ¬ ((protocol D).step s e).todo < s.todo := by
  rw [hq e he]
  exact Nat.lt_irrefl _

/-- A thread that steps leaves less to do. -/
theorem acted_todo {g : Fin D.hosts} {srv srv' : Server} {o : Option U8}
    (hs : s.server g = some srv) (ha : srv.Acts srv' o) :
    (s.acted g (pingOf (o.getD byteD) (D.addr g)) (some (srv', o))).todo < s.todo := by
  have hset := s.todo_setServer g (some srv')
  have hlt := ha.todo
  simp only [hs, hostTodo, Option.elim] at hset
  cases o with
  | none =>
      rw [acted]
      omega
  | some b =>
      rw [Option.toList_some, List.length_singleton] at hlt
      rw [acted, dif_pos ⟨isPing_pingOf _ _, ipSaddr_pingOf _ _, byte_pingOf _ _⟩, todo_send,
        Msg.todo]
      omega

/-- At rest no thread can step. -/
theorem Quiescent.not_acts (hq : s.Quiescent) {g : Fin D.hosts} {srv srv' : Server}
    {o : Option U8} (hs : s.server g = some srv) : ¬ srv.Acts srv' o := by
  intro ha
  have hlt := acted_todo hs ha
  rcases ha with hm | ⟨i, hw⟩
  · refine hq.not_lt (e := .main g (pingOf (o.getD byteD) (D.addr g))) trivial ?_
    have hstep : (protocol D).step s (.main g (pingOf (o.getD byteD) (D.addr g))) =
        s.acted g (pingOf (o.getD byteD) (D.addr g)) (some (srv', o)) := by
      show s.acted g _ ((s.server g).bind Server.main) = _
      rw [hs, Option.bind_some, hm]
    rwa [hstep]
  · refine hq.not_lt (e := .work g i (pingOf (o.getD byteD) (D.addr g))) trivial ?_
    have hstep : (protocol D).step s (.work g i (pingOf (o.getD byteD) (D.addr g))) =
        s.acted g (pingOf (o.getD byteD) (D.addr g)) (some (srv', o)) := by
      show s.acted g _ ((s.server g).bind fun srv => srv.work (fun _ => false) i) = _
      rw [hs, Option.bind_some, hw]
    rwa [hstep]

/-- At rest every host has a process, in `recvfrom` and with its workers done. -/
theorem Quiescent.process (hq : s.Quiescent) (g : Fin D.hosts) :
    ∃ srv, s.server g = some srv ∧ srv.pc = .recvfrom ∧ srv.Idle := by
  cases hs : s.server g with
  | none =>
      -- one could start
      have hgen := congrArg (fun t : System D => t.gen g) (hq (.start g) trivial)
      have hstep : (protocol D).step s (.start g) =
          { s.setServer g (some .fresh) with gen := Function.update s.gen g (s.gen g + 1) } := by
        show s.step (.start g) = _
        rw [step, hs]
      simp only [hstep, Function.update_self] at hgen
      omega
  | some srv =>
      refine ⟨srv, rfl, ?_, fun w hw => ?_⟩
      · by_contra hpc
        obtain ⟨r, hr⟩ : ∃ r, srv.main = some r := by
          rw [Server.main]
          cases hpc' : srv.pc with
          | boot => exact ⟨_, rfl⟩
          | recvfrom => exact absurd hpc' hpc
          | check | spawn => dsimp only; split <;> exact ⟨_, rfl⟩
        exact hq.not_acts hs (.inl hr)
      · by_contra hf
        obtain ⟨i, hi⟩ := List.mem_iff_getElem?.mp hw
        have hu : w.unanswered = true := by
          cases w with
          | ended | failed => exact absurd rfl hf
          | started | called | sleeping | slept | summed | released => rfl
        obtain ⟨srv', o, hwork, -⟩ := Server.work_progress hi hu
        exact hq.not_acts hs (.inr ⟨i, hwork⟩)

/-- At rest nothing is in flight. -/
theorem Quiescent.net (hq : s.Quiescent) (hb : CreditBound s.maps) (ha : s.Addressed) :
    s.net = 0 := by
  refine Multiset.eq_zero_of_forall_notMem fun m hm => ?_
  -- the balancer would run on a message to it
  have hbal : ∀ f, m.toBalancer = some f → False := by
    intro f hf
    have hstep : (protocol D).step s (.balance m (Vector.replicate 7 0#8)) =
        s.balanced m (loadBalancer (some (Vector.replicate 7 0#8)) s.maps f) := by
      show s.step (.balance m _) = _
      rw [step, hf]
      exact if_pos hm
    refine hq.not_lt (e := .balance m (Vector.replicate 7 0#8)) trivial ?_
    rw [hstep]
    exact balanced_todo hb hf hm _
  cases m with
  | job j => exact hbal _ rfl
  | ping p => exact hbal _ rfl
  | dispatch f =>
      -- and its host would receive a job
      obtain ⟨g, hg⟩ := ha f hm
      obtain ⟨srv, hsrv, hpc, -⟩ := hq.process g
      have hr : srv.recvfrom (datagramOf f) =
          some { srv with pc := .check, datagram := ⟨(datagramOf f).data.take 8,
            (datagramOf f).address⟩ } := if_pos hpc
      have hstep : (protocol D).step s (.receive g f) = (s.setServer g (some { srv with
          pc := .check, datagram := ⟨(datagramOf f).data.take 8, (datagramOf f).address⟩ })).take
            (.dispatch f) := by
        show (if .dispatch f ∈ s.net ∧ ipDaddr f = D.addr g then _ else s) = _
        rw [if_pos ⟨hm, hg⟩, hsrv, Option.bind_some, hr]
      refine hq.not_lt (e := .receive g f) trivial ?_
      rw [hstep]
      exact received_todo hm hsrv hr

/-- And with nothing in flight and nobody to step nothing happens. -/
theorem quiescent_of_idle (hn : s.net = 0)
    (hp : ∀ g, ∃ srv, s.server g = some srv ∧ srv.pc = .recvfrom ∧ srv.Idle) :
    s.Quiescent := by
  have hnet : ∀ m, m ∉ s.net := fun m => by rw [hn]; exact Multiset.notMem_zero m
  intro e he
  show s.step e = s
  cases e with
  | client | die | reload => exact he.elim
  | start g =>
      obtain ⟨srv, hs, -⟩ := hp g
      rw [step, hs]
  | main g f =>
      obtain ⟨srv, hs, hpc, -⟩ := hp g
      have hm : srv.main = none := by rw [Server.main, hpc]
      rw [step, hs, Option.bind_some, hm, acted]
  | work g i f =>
      obtain ⟨srv, hs, -, hidle⟩ := hp g
      have hw : srv.work (fun _ => false) i = none :=
        Server.work_eq_none fun w hw => hidle w (List.mem_of_getElem? hw)
      rw [step, hs, Option.bind_some, hw, acted]
  | receive g f => rw [step, if_neg fun h => hnet _ h.1]
  | balance m tail =>
      rw [step]
      split
      · rfl
      · rw [if_neg (hnet m)]

end System

theorem Faulty.quiescent_of_idle {s : Faulty D} (hn : s.system.net = 0)
    (hp : ∀ g, ∃ srv, s.system.server g = some srv ∧ srv.pc = .recvfrom ∧ srv.Idle) :
    s.Quiescent := by
  intro e he
  refine step_self ?_
  cases e with
  | event e => exact System.quiescent_of_idle hn hp e he
  | raise g i f =>
      obtain ⟨srv, hs, -, hidle⟩ := hp g
      have hw : srv.work (fun _ => true) i = none :=
        Server.work_eq_none fun w hw => hidle w (List.mem_of_getElem? hw)
      rw [System.stepFaulty, System.stepRaising, hs, Option.bind_some, hw, System.acted]
  | stuck m =>
      rw [System.stepFaulty]
      split
      · rfl
      · rw [if_neg (by rw [hn]; exact Multiset.notMem_zero m)]
  | drop | duplicate => exact he.elim

theorem net_at_rest {es : List (FaultyEvent D)}
    (hq : ((faulty D).after .initial es).Quiescent) :
    ((faulty D).after .initial es).system.net = 0 :=
  hq.system.net (sound_faulty es).bound_revived (addressed_after es)

/-- **At rest.**  Whatever has happened and gone wrong: threads and balancer have nothing more to do
exactly when no message is in flight and every host has a process that waits in `recvfrom` with all
its workers over. -/
theorem quiescent_iff (es : List (FaultyEvent D)) :
    ((faulty D).after .initial es).Quiescent ↔
      ((faulty D).after .initial es).system.net = 0 ∧
      ∀ g, ∃ srv, ((faulty D).after .initial es).system.server g = some srv ∧
        srv.pc = .recvfrom ∧ srv.Idle :=
  ⟨fun hq => ⟨net_at_rest hq, hq.system.process⟩, fun h => Faulty.quiescent_of_idle h.1 h.2⟩

/-! ### What the hosts have at rest -/

/-- A host with a process is registered, or its `'S'` is on its way. -/
def System.Heard (s : System D) : Prop :=
  ∀ g, s.server g ≠ none → Registered s.maps (D.addr g) ∨ 1 ≤ s.pings g + s.pending g

/-- A host's ping in flight, or its `'S'` to be sent, stays until it reaches the balancer. -/
theorem Account.Flow.heard {dies : Prop} {x y : Account} (h : Account.Flow dies x y)
    (hd : ¬ dies) (hy : y.absent = false) :
    x.absent = false ∧ x.pings + x.pending ≤ y.pings + y.pending ∨
      1 ≤ y.pings + y.pending := by
  cases h with
  | still => exact .inl ⟨hy, Nat.le_refl _⟩
  | start => exact .inr (Nat.le_add_left _ _)
  | receive | refuse => exact .inl ⟨rfl, Nat.le_refl _⟩
  | hello | answer => exact .inl ⟨rfl, by dsimp only; omega⟩
  | die h => exact absurd h hd

section
variable {s s' : System D} {e : Event D}

/-- A host that is not registered has a free slot to take. -/
theorem Sound.free_slot (hs : Sound s) {g : Fin D.hosts}
    (hr : ¬ Registered s.maps (D.addr g)) : ∃ k : Slot, (s.maps.servers k).saddr = 0#32 := by
  have hl := hs.registry.unknown (a := D.addr g) fun k hk => hr ⟨k, hk⟩
  have hroom := hs.registry.room hs.hosts hl
  refine ⟨⟨s.maps.ipToKey.size, hroom⟩, ?_⟩
  by_contra h₀
  exact Nat.lt_irrefl _ ((hs.registry.filled _).mp h₀)

/-- A ping leaves its host registered. -/
theorem Sound.registered_ping (hs : Sound s) (p : Ping D) (tail : Option (Vector U8 7)) :
    Registered (loadBalancer tail s.maps p.frame).maps (D.addr p.host) := by
  have hmv := loadBalancer_move tail p.frame hs.bound
  by_cases hr : Registered s.maps (D.addr p.host)
  · obtain ⟨k, hk⟩ := hr
    have hid := hmv.slot_of_registered (hk ▸ D.nonzero p.host : (s.maps.servers k).saddr ≠ 0#32)
    exact ⟨k, (saddr_of_identity hid).trans hk⟩
  · obtain ⟨k, h₀⟩ := hs.free_slot hr
    obtain ⟨j, -, hj, -⟩ := Move.takesPlace (i := ⟨p.frame, tail⟩) hs.registry p.isPing h₀
      (fun k hk => hr ⟨k, hk.trans p.source⟩) hmv
    exact ⟨j, hj.trans p.source⟩

theorem Booked.heard (hs : Sound s) (he : e.Basic) (h : s.Heard) (hb : Booked s e s') :
    s'.Heard := by
  cases hb with
  | flow hm hf =>
      intro g hg
      have hlives : ¬ e = .die g := by
        rintro rfl
        exact he
      have hy : (s'.account g).absent = false := by
        rw [System.account, ← Bool.not_eq_true, Option.isNone_iff_eq_none]
        exact hg
      rcases (hf g).heard hlives hy with ⟨hx, hle⟩ | hone
      · have hx' : s.server g ≠ none := fun hn => by simp [System.account, hn] at hx
        have hle : s.pings g + s.pending g ≤ s'.pings g + s'.pending g := hle
        rw [hm]
        exact (h g hx').imp_right fun h => h.trans hle
      · exact .inr hone
  | balance m f tail hf hm hs' =>
      subst hs'
      intro g hg
      rw [System.balanced_server] at hg
      rw [System.balanced_maps, pending_balanced]
      have hp := pings_balanced hm (loadBalancer tail s.maps f) g
      rcases h g hg with ⟨k, hk⟩ | hone
      · have hid := (loadBalancer_move tail f hs.bound).slot_of_registered
          (hk ▸ D.nonzero g : (s.maps.servers k).saddr ≠ 0#32)
        exact .inl ⟨k, (saddr_of_identity hid).trans hk⟩
      · cases hping : m.isPingOf g with
        | false =>
            rw [hping] at hp
            simp only [Bool.false_eq_true, if_false, Nat.add_zero] at hp
            exact .inr (hp ▸ hone)
        | true =>
            cases m with
            | ping p =>
                cases hf
                obtain rfl : p.host = g := by simpa using hping
                exact .inl (hs.registered_ping p tail)
            | job | dispatch => cases hping
  | reload hr =>
      subst hr
      exact he.elim

end

theorem heard_after {es : List (FaultyEvent D)} (hl : ∀ e ∈ es, e.Lossy) :
    ((faulty D).after .initial es).shadow.Heard :=
  (((faulty D).along_of_forall hl .initial).invariant
    (P := fun s => Sound s.shadow ∧ s.shadow.Heard)
    (fun s e h he => by
      obtain ⟨hs, e₀, hb, hbook⟩ := s.shadow_step he h.1
      exact ⟨hs, hbook.heard h.1 hb h.2⟩)
    ⟨sound_initial, fun _ hg => absurd rfl hg⟩).2

namespace Server
variable {s : Server}

/-- With every worker over nothing is held. -/
theorem held_idle (hpc : s.pc = .recvfrom) (hi : s.Idle) : s.held = 0 := by
  have hun : s.workers.countP Worker.unanswered = 0 := by
    rw [List.countP_eq_zero]
    intro w hw
    have hdone := hi w hw
    cases w with
    | ended | failed => exact Bool.false_ne_true
    | started | called | sleeping | slept | summed | released => cases hdone
  rw [held, hun]
  simp [Handling, hpc]

/-- And the slots taken are those of the workers that an exception has ended. -/
theorem nThreads_idle (hok : s.revived.Ok) (hi : s.Idle) : s.nThreads = s.failures := by
  have hcount : s.revived.workers.countP Worker.counted = s.failures := by
    rw [revived, List.countP_map, failures]
    refine List.countP_congr fun w hw => ?_
    have hdone := hi w hw
    cases w with
    | ended | failed => rfl
    | started | called | sleeping | slept | summed | released => cases hdone
  have hn := hok.count
  rw [hcount] at hn
  exact hn

end Server

section
variable {es : List (FaultyEvent D)} {h : Fin D.hosts}

/-- At rest the credits are there, but for those that have been lost. -/
theorem credits_at_rest (hl : ∀ e ∈ es, e.Lossy)
    (hq : ((faulty D).after .initial es).Quiescent) {k : Slot}
    (hk : (((faulty D).after .initial es).system.maps.servers k).saddr = D.addr h) :
    (((faulty D).after .initial es).system.maps.servers k).freeThreads.toNat +
      ((faulty D).after .initial es).system.failures h +
      ((faulty D).after .initial es).losses h = maxThreads.toNat := by
  have hsum := (undisturbed_after hl).losses hk
  have hnet := net_at_rest hq
  obtain ⟨srv, hsrv, hpc, hidle⟩ := hq.system.process h
  have hin : ((faulty D).after .initial es).system.inFlight h = 0 := by
    rw [System.inFlight, hnet, Multiset.countP_zero]
  have hans : ((faulty D).after .initial es).system.answers h = 0 := by
    rw [System.answers, hnet, Multiset.countP_zero]
  have hheld : ((faulty D).after .initial es).system.held h = 0 := by
    rw [held_of_server hsrv, srv.held_idle hpc hidle]
  omega

/-- At rest every host is registered, or a ping of it has been dropped. -/
theorem registered_at_rest (hl : ∀ e ∈ es, e.Lossy)
    (hq : ((faulty D).after .initial es).Quiescent) (h : Fin D.hosts) :
    Registered ((faulty D).after .initial es).system.maps (D.addr h) ∨
      ∃ p : Ping D, .ping p ∈ ((faulty D).after .initial es).dropped ∧ p.host = h := by
  have hheard := heard_after hl h
  have hnet := net_at_rest hq
  obtain ⟨srv, hsrv, hpc, -⟩ := hq.system.process h
  generalize (faulty D).after .initial es = s at *
  have hserver : s.shadow.server h = some srv.revived := congrArg (Option.map Server.revived) hsrv
  refine (hheard (by rw [hserver]; exact Option.some_ne_none _)).imp_right fun hone => ?_
  have hpend : s.shadow.pending h = 0 := by
    have hpc' : srv.revived.pc = .recvfrom := hpc
    simp [System.pending, hserver, Server.pending, hpc']
  have hpings : s.shadow.pings h = s.system.pings h + s.dropped.countP fun m => m.isPingOf h :=
    s.system.pings_undelivered s.dropped h
  have hnone : s.system.pings h = 0 := by rw [System.pings, hnet, Multiset.countP_zero]
  obtain ⟨m, hm, hping⟩ : ∃ m ∈ s.dropped, m.isPingOf h = true :=
    Multiset.countP_pos.mp (by omega)
  cases m with
  | ping p => exact ⟨p, hm, by simpa using hping⟩
  | job | dispatch => cases hping

end

/-- **At rest everything is given back, but for what has been lost.**  When no process has died, the
balancer has not been reloaded, no message has been doubled and nothing more happens: in the process
of every host the slots taken are those of the workers whose sleep has raised; the host is
registered, unless a ping of it has been dropped; and its credits are all there, but for one for
each such worker and for each job and each `'D'` of it that has been dropped. -/
theorem settled_at_rest {es : List (FaultyEvent D)} (hl : ∀ e ∈ es, e.Lossy)
    (hq : ((faulty D).after .initial es).Quiescent) (h : Fin D.hosts) :
    (∃ srv, ((faulty D).after .initial es).system.server h = some srv ∧
      srv.nThreads = srv.failures) ∧
    (Registered ((faulty D).after .initial es).system.maps (D.addr h) ∨
      ∃ p : Ping D, .ping p ∈ ((faulty D).after .initial es).dropped ∧ p.host = h) ∧
    ∀ k : Slot, (((faulty D).after .initial es).system.maps.servers k).saddr = D.addr h →
      (((faulty D).after .initial es).system.maps.servers k).freeThreads.toNat +
        ((faulty D).after .initial es).system.failures h +
        ((faulty D).after .initial es).losses h = maxThreads.toNat := by
  refine ⟨?_, registered_at_rest hl hq h, fun k hk => credits_at_rest hl hq hk⟩
  obtain ⟨srv, hsrv, -, hidle⟩ := hq.system.process h
  have hrev : ((faulty D).after .initial es).system.revived.server h = some srv.revived :=
    congrArg (Option.map Server.revived) hsrv
  exact ⟨srv, hsrv, srv.nThreads_idle ((sound_faulty es).servers h _ hrev) hidle⟩

theorem quiescent_lossyRun : ((faulty oneHost).after .initial (lossyRun 2)).Quiescent := by
  have hserver : ((faulty oneHost).after .initial (lossyRun 2)).system.server host =
      some ⟨.recvfrom, System.datagramOf longestDispatch, 1, 0,
        [.failed (System.datagramOf longestDispatch)]⟩ := by
    decide +kernel
  refine Faulty.quiescent_of_idle (by decide +kernel) fun g => ?_
  obtain rfl : g = host := Subsingleton.elim (α := Fin 1) g host
  refine ⟨_, hserver, rfl, fun w hw => ?_⟩
  rw [List.mem_singleton.mp hw, Worker.finished]

theorem settled_at_rest_lossyRun :
    (∃ srv, ((faulty oneHost).after .initial (lossyRun 2)).system.server host = some srv ∧
      srv.nThreads = srv.failures) ∧
    (Registered ((faulty oneHost).after .initial (lossyRun 2)).system.maps
        (oneHost.addr host) ∨
      ∃ p : Ping oneHost, .ping p ∈ ((faulty oneHost).after .initial (lossyRun 2)).dropped ∧
        p.host = host) ∧
    ∀ k : Slot, (((faulty oneHost).after .initial (lossyRun 2)).system.maps.servers k).saddr =
        oneHost.addr host →
      (((faulty oneHost).after .initial (lossyRun 2)).system.maps.servers k).freeThreads.toNat +
        ((faulty oneHost).after .initial (lossyRun 2)).system.failures host +
        ((faulty oneHost).after .initial (lossyRun 2)).losses host = maxThreads.toNat :=
  settled_at_rest (by decide +kernel) quiescent_lossyRun host

end EbpfLb
