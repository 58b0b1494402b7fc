import EbpfLoadBalancer.Protocol.Conservation
import EbpfLoadBalancer.Server.Slots

/-!
# Protocol — a sleep that raises

`deployment raises` is the system in which `time.sleep` raises where `raises` says so.  To everyone
else a worker whose sleep has raised is a worker that sleeps for ever: it keeps its slot and never
sends its `'D'`.  Put back to sleep (`revived`), the failed workers turn a run of the deployment
into one of the system of `System`, less the steps in which a sleep raised (`after_revived`).

So every failure costs one credit: the credits of a registered host, the jobs in flight to it, the
jobs it holds, its `'D'`s in flight and its failures are `MAX_THREADS` (`credits_and_failures`).
A failed worker stays failed, so its slot and its credit are lost for good (`slots_lost`,
`credits_lost`).
-/

namespace EbpfLb

variable {D : Deployment}

/-- The state after the event, when `time.sleep` raises where `raises` says so. -/
def System.stepRaising (raises : Nat → Bool) (s : System D) : Event D → System D
  | .work h i f => s.acted h f ((s.server h).bind fun srv => srv.work raises i)
  | e => s.step e

/-- The system with such sleeps, one event after the other. -/
def deployment (raises : Nat → Bool) (D : Deployment) :
    Machine (System D) (Event D) (System D) where
  out := System.stepRaising raises
  next := id

/-! ### The workers that have failed, put back to sleep -/

namespace Worker

/-- An exception has ended it. -/
def hasFailed : Worker → Bool
  | failed _ => true
  | _ => false

def revived : Worker → Worker
  | failed d => sleeping d
  | w => w

end Worker

namespace Server

/-- The workers an exception has ended. -/
def failures (s : Server) : Nat := s.workers.countP Worker.hasFailed

def revived (s : Server) : Server := { s with workers := s.workers.map Worker.revived }

variable {raises : Nat → Bool} (s : Server)

/-- To the balancer a failed worker's job is held for ever. -/
theorem held_revived : s.revived.held = s.held + s.failures := by
  have hcount : s.revived.workers.countP Worker.unanswered =
      s.workers.countP Worker.unanswered + s.failures := by
    rw [failures, revived]
    induction s.workers with
    | nil => rfl
    | cons w ws ih =>
        simp only [List.map_cons, List.countP_cons] at ih ⊢
        rw [ih]
        cases w <;> simp [Worker.revived, Worker.unanswered, Worker.hasFailed] <;> omega
  rw [held, held, hcount, Nat.add_assoc]
  rfl

theorem main_revived : s.revived.main = s.main.map fun r => (r.1.revived, r.2) := by
  obtain ⟨pc, datagram, nThreads, total, workers⟩ := s
  cases pc with
  | boot | recvfrom => rfl
  | check =>
      by_cases hn : nThreads ≥ 5
      · simp [main, revived, hn]
      · simp [main, revived, hn]
  | spawn =>
      by_cases hd : datagram.data ≠ []
      · simp [main, revived, hd, Worker.revived]
      · simp [main, revived, hd]

theorem recvfrom_revived (d : Datagram) :
    s.revived.recvfrom d = (s.recvfrom d).map revived := by
  by_cases hpc : s.pc = .recvfrom
  · simp [recvfrom, revived, hpc]
  · simp [recvfrom, revived, hpc]

/-- A worker's step is its step after the revival, or a failure. -/
theorem work_revived (raises : Nat → Bool) (i : Nat) :
    s.revived.work (fun _ => false) i = (s.work raises i).map (fun r => (r.1.revived, r.2)) ∨
      s.work raises i = none ∨
      ∃ s', s.work raises i = some (s', none) ∧ s'.revived = s.revived := by
  have hget : s.revived.workers[i]? = s.workers[i]?.map Worker.revived := List.getElem?_map
  have hset : ∀ w, (s.workers.set i w).map Worker.revived =
      (s.workers.map Worker.revived).set i w.revived := fun w => List.map_set
  cases hi : s.workers[i]? with
  | none => exact .inr (.inl (work_eq_none fun w hw => by rw [hi] at hw; cases hw))
  | some w =>
      rw [hi] at hget
      cases w with
      | ended d | failed d => exact .inr (.inl (by rw [work, hi]))
      | sleeping d =>
          cases hr : raises (fromBytes d.data) with
          | true =>
              -- asleep before and after the revival
              refine .inr (.inr ⟨s.setWorker i (.failed d), ?_, ?_⟩)
              · simp only [work, hi, hr, if_true]
              · have hlt := (List.getElem?_eq_some_iff.mp hi).1
                have hsame : (s.workers.map Worker.revived).set i (.sleeping d) =
                    s.workers.map Worker.revived := by
                  have hself : s.revived.workers.set i (.sleeping d) = s.revived.workers := by
                    obtain ⟨h, e⟩ := List.getElem?_eq_some_iff.mp hget
                    rw [← show s.revived.workers[i] = .sleeping d from e, List.set_getElem_self]
                  exact hself
                simp only [revived, setWorker, hset, Worker.revived, hsame]
          | false =>
              left
              rw [work, hget, work, hi]
              simp only [Option.map_some, Worker.revived, hr, Bool.false_eq_true, if_false,
                setWorker, revived, hset]
      | started | called d | slept d | summed d | released d =>
          left
          rw [work, hget, work, hi]
          simp only [Option.map_some, Worker.revived, setWorker, revived, hset]

end Server

namespace System

/-- The failed workers of the process at `h`. -/
def failures (s : System D) (h : Fin D.hosts) : Nat := (s.server h).elim 0 Server.failures

def revived (s : System D) : System D :=
  { s with server := fun h => (s.server h).map Server.revived }

variable (s : System D) (h : Fin D.hosts)

theorem held_revived : s.revived.held h = s.held h + s.failures h := by
  simp only [held, failures, revived]
  cases s.server h with
  | none => rfl
  | some srv => exact srv.held_revived

theorem setServer_revived (o : Option Server) :
    (s.setServer h o).revived = s.revived.setServer h (o.map Server.revived) := by
  have hcomp : (fun j => (Function.update s.server h o j).map Server.revived) =
      Function.update s.revived.server h (o.map Server.revived) :=
    Function.comp_update (Option.map Server.revived) s.server h o
  simp only [setServer, revived, hcomp]

theorem acted_revived (f : Frame) (r : Option (Server × Option U8)) :
    (s.acted h f r).revived = s.revived.acted h f (r.map fun r => (r.1.revived, r.2)) := by
  match r with
  | none => rfl
  | some (srv, none) => exact s.setServer_revived h (some srv)
  | some (srv, some b) =>
      by_cases hf : IsPing f.bytes ∧ ipSaddr f.bytes = D.addr h ∧ f.bytes.byte 42 = b
      · simp only [acted, Option.map_some, dif_pos hf]
        exact congrArg (fun t : System D => t.send _) (s.setServer_revived h (some srv))
      · simp only [acted, Option.map_some, dif_neg hf]

theorem balanced_revived (m : Msg D) (o : Outcome) :
    (s.balanced m o).revived = s.revived.balanced m o := by
  by_cases hv : o.verdict = .tx
  · simp only [balanced, if_pos hv]
    rfl
  · simp only [balanced, if_neg hv]
    rfl

/-- A step of the deployment is one of the system, or a failure, which the system does not see. -/
theorem stepRaising_revived (raises : Nat → Bool) (e : Event D) :
    (s.stepRaising raises e).revived = s.revived.step e ∨
      (s.stepRaising raises e).revived = s.revived := by
  cases e with
  | client j => exact .inl rfl
  | start h =>
      left
      have hserver : s.revived.server h = (s.server h).map Server.revived := rfl
      cases hs : s.server h with
      | none =>
          rw [hs] at hserver
          simp only [stepRaising, step, hs, hserver, Option.map_none]
          exact congrArg
            (fun t : System D => { t with gen := Function.update s.gen h (s.gen h + 1) })
            (s.setServer_revived h (some .fresh))
      | some srv =>
          rw [hs] at hserver
          simp only [stepRaising, step, hs, hserver, Option.map_some]
  | main h f =>
      left
      have hbind : (s.revived.server h).bind Server.main =
          ((s.server h).bind Server.main).map fun r => (r.1.revived, r.2) := by
        simp only [revived]
        cases s.server h with
        | none => rfl
        | some srv => exact srv.main_revived
      simp only [stepRaising, step, acted_revived, hbind]
  | work h i f =>
      cases hs : s.server h with
      | none =>
          have hserver : s.revived.server h = none := by simp only [revived, hs, Option.map_none]
          left
          simp only [stepRaising, step, hs, hserver, Option.bind_none]
          rfl
      | some srv =>
          have hserver : s.revived.server h = some srv.revived := by
            simp only [revived, hs, Option.map_some]
          rcases srv.work_revived raises i with hw | hw | ⟨srv', hw, hsame⟩
          · left
            simp only [stepRaising, step, hs, hserver, Option.bind_some, acted_revived, hw]
          · right
            simp only [stepRaising, hs, Option.bind_some, hw, acted]
          · -- the worker whose sleep raises is asleep before and after
            right
            simp only [stepRaising, hs, Option.bind_some, hw, acted, setServer_revived,
              Option.map_some, hsame]
            simp only [setServer, ← hserver, Function.update_eq_self]
  | receive h f =>
      left
      by_cases hf : .dispatch f ∈ s.net ∧ ipDaddr f = D.addr h
      · have hbind : ((s.revived.server h).bind fun srv => srv.recvfrom (datagramOf f)) =
            ((s.server h).bind fun srv => srv.recvfrom (datagramOf f)).map Server.revived := by
          simp only [revived]
          cases s.server h with
          | none => rfl
          | some srv => exact srv.recvfrom_revived _
        have hf' : .dispatch f ∈ s.revived.net ∧ ipDaddr f = D.addr h := hf
        simp only [stepRaising, step, if_pos hf, if_pos hf', hbind]
        cases (s.server h).bind fun srv => srv.recvfrom (datagramOf f) with
        | none => rfl
        | some srv =>
            exact congrArg (fun t : System D => t.take (.dispatch f))
              (s.setServer_revived h (some srv))
      · have hf' : ¬ (.dispatch f ∈ s.revived.net ∧ ipDaddr f = D.addr h) := hf
        simp only [stepRaising, step, if_neg hf, if_neg hf']
  | balance m tail =>
      left
      cases hm : m.toBalancer with
      | none => simp only [stepRaising, step, hm]
      | some f =>
          by_cases hin : m ∈ s.net
          · have hin' : m ∈ s.revived.net := hin
            simp only [stepRaising, step, hm, if_pos hin, if_pos hin']
            exact s.balanced_revived m _
          · have hin' : m ∉ s.revived.net := hin
            simp only [stepRaising, step, hm, if_neg hin, if_neg hin']
  | die h => exact .inl (s.setServer_revived h none)
  | reload => exact .inl rfl

end System

/-- A run of the deployment, its failed workers put back to sleep, is a run of the system. -/
theorem after_revived (raises : Nat → Bool) (s : System D) {es : List (Event D)}
    (hb : ∀ e ∈ es, e.Basic) : ∃ es', (∀ e ∈ es', e.Basic) ∧
      ((deployment raises D).after s es).revived = (protocol D).after s.revived es' := by
  induction es generalizing s with
  | nil => exact ⟨[], by simp, rfl⟩
  | cons e es ih =>
      obtain ⟨es', hb', h'⟩ := ih (s.stepRaising raises e) fun e he => hb e (by simp [he])
      rcases s.stepRaising_revived raises e with h | h
      · refine ⟨e :: es', List.forall_mem_cons.mpr ⟨hb e (by simp), hb'⟩, ?_⟩
        rw [Machine.after_cons]
        exact h'.trans (congrArg (fun t => (protocol D).after t es') h)
      · exact ⟨es', hb', h'.trans (congrArg (fun t => (protocol D).after t es') h)⟩

/-! ### The processes -/

section
variable {raises : Nat → Bool} {s : System D} {h : Fin D.hosts}

theorem System.acted_server (g : Fin D.hosts) (f : Frame) (r : Option (Server × Option U8)) :
    (s.acted g f r).server h = s.server h ∨
      h = g ∧ ∃ srv o, r = some (srv, o) ∧ (s.acted g f r).server h = some srv := by
  by_cases hg : h = g
  · subst hg
    match r with
    | none => exact .inl rfl
    | some (srv, none) => exact .inr ⟨rfl, srv, none, rfl, Function.update_self ..⟩
    | some (srv, some b) =>
        by_cases hf : IsPing f.bytes ∧ ipSaddr f.bytes = D.addr h ∧ f.bytes.byte 42 = b
        · refine .inr ⟨rfl, srv, some b, rfl, ?_⟩
          simp only [acted, dif_pos hf]
          exact Function.update_self ..
        · left
          simp only [acted, dif_neg hf]
  · left
    match r with
    | none => rfl
    | some (srv, none) => exact Function.update_of_ne hg ..
    | some (srv, some b) =>
        simp only [acted]
        split
        · exact Function.update_of_ne hg ..
        · rfl

variable (raises) in
/-- A process that lives on takes steps of `server raises`. -/
theorem process_step {e : Event D} (he : e.Basic) {srv : Server} (hs : s.server h = some srv) :
    ∃ es, (s.stepRaising raises e).server h = some ((server raises).after srv es) := by
  have hstay : (s.stepRaising raises e).server h = s.server h →
      ∃ es, (s.stepRaising raises e).server h = some ((server raises).after srv es) :=
    fun e => ⟨[], e.trans hs⟩
  have hstep : ∀ a srv', srv.next raises a = srv' →
      (s.stepRaising raises e).server h = some srv' →
      ∃ es, (s.stepRaising raises e).server h = some ((server raises).after srv es) := by
    rintro a srv' rfl e
    exact ⟨[a], e⟩
  cases e with
  | client j => exact hstay rfl
  | start g =>
      refine hstay ?_
      simp only [System.stepRaising, System.step]
      split
      · rename_i hn
        have hg : h ≠ g := fun e => by rw [← e, hs] at hn; cases hn
        exact Function.update_of_ne hg ..
      · rfl
  | main g f =>
      rcases System.acted_server (s := s) (h := h) g f ((s.server g).bind Server.main) with
        e | ⟨rfl, srv', o, hr, e⟩
      · exact hstay e
      · rw [hs, Option.bind_some] at hr
        exact hstep .main srv' (by rw [Server.next, hr]; rfl) e
  | work g i f =>
      rcases System.acted_server (s := s) (h := h) g f
        ((s.server g).bind fun srv => srv.work raises i) with e | ⟨rfl, srv', o, hr, e⟩
      · exact hstay e
      · rw [hs, Option.bind_some] at hr
        exact hstep (.work i) srv' (by rw [Server.next, hr]; rfl) e
  | receive g f =>
      by_cases hf : .dispatch f ∈ s.net ∧ ipDaddr f = D.addr g
      · cases hr : (s.server g).bind fun srv => srv.recvfrom (System.datagramOf f) with
        | none => exact hstay (by simp only [System.stepRaising, System.step, if_pos hf, hr])
        | some srv' =>
            by_cases hg : h = g
            · subst hg
              rw [hs, Option.bind_some] at hr
              refine hstep (.recvfrom (System.datagramOf f)) srv' (by rw [Server.next, hr]; rfl) ?_
              simp only [System.stepRaising, System.step, if_pos hf, hs, Option.bind_some, hr]
              exact Function.update_self ..
            · refine hstay ?_
              simp only [System.stepRaising, System.step, if_pos hf, hr]
              exact Function.update_of_ne hg ..
      · exact hstay (by simp only [System.stepRaising, System.step, if_neg hf])
  | balance m tail =>
      refine hstay ?_
      simp only [System.stepRaising, System.step]
      split
      · rfl
      · split
        · rw [System.balanced_server]
        · rfl
  | die | reload => exact he.elim

variable (raises) in
/-- So what every step of a process keeps, a run of the deployment keeps. -/
theorem process_after {P : Server → Prop} (hP : ∀ srv a, P srv → P ((server raises).step srv a))
    {es : List (Event D)} (hb : ∀ e ∈ es, e.Basic)
    (hs : ∃ srv, s.server h = some srv ∧ P srv) :
    ∃ srv, ((deployment raises D).after s es).server h = some srv ∧ P srv := by
  refine ((deployment raises D).along_of_forall hb s).invariant
    (P := fun s => ∃ srv, s.server h = some srv ∧ P srv) ?_ hs
  rintro s e ⟨srv, hs, hp⟩ he
  obtain ⟨as, has⟩ := process_step raises he hs
  exact ⟨_, has, (server raises).after_invariant hp hP as⟩

end

/-- So a run of the deployment, its failed workers put back to sleep, is a first run. -/
theorem undisturbed_deployment (raises : Nat → Bool) {es : List (Event D)}
    (hb : ∀ e ∈ es, e.Basic) : Undisturbed ((deployment raises D).after .initial es).revived := by
  obtain ⟨es', hb', hrev⟩ := after_revived raises (.initial : System D) hb
  have hinit : (System.initial : System D).revived = .initial := rfl
  rw [hrev, hinit]
  exact basic_after hb'

/-- **Every failure costs one credit.**  As long as no process dies and the balancer is not
reloaded, whatever sleeps raise: for every registered host, its credits, the jobs in flight to it,
the jobs it has received and not answered, its `'D'`s in flight and its failed workers add up to
`MAX_THREADS`. -/
theorem credits_and_failures (raises : Nat → Bool) {es : List (Event D)} (hb : ∀ e ∈ es, e.Basic)
    {k : Slot} {h : Fin D.hosts}
    (hk : (((deployment raises D).after .initial es).maps.servers k).saddr = D.addr h) :
    (((deployment raises D).after .initial es).maps.servers k).freeThreads.toNat +
        ((deployment raises D).after .initial es).inFlight h +
        ((deployment raises D).after .initial es).held h +
        ((deployment raises D).after .initial es).answers h +
        ((deployment raises D).after .initial es).failures h = maxThreads.toNat := by
  have hset := (undisturbed_deployment raises hb).credits (k := k) hk
  rw [System.held_revived] at hset
  generalize (deployment raises D).after .initial es = s at hset
  have hset : (s.maps.servers k).freeThreads.toNat + s.inFlight h + (s.held h + s.failures h) +
      s.answers h = maxThreads.toNat := hset
  omega

/-! ### What is lost is lost for good -/

namespace Server
variable {raises : Nat → Bool} {s s' : Server} {e : ServerEvent}

/-- A failed worker stays failed. -/
theorem Move.failures_le (hmv : s.Move raises e s') : s.failures ≤ s'.failures := by
  cases hmv with
  | receive | deaf | hello | waiting | busy | accept | skip | gone => exact Nat.le_refl _
  | spawn =>
      rw [failures, failures, List.countP_append]
      exact Nat.le_add_right _ _
  | @work i w w' _ _ hi ha =>
      have hc := List.countP_replaced Worker.hasFailed hi w'
      have hw : w.hasFailed = false := by cases ha <;> rfl
      rw [hw, if_neg Bool.false_ne_true, Nat.add_zero] at hc
      rw [failures, failures, hc]
      exact Nat.le_add_right _ _

/-- And its increment of `n_threads` is not undone. -/
theorem failures_le_nThreads (hc : s.nThreads = s.workers.countP Worker.incremented) :
    (s.failures : Int) ≤ s.nThreads := by
  have hle := List.countP_mono_left (l := s.workers) (p := Worker.hasFailed)
    (q := Worker.incremented) fun w _ hw => by
      cases w with
      | failed => rfl
      | started | called | sleeping | slept | summed | released | ended => cases hw
  rw [hc, failures]
  exact_mod_cast hle

end Server

section
variable {raises : Nat → Bool} {s : System D} {h : Fin D.hosts} {es es' : List (Event D)}

variable (raises s) in
theorem failures_after (hb : ∀ e ∈ es, e.Basic) (h : Fin D.hosts) :
    s.failures h ≤ ((deployment raises D).after s es).failures h := by
  cases hs : s.server h with
  | none =>
      rw [System.failures, hs]
      exact Nat.zero_le _
  | some srv =>
      obtain ⟨srv', hs', hle⟩ := process_after raises
        (P := fun t => srv.failures ≤ t.failures)
        (fun t a ht => ht.trans (server_move raises t a).failures_le) hb ⟨srv, hs, Nat.le_refl _⟩
      rw [System.failures, System.failures, hs, hs']
      exact hle

variable (raises) in
/-- The process stays, with as many slots taken as it has failures. -/
theorem slots_lost (hb : ∀ e ∈ es, e.Basic) {srv : Server} (hs : s.server h = some srv)
    (hc : srv.nThreads = srv.workers.countP Worker.incremented) :
    ∃ srv', ((deployment raises D).after s es).server h = some srv' ∧
      (srv.failures : Int) ≤ srv'.nThreads := by
  obtain ⟨srv', hs', hc', hle⟩ := process_after raises
    (P := fun t => t.nThreads = t.workers.countP Worker.incremented ∧ srv.failures ≤ t.failures)
    (fun t a ht => ⟨(server_move raises t a).count ht.1,
      ht.2.trans (server_move raises t a).failures_le⟩) hb ⟨srv, hs, hc, Nat.le_refl _⟩
  have := Server.failures_le_nThreads hc'
  exact ⟨srv', hs', by omega⟩

/-- And its host stays registered, with as many credits fewer. -/
theorem credits_lost (hb : ∀ e ∈ es, e.Basic) (hb' : ∀ e ∈ es', e.Basic) {k : Slot}
    (hk : (((deployment raises D).after .initial es).maps.servers k).saddr = D.addr h) :
    (((deployment raises D).after .initial (es ++ es')).maps.servers k).freeThreads.toNat +
      ((deployment raises D).after .initial es).failures h ≤ maxThreads.toNat := by
  have hstay : (((deployment raises D).after .initial (es ++ es')).maps.servers k).saddr =
      D.addr h := by
    -- the revived runs have the same maps
    obtain ⟨es₂, hb₂, hrev'⟩ := after_revived raises ((deployment raises D).after .initial es) hb'
    have hk' := saddr_after (undisturbed_deployment raises hb).1 hb₂ (k := k) (g := h) hk
    rwa [← hrev', ← Machine.after_append] at hk'
  have hsum := credits_and_failures raises (List.forall_mem_append.mpr ⟨hb, hb'⟩) hstay
  have hle := failures_after raises ((deployment raises D).after .initial es) hb' h
  rw [← Machine.after_append] at hle
  omega

end

end EbpfLb
