import EbpfLoadBalancer.Protocol.Audited

/-!
# Protocol — credit conservation

When no process dies and the balancer is not reloaded, every process starts once and its `'S'` is
the first the balancer hears of it: until then nothing else of the host is outstanding, and from
then on no other `'S'` is (`FirstRun`).  So neither surplus nor loss is ever booked, and the two
inequalities of `Audited` meet: the credits of a registered host, the jobs in flight to it, the
jobs it holds and its `'D'`s in flight are `MAX_THREADS` (`credit_conservation`).
-/

namespace EbpfLb
open Bpf

variable {D : Deployment}

/-- The process does not die, and the balancer is not reloaded. -/
def Event.Basic : Event D → Prop
  | die _ | reload => False
  | _ => True

instance : DecidablePred (Event.Basic : Event D → Prop)
  | .client _ | .start _ | .main .. | .work .. | .receive .. | .balance .. => isTrue trivial
  | .die _ | .reload => isFalse id

/-- Every process is at its host's first run. -/
structure FirstRun (s : System D) (a : Audit D) : Prop where
  absent : ∀ h, s.server h = none → ¬ Registered s.maps (D.addr h) ∧ s.pings h = 0
  unregistered : ∀ h, ¬ Registered s.maps (D.addr h) →
    s.inFlight h = 0 ∧ s.held h = 0 ∧ s.pings h + s.pending h ≤ 1
  registered : ∀ h, Registered s.maps (D.addr h) →
    a.surplus h = 0 ∧ a.lost h = 0 ∧ s.pings h = s.answers h

theorem firstRun_initial : FirstRun (.initial : System D) ⟨fun _ => 0, fun _ => 0⟩ where
  absent h _ := ⟨fun ⟨_, hk⟩ => D.nonzero h hk.symm, rfl⟩
  unregistered _ _ := ⟨rfl, rfl, Nat.zero_le 1⟩
  registered _ _ := ⟨rfl, rfl, rfl⟩

section
variable {s s' : System D} {a : Audit D}

/-- With neither surplus nor loss the inequalities meet, and no `'S'` is pending. -/
theorem FirstRun.settled (hf : FirstRun s a) (h : Audited s a) {k : Slot} {g : Fin D.hosts}
    (hk : (s.maps.servers k).saddr = D.addr g) :
    (s.maps.servers k).freeThreads.toNat + s.inFlight g + s.held g + s.answers g =
      maxThreads.toNat ∧ s.pending g = 0 := by
  obtain ⟨hsur, hlost, hpings⟩ := hf.registered g ⟨k, hk⟩
  have hup := h.upper k g hk
  have hlow := h.lower k g hk
  rw [System.outstanding] at hup
  omega

/-- A change outside the balancer in which no process dies. -/
theorem FirstRun.outside {e : Event D} (hf : FirstRun s a) (h : Audited s a) (he : e.Basic)
    (hm : s'.maps = s.maps)
    (hflow : ∀ g, Account.Flow (e = .die g) (s.account g) (s'.account g)) :
    FirstRun s' (a.next s s') := by
  have hlives : ∀ g, ¬ e = .die g := by
    rintro g rfl
    exact he
  have habs : ∀ g, s'.server g = none → s.server g = none ∧ s'.pings g = s.pings g := by
    intro g hn
    have hsame := (hflow g).of_absent (hlives g) (Option.isNone_iff_eq_none.mpr hn)
    have hserver : (s'.server g).isNone = (s.server g).isNone := congrArg Account.absent hsame
    rw [hn] at hserver
    exact ⟨Option.isNone_iff_eq_none.mp hserver.symm, congrArg Account.pings hsame⟩
  constructor
  · intro g hn
    obtain ⟨hs, hp⟩ := habs g hn
    rw [hm, hp]
    exact hf.absent g hs
  · intro g hr
    obtain ⟨hin, hh, hone⟩ := hf.unregistered g (hm ▸ hr)
    have hping : (s.account g).absent = true → s.pings g = 0 := fun hn =>
      (hf.absent g (Option.isNone_iff_eq_none.mp hn)).2
    exact (hflow g).unregistered hping hin hh hone
  · intro g hr
    rw [hm] at hr
    obtain ⟨k, hk⟩ := hr
    obtain ⟨hsur, hlost, hpa⟩ := hf.registered g ⟨k, hk⟩
    have hpend := (hf.settled h hk).2
    have hsome : s.server g ≠ none := fun hn => (hf.absent g hn).1 ⟨k, hk⟩
    have hsome' : s'.server g ≠ none := fun hn => hsome (habs g hn).1
    have hrun : (s.account g).absent = false := by
      rw [← Bool.not_eq_true]
      exact fun hn => hsome (Option.isNone_iff_eq_none.mp hn)
    obtain ⟨hgen, hpings⟩ := (hflow g).registered hrun hpend hpa
    have hgen' : s'.gen g = s.gen g := hgen
    have hj := not_justRegistered_of_maps hm g
    refine ⟨?_, ?_, hpings⟩
    · simp only [Audit.next, if_neg hj, hsur, hgen', Nat.sub_self]
    · simp only [Audit.next, if_neg hj, hlost, if_neg hsome']

/-- The balancer sends to registered hosts only. -/
theorem registered_of_sentTo (hs : Sound s) {f : Frame} (tail : Option (Vector U8 7))
    {g : Fin D.hosts} (h : sentTo (loadBalancer tail s.maps f) (D.addr g) ≠ 0) :
    Registered s.maps (D.addr g) := by
  have hmv := loadBalancer_move tail f hs.bound
  have hx : (loadBalancer tail s.maps f).verdict = .tx ∧
      ipDaddr (loadBalancer tail s.maps f).frame = D.addr g := by
    by_contra hx
    exact h (if_neg hx)
  obtain ⟨j, info, r, -, hid, hl, hr⟩ := hmv.tx hx.1
  refine ⟨j, ?_⟩
  rw [← hx.2, hr, ipDaddr_rewrite (by omega), saddr_of_identity hid]

theorem answers_balanced {m : Msg D} (hm : m ∈ s.net) (o : Outcome) (g : Fin D.hosts) :
    (s.balanced m o).answers g + (if m.isAnswerOf g then 1 else 0) = s.answers g := by
  have ht := System.answers_take hm g
  rw [← ht, System.balanced]
  split
  · rw [System.answers_send]
    rfl
  · rfl

/-- A host is registered by its `'S'`, with nothing else outstanding. -/
theorem FirstRun.balanced (hf : FirstRun s a) (hs : Sound s) {m : Msg D} {f : Frame}
    (hm : m ∈ s.net) (hb : m.toBalancer = some f) (tail : Option (Vector U8 7)) :
    FirstRun (s.balanced m (loadBalancer tail s.maps f))
      (a.next s (s.balanced m (loadBalancer tail s.maps f))) := by
  have hmv := loadBalancer_move tail f hs.bound
  have hnew : ∀ g, Registered (s.balanced m (loadBalancer tail s.maps f)).maps (D.addr g) →
      Registered s.maps (D.addr g) ∨
        JustRegistered s (s.balanced m (loadBalancer tail s.maps f)) g ∧ m.isPingOf g := by
    rintro g ⟨k, hk⟩
    rw [System.balanced_maps] at hk
    rcases registered_balanced hs hb tail hk with hold | ⟨hj, -, hp⟩
    · exact .inl ⟨k, hold⟩
    · exact .inr ⟨hj, hp⟩
  have hstay : ∀ g, Registered s.maps (D.addr g) →
      Registered (s.balanced m (loadBalancer tail s.maps f)).maps (D.addr g) := by
    rintro g ⟨k, hk⟩
    have hid := hmv.slot_of_registered (hk ▸ D.nonzero g : (s.maps.servers k).saddr ≠ 0#32)
    exact ⟨k, by rw [System.balanced_maps, saddr_of_identity hid, hk]⟩
  have hsent : ∀ g, ¬ Registered s.maps (D.addr g) →
      sentTo (loadBalancer tail s.maps f) (D.addr g) = 0 := by
    intro g hr
    by_contra h
    exact hr (registered_of_sentTo hs tail h)
  set o := loadBalancer tail s.maps f
  have hin := inFlight_balanced (s := s) hm hb o
  have hp := pings_balanced (s := s) hm o
  have ha := answers_balanced (s := s) hm o
  constructor
  · intro g hn
    rw [System.balanced_server] at hn
    -- a host without a process has no ping in flight to be registered by
    obtain ⟨hung, hp₀⟩ := hf.absent g hn
    have hpg := hp g
    refine ⟨fun hr => ?_, by omega⟩
    rcases hnew g hr with hold | ⟨-, hping⟩
    · exact hung hold
    · rw [if_pos hping] at hpg
      omega
  · intro g hr
    have hung : ¬ Registered s.maps (D.addr g) := fun h => hr (hstay g h)
    obtain ⟨h₀, hh, hone⟩ := hf.unregistered g hung
    have hpg := hp g
    rw [hin, hsent g hung, held_balanced, pending_balanced]
    omega
  · intro g hr
    have hpg := hp g
    have hag := ha g
    have hle := System.answers_le_pings (s.balanced m o) g
    rcases hnew g hr with hold | ⟨hjust, hping⟩
    · obtain ⟨hsur, hlost, hpa⟩ := hf.registered g hold
      have hn : ¬ JustRegistered s (s.balanced m o) g := fun hj => hj.1 hold
      have hsome : s.server g ≠ none := fun hn => (hf.absent g hn).1 hold
      refine ⟨?_, ?_, ?_⟩
      · simp only [Audit.next, if_neg hn, hsur, System.balanced_gen, Nat.sub_self]
      · simp only [Audit.next, if_neg hn, hlost, System.balanced_server, if_neg hsome]
      · -- a ping that is no `'D'` would leave fewer pings than `'D'`s
        by_cases hans : m.isAnswerOf g = true
        · rw [if_pos hans] at hag
          rw [if_pos (Msg.isPingOf_of_isAnswerOf hans)] at hpg
          omega
        · rw [if_neg hans] at hag
          omega
    · -- the `'S'` it was registered by was all there was of it
      obtain ⟨h₀, hh, hone⟩ := hf.unregistered g hjust.1
      rw [if_pos hping] at hpg
      refine ⟨?_, if_pos hjust, by omega⟩
      have hsur : (a.next s (s.balanced m o)).surplus g = (s.balanced m o).outstanding g :=
        if_pos hjust
      rw [hsur, System.outstanding, hin, hsent g hjust.1, held_balanced, pending_balanced]
      omega

/-- What is booked keeps the hosts at their first run. -/
theorem FirstRun.booked {e : Event D} (hf : FirstRun s a) (hs : Sound s) (h : Audited s a)
    (he : e.Basic) (hb : Booked s e s') : FirstRun s' (a.next s s') := by
  cases hb with
  | flow hm hflow => exact hf.outside h he hm hflow
  | balance m f tail hb hm hs' =>
      subst hs'
      exact hf.balanced hs hm hb tail
  | reload hr =>
      subst hr
      exact he.elim

end

/-- What the system is like as long as no process has died and the balancer has not been
reloaded. -/
def Undisturbed (s : System D) : Prop := Sound s ∧ ∃ a, Audited s a ∧ FirstRun s a

theorem undisturbed_initial : Undisturbed (.initial : System D) :=
  ⟨sound_initial, _, audited_initial, firstRun_initial⟩

theorem Undisturbed.booked {s s' : System D} {e : Event D} (h : Undisturbed s) (hs' : Sound s')
    (he : e.Basic) (hb : Booked s e s') : Undisturbed s' := by
  obtain ⟨hs, a, ha, hf⟩ := h
  exact ⟨hs', _, ha.booked hs hb, hf.booked hs ha he hb⟩

theorem Undisturbed.step {s : System D} {e : Event D} (h : Undisturbed s) (he : e.Basic) :
    Undisturbed ((protocol D).step s e) := by
  have hc := protocol_change s e
  exact h.booked (h.1.change hc) he (hc.booked h.1)

theorem basic_after {es : List (Event D)} (hb : ∀ e ∈ es, e.Basic) :
    Undisturbed ((protocol D).after .initial es) :=
  ((protocol D).along_of_forall hb _).invariant (fun _ _ h he => h.step he) undisturbed_initial

section
variable {s s' : System D} {e : Event D} {k : Slot} {g : Fin D.hosts}

/-- A host keeps its slot. -/
theorem Booked.saddr (hs : Sound s) (he : e.Basic) (hb : Booked s e s')
    (hk : (s.maps.servers k).saddr = D.addr g) : (s'.maps.servers k).saddr = D.addr g := by
  cases hb with
  | flow hm => rwa [hm]
  | balance m f tail hf hm hs' =>
      subst hs'
      have hid := (loadBalancer_move tail f hs.bound).slot_of_registered
        (hk ▸ D.nonzero g : (s.maps.servers k).saddr ≠ 0#32)
      rw [System.balanced_maps, saddr_of_identity hid, hk]
  | reload hr =>
      subst hr
      exact he.elim

theorem Change.saddr (hs : Sound s) (he : e.Basic) (hc : Change s e s')
    (hk : (s.maps.servers k).saddr = D.addr g) : (s'.maps.servers k).saddr = D.addr g :=
  (hc.booked hs).saddr hs he hk

theorem saddr_after {es : List (Event D)} (hs : Sound s) (hb : ∀ e ∈ es, e.Basic)
    (hk : (s.maps.servers k).saddr = D.addr g) :
    (((protocol D).after s es).maps.servers k).saddr = D.addr g :=
  (((protocol D).along_of_forall hb s).invariant
    (P := fun s => Sound s ∧ (s.maps.servers k).saddr = D.addr g)
    (fun s e h he => by
      have hc := protocol_change s e
      exact ⟨h.1.change hc, hc.saddr h.1 he h.2⟩) ⟨hs, hk⟩).2

end

namespace Undisturbed
variable {s : System D} {g : Fin D.hosts}

theorem credits (h : Undisturbed s) {k : Slot} (hk : (s.maps.servers k).saddr = D.addr g) :
    (s.maps.servers k).freeThreads.toNat + s.inFlight g + s.held g + s.answers g =
      maxThreads.toNat := by
  obtain ⟨-, a, ha, hf⟩ := h
  exact (hf.settled ha hk).1

/-- A host has no more jobs than it is given credits. -/
theorem held_le (h : Undisturbed s) (g : Fin D.hosts) : s.held g ≤ maxThreads.toNat := by
  by_cases hr : Registered s.maps (D.addr g)
  · obtain ⟨k, hk⟩ := hr
    have hsum := h.credits hk
    omega
  · obtain ⟨-, a, -, hf⟩ := h
    have hnone := (hf.unregistered g hr).2.1
    omega

/-- So its process turns no job away. -/
theorem not_busy (h : Undisturbed s) {srv : Server} (hs : s.server g = some srv)
    (hpc : srv.pc = .check) : srv.nThreads < 5 := by
  have h5 : maxThreads.toNat = 5 := rfl
  have hcount := (h.1.servers g srv hs).counted_le
  have hheld := h.held_le g
  rw [if_pos (.inl hpc), ← held_of_server hs] at hcount
  omega

end Undisturbed

/-- A completion is credited to a slot that the ping is taken to. -/
theorem Move.credited {tail : Option (Vector U8 7)} {m : Maps} {f : Frame} {o : Outcome}
    (hmv : Move tail m f o) {key : U32} {info : DestInfo} (h : .credit key info ∈ o.trace) :
    ∃ k : Slot, info = m.servers k ∧ IsPing f.bytes ∧ m.keyOf (ipSaddr f.bytes) = slotKey k ∧
      (m.servers k).saddr ≠ 0#32 := by
  cases hmv with
  | other | refuse | register | send | wait => simp at h
  | done k hp hk hr | stuck k hp hk hr =>
      simp only [List.mem_singleton, Point.credit.injEq] at h
      exact ⟨k, h.2, hp, hk, hr⟩
  | drain k _ _ _ _ hp hk hr =>
      simp only [List.mem_cons, Point.credit.injEq, reduceCtorEq, List.not_mem_nil, or_false] at h
      exact ⟨k, h.2, hp, hk, hr⟩

/-- **Credit conservation.**  As long as no process dies and the balancer is not reloaded: for
every registered host, its credits, the jobs in flight to it, the jobs it has received and not
answered and its `'D'`s in flight add up to `MAX_THREADS`.  So no process ever turns a job away,
and the clamp in the completion branch never changes a value. -/
theorem credit_conservation {es : List (Event D)} (hb : ∀ e ∈ es, e.Basic) :
    (∀ (k : Slot) (h : Fin D.hosts),
      (((protocol D).after .initial es).maps.servers k).saddr = D.addr h →
        (((protocol D).after .initial es).maps.servers k).freeThreads.toNat +
            ((protocol D).after .initial es).inFlight h +
            ((protocol D).after .initial es).held h +
            ((protocol D).after .initial es).answers h = maxThreads.toNat) ∧
    (∀ h srv, ((protocol D).after .initial es).server h = some srv → srv.pc = .check →
      srv.nThreads < 5) ∧
    ∀ m ∈ ((protocol D).after .initial es).net, ∀ (f : Frame) (tail : Vector U8 7) (key : U32)
      (info : DestInfo), m.toBalancer = some f →
        .credit key info ∈
          (loadBalancer (some tail) ((protocol D).after .initial es).maps f).trace →
        ¬ info.freeThreads + 1#16 > maxThreads := by
  have hu := basic_after hb
  generalize (protocol D).after .initial es = s at hu
  refine ⟨fun k g hk => hu.credits hk, fun g srv => hu.not_busy, ?_⟩
  intro m hm f tail key info hb htrace
  have h5 : maxThreads.toNat = 5 := rfl
  have ⟨hs, a, _, hf⟩ := hu
  obtain ⟨k, rfl, hp, hk, hr⟩ := (loadBalancer_move (some tail) f hs.bound).credited htrace
  obtain ⟨p, rfl, hsrc⟩ := Msg.ping_source hb hp
  rw [hsrc, hs.registry.credited_host hs.hosts hr] at hk
  have hset := hu.credits hk
  have hpings := (hf.registered p.host ⟨k, hk⟩).2.2
  have hpos : 0 < s.pings p.host := Multiset.countP_pos_of_mem hm (by simp)
  have h1 : (1#16).toNat = 1 := rfl
  rw [gt_iff_lt, BitVec.lt_def, BitVec.toNat_add, h1]
  omega

/-! ### One host -/

def oneHost : Deployment :=
  ⟨1, by decide, fun _ => 1#32, fun _ _ _ => Subsingleton.elim _ _, fun _ => by decide⟩

def host : Fin oneHost.hosts := ⟨0, Nat.one_pos⟩

/-- The ping of its process number `gen` with the byte `b`. -/
def pingAt (gen : Nat) (b : U8) : Ping oneHost :=
  ⟨host, gen, b, pingOf b 1#32, isPing_pingOf _ _, ipSaddr_pingOf _ _, byte_pingOf _ _⟩

/-- A job of four seconds. -/
def fourSeconds : JobFrame := ⟨jobOf 0x0400000000000000#64, isJob_jobOf _⟩

/-- A job of 2^64 - 1 seconds. -/
def longestJob : JobFrame := ⟨jobOf 0xffffffffffffffff#64, isJob_jobOf _⟩

/-- The frame its server receives. -/
def longestDispatch : Bytes :=
  rewrite (newInfo (pingOf byteS 1#32).bytes) longestJob.frame.bytes

def zeros : Vector U8 7 := Vector.replicate 7 0#8

/-- The process starts, its `'S'` arrives, and a job is sent to it. -/
def registerAndSend : List (Event oneHost) :=
  [.start host, .main host (pingOf byteS 1#32), .balance (.ping (pingAt 1 byteS)) zeros,
    .client fourSeconds, .balance (.job fourSeconds) zeros]

/-- It receives the job, runs it and answers, and the `'D'` arrives. -/
def oneJob : List (Event oneHost) :=
  registerAndSend ++
    [.receive host (rewrite (newInfo (pingOf byteS 1#32).bytes) fourSeconds.frame.bytes)] ++
    List.replicate 2 (.main host (pingOf byteD 1#32)) ++
    List.replicate 6 (.work host 0 (pingOf byteD 1#32)) ++
    [.balance (.ping (pingAt 1 byteD)) zeros]

theorem credit_conservation_oneJob :
    (∀ (k : Slot) (h : Fin oneHost.hosts),
      (((protocol oneHost).after .initial oneJob).maps.servers k).saddr = oneHost.addr h →
        (((protocol oneHost).after .initial oneJob).maps.servers k).freeThreads.toNat +
            ((protocol oneHost).after .initial oneJob).inFlight h +
            ((protocol oneHost).after .initial oneJob).held h +
            ((protocol oneHost).after .initial oneJob).answers h = maxThreads.toNat) ∧
    (∀ h srv, ((protocol oneHost).after .initial oneJob).server h = some srv → srv.pc = .check →
      srv.nThreads < 5) ∧
    ∀ m ∈ ((protocol oneHost).after .initial oneJob).net, ∀ (f : Frame) (tail : Vector U8 7)
      (key : U32) (info : DestInfo), m.toBalancer = some f →
        .credit key info ∈
          (loadBalancer (some tail) ((protocol oneHost).after .initial oneJob).maps f).trace →
        ¬ info.freeThreads + 1#16 > maxThreads :=
  credit_conservation (by simp [oneJob, registerAndSend, Event.Basic])

end EbpfLb
