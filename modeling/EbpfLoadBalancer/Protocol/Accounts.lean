import EbpfLoadBalancer.Protocol.Ledger

/-!
# Protocol — the accounts of a host

A job the balancer sends to a host is in flight, then held by its process, then a `'D'` in flight
back.  `outstanding` adds these up, with the `'S'` a process has yet to send: everything that is,
or will become, a completion to the balancer.  An auditor beside the system keeps two figures for
each host, both from its last registration on: the `surplus`, what was outstanding at the
registration and the processes started since, and the jobs `lost`, held by a process when it died.

`Sound` is what every reachable state is like, whatever the events: the balancer's invariants, the
processes', and that a slot is only ever held by a host.
-/

namespace EbpfLb
open Bpf

variable {D : Deployment}

/-! ### The tallies -/

def Msg.isDispatchTo (h : Fin D.hosts) : Msg D → Bool
  | dispatch f => ipDaddr f = D.addr h
  | _ => false

def Msg.isPingOf (h : Fin D.hosts) : Msg D → Bool
  | ping p => p.host = h
  | _ => false

/-- A `'D'` of `h`. -/
def Msg.isAnswerOf (h : Fin D.hosts) : Msg D → Bool
  | ping p => p.host = h ∧ p.byte = byteD
  | _ => false

@[simp] theorem isDispatchTo_job (h : Fin D.hosts) (j : JobFrame) :
    (Msg.job j).isDispatchTo h = false := rfl
@[simp] theorem isDispatchTo_ping (h : Fin D.hosts) (p : Ping D) :
    (Msg.ping p).isDispatchTo h = false := rfl
@[simp] theorem isDispatchTo_dispatch (h : Fin D.hosts) (f : Bytes) :
    (Msg.dispatch f).isDispatchTo h = decide (ipDaddr f = D.addr h) := rfl
@[simp] theorem isPingOf_job (h : Fin D.hosts) (j : JobFrame) :
    (Msg.job j).isPingOf h = false := rfl
@[simp] theorem isPingOf_ping (h : Fin D.hosts) (p : Ping D) :
    (Msg.ping p).isPingOf h = decide (p.host = h) := rfl
@[simp] theorem isAnswerOf_job (h : Fin D.hosts) (j : JobFrame) :
    (Msg.job j).isAnswerOf h = false := rfl
@[simp] theorem isAnswerOf_ping (h : Fin D.hosts) (p : Ping D) :
    (Msg.ping p).isAnswerOf h = decide (p.host = h ∧ p.byte = byteD) := rfl
namespace System

/-- The jobs in flight to `h`. -/
def inFlight (s : System D) (h : Fin D.hosts) : Nat := s.net.countP fun m => m.isDispatchTo h

/-- The pings of `h` in flight. -/
def pings (s : System D) (h : Fin D.hosts) : Nat := s.net.countP fun m => m.isPingOf h

/-- The `'D'`s of `h` in flight. -/
def answers (s : System D) (h : Fin D.hosts) : Nat := s.net.countP fun m => m.isAnswerOf h

/-- The jobs the process at `h` has received and not answered. -/
def held (s : System D) (h : Fin D.hosts) : Nat := (s.server h).elim 0 Server.held

/-- The `'S'` the process at `h` has yet to send. -/
def pending (s : System D) (h : Fin D.hosts) : Nat := (s.server h).elim 0 Server.pending

/-- All that is, or will become, a completion of `h`. -/
def outstanding (s : System D) (h : Fin D.hosts) : Nat :=
  s.inFlight h + s.held h + s.pings h + s.pending h

variable (s : System D) (g h : Fin D.hosts) (o : Option Server) (m : Msg D)

theorem held_setServer :
    (s.setServer g o).held h = if h = g then o.elim 0 Server.held else s.held h := by
  simp only [held, setServer, Function.update_apply]
  split <;> rfl

theorem pending_setServer :
    (s.setServer g o).pending h = if h = g then o.elim 0 Server.pending else s.pending h := by
  simp only [pending, setServer, Function.update_apply]
  split <;> rfl

theorem server_setServer : (s.setServer g o).server h = if h = g then o else s.server h :=
  Function.update_apply s.server g o h

theorem inFlight_send :
    (s.send m).inFlight h = s.inFlight h + if m.isDispatchTo h then 1 else 0 :=
  Multiset.countP_cons _ _ _

theorem pings_send : (s.send m).pings h = s.pings h + if m.isPingOf h then 1 else 0 :=
  Multiset.countP_cons _ _ _

theorem answers_send : (s.send m).answers h = s.answers h + if m.isAnswerOf h then 1 else 0 :=
  Multiset.countP_cons _ _ _

end System

theorem held_of_server {s : System D} {h : Fin D.hosts} {srv : Server}
    (hs : s.server h = some srv) : s.held h = srv.held := by
  rw [System.held, hs]
  rfl

/-- Taking a message off the network. -/
theorem countP_erase {net : Multiset (Msg D)} {m : Msg D} (hm : m ∈ net) (p : Msg D → Bool) :
    (net.erase m).countP (fun x => p x) + (if p m then 1 else 0) = net.countP fun x => p x := by
  conv_rhs => rw [← Multiset.cons_erase hm]
  exact (Multiset.countP_cons _ _ _).symm

theorem System.inFlight_take {s : System D} {m : Msg D} (hm : m ∈ s.net) (h : Fin D.hosts) :
    (s.take m).inFlight h + (if m.isDispatchTo h then 1 else 0) = s.inFlight h :=
  countP_erase hm _

theorem System.pings_take {s : System D} {m : Msg D} (hm : m ∈ s.net) (h : Fin D.hosts) :
    (s.take m).pings h + (if m.isPingOf h then 1 else 0) = s.pings h :=
  countP_erase hm _

theorem System.answers_take {s : System D} {m : Msg D} (hm : m ∈ s.net) (h : Fin D.hosts) :
    (s.take m).answers h + (if m.isAnswerOf h then 1 else 0) = s.answers h :=
  countP_erase hm _

theorem countP_mono {p q : Msg D → Bool} (hpq : ∀ m, p m = true → q m = true)
    (net : Multiset (Msg D)) : net.countP (fun x => p x) ≤ net.countP fun x => q x :=
  Quot.inductionOn net fun _ => List.countP_mono_left fun m _ => by simpa using hpq m

theorem Msg.isPingOf_of_isAnswerOf {m : Msg D} {h : Fin D.hosts} (hm : m.isAnswerOf h = true) :
    m.isPingOf h = true := by
  cases m with
  | ping p =>
      rw [isAnswerOf_ping, decide_eq_true_eq] at hm
      simpa using hm.1
  | job | dispatch => cases hm

theorem System.answers_le_pings (s : System D) (h : Fin D.hosts) : s.answers h ≤ s.pings h :=
  countP_mono (fun _ => Msg.isPingOf_of_isAnswerOf) s.net

/-! ### The auditor -/

/-- A slot holds the address. -/
def Registered (m : Maps) (a : U32) : Prop := ∃ k : Slot, (m.servers k).saddr = a

instance (m : Maps) (a : U32) : Decidable (Registered m a) :=
  inferInstanceAs (Decidable (∃ _ : Slot, _))

structure Audit (D : Deployment) where
  /-- Outstanding when the host was registered, and processes started since. -/
  surplus : Fin D.hosts → Nat
  /-- Jobs held by processes when they died, since the host was registered. -/
  lost : Fin D.hosts → Nat

/-- The host has been registered between the two states. -/
def JustRegistered (s s' : System D) (h : Fin D.hosts) : Prop :=
  ¬ Registered s.maps (D.addr h) ∧ Registered s'.maps (D.addr h)

instance (s s' : System D) (h : Fin D.hosts) : Decidable (JustRegistered s s' h) :=
  inferInstanceAs (Decidable (_ ∧ _))

/-- The figures after a step from `s` to `s'`. -/
def Audit.next (s s' : System D) (a : Audit D) : Audit D where
  surplus h :=
    if JustRegistered s s' h then s'.outstanding h else a.surplus h + (s'.gen h - s.gen h)
  lost h :=
    if JustRegistered s s' h then 0
    else a.lost h + if s'.server h = none then s.held h else 0

/-- The system with the auditor beside it. -/
def audited (D : Deployment) : Machine (System D × Audit D) (Event D) (System D × Audit D) where
  out sa e := ((protocol D).step sa.1 e, sa.2.next sa.1 ((protocol D).step sa.1 e))
  next := id

/-- The system and the auditor before anything has happened. -/
def auditedInitial : System D × Audit D := (.initial, ⟨fun _ => 0, fun _ => 0⟩)

/-- The auditor only watches. -/
theorem audited_fst (sa : System D × Audit D) (es : List (Event D)) :
    ((audited D).after sa es).1 = (protocol D).after sa.1 es := by
  induction es generalizing sa with
  | nil => rfl
  | cons e es ih => exact ih _

/-! ### What every state is like -/

structure Sound (s : System D) : Prop where
  bound : CreditBound s.maps
  registry : Registry s.maps
  hosts : HostsOnly D s.maps
  servers : ∀ h srv, s.server h = some srv → srv.Ok
  /-- A job in flight to a host has its eight bytes. -/
  whole : ∀ f, .dispatch f ∈ s.net → f.length = 50

theorem sound_initial : Sound (System.initial : System D) where
  bound := creditBound_empty
  registry := registry_empty
  hosts _ h := absurd rfl h
  servers _ _ h := by cases h
  whole _ h := absurd h (Multiset.notMem_zero _)

/-- The frame of a message to the balancer comes from a host if it is a ping. -/
theorem Msg.ping_source {m : Msg D} {f : Frame} (hf : m.toBalancer = some f)
    (hp : IsPing f.bytes) : ∃ p : Ping D, m = .ping p ∧ ipSaddr f.bytes = D.addr p.host := by
  cases m with
  | job j =>
      cases hf
      exact absurd j.isJob hp.not_isJob
  | ping p =>
      cases hf
      exact ⟨p, rfl, p.source⟩
  | dispatch => cases hf

theorem Msg.fromHost {m : Msg D} {f : Frame} (hf : m.toBalancer = some f) : FromHost f.bytes :=
  fun hp => by
    obtain ⟨p, -, hs⟩ := ping_source hf hp
    rw [hs]
    exact D.nonzero p.host

section
variable {s s' : System D} {e : Event D}

theorem Sound.setServer (h : Sound s) (g : Fin D.hosts) {o : Option Server}
    (ho : ∀ srv, o = some srv → srv.Ok) : Sound (s.setServer g o) where
  bound := h.bound
  registry := h.registry
  hosts := h.hosts
  servers j srv hj := by
    simp only [System.setServer, Function.update_apply] at hj
    split at hj
    · exact ho srv hj
    · exact h.servers j srv hj
  whole := h.whole

theorem Sound.net (h : Sound s) {net : Multiset (Msg D)}
    (hn : ∀ f, .dispatch f ∈ net → f.length = 50) : Sound { s with net } :=
  ⟨h.bound, h.registry, h.hosts, h.servers, hn⟩

theorem Sound.send (h : Sound s) {m : Msg D} (hm : ∀ f, m ≠ .dispatch f) : Sound (s.send m) :=
  h.net fun f hf => (Multiset.mem_cons.mp hf).elim (fun e => absurd e.symm (hm f)) (h.whole f)

theorem Sound.balanced (h : Sound s) {m : Msg D} {f : Frame} (hf : m.toBalancer = some f)
    (tail : Option (Vector U8 7)) : Sound (s.balanced m (loadBalancer tail s.maps f)) := by
  have hmv := loadBalancer_move tail f h.bound
  constructor
  · rw [System.balanced_maps]
    exact (hmv.creditBound h.bound).1
  · rw [System.balanced_maps]
    exact hmv.registry h.registry fun hp _ => Msg.fromHost hf hp
  · intro k hk
    rw [System.balanced_maps] at hk ⊢
    rcases hmv.slot k with hid | ⟨-, hp, hnew⟩
    · have hs := saddr_of_identity hid
      obtain ⟨j, hj⟩ := h.hosts k (hs ▸ hk)
      exact ⟨j, hs.trans hj⟩
    · obtain ⟨p, -, hs⟩ := Msg.ping_source hf hp
      exact ⟨p.host, (congrArg DestInfo.saddr hnew).trans hs⟩
  · rw [System.balanced_server]
    exact h.servers
  · intro g hg
    have hold : .dispatch g ∈ s.net.erase m → g.length = 50 := fun hg =>
      h.whole g (Multiset.mem_of_mem_erase hg)
    rw [System.balanced] at hg
    split at hg
    · rename_i hv
      rcases Multiset.mem_cons.mp hg with e | hg
      · obtain ⟨_, _, r, -, -, hl, hr⟩ := hmv.tx hv
        rw [Msg.dispatch.inj e, hr, length_rewrite, hl]
      · exact hold hg
    · exact hold hg

/-- The payload of a job in flight is not empty. -/
theorem data_ne_nil {f : Bytes} (h : f.length = 50) : (System.datagramOf f).data ≠ [] := by
  intro hd
  have := congrArg List.length hd
  simp [System.datagramOf, h] at this

/-- Every change keeps the states sound. -/
theorem Sound.change (h : Sound s) (hc : Change s e s') : Sound s' := by
  cases hc with
  | idle => exact h
  | client j => exact h.send nofun
  | start g hn =>
      have hs := h.setServer g (o := some .fresh) fun srv e => Option.some.inj e ▸ Server.ok_fresh
      exact ⟨hs.bound, hs.registry, hs.hosts, hs.servers, hs.whole⟩
  | quiet e g srv srv' hs ha =>
      have hok := (ha.effect (h.servers g srv hs)).1
      exact h.setServer g fun _ e => Option.some.inj e ▸ hok
  | sent e p srv srv' hg hs ha =>
      have hok := (ha.effect (h.servers p.host srv hs)).1
      exact (h.setServer p.host fun _ e => Option.some.inj e ▸ hok).send nofun
  | receive g f srv srv' hm hf hs hr =>
      have hok := (Server.recvfrom_effect (h.servers g srv hs) (data_ne_nil (h.whole f hm)) hr).1
      exact (h.setServer g fun _ e => Option.some.inj e ▸ hok).net fun b hb =>
        h.whole b (Multiset.mem_of_mem_erase hb)
  | balance m f tail hf hm => exact h.balanced hf (some tail)
  | die g => exact h.setServer g nofun
  | reload => exact ⟨creditBound_empty, registry_empty, fun _ h => absurd rfl h, h.servers, h.whole⟩

end

theorem sound_step (s : System D) (e : Event D) (hs : Sound s) : Sound ((protocol D).step s e) :=
  hs.change (protocol_change s e)

theorem sound_after (es : List (Event D)) : Sound ((protocol D).after .initial es) :=
  (protocol D).after_invariant sound_initial sound_step es

end EbpfLb
