import EbpfLoadBalancer.Protocol.Accounts

/-!
# Protocol — how jobs flow through the account of a host

An `Account` is what a state shows of one host.  Outside the balancer an event moves one unit of
it, or none (`Account.Flow`): a process starts with an `'S'` to send, sends it, receives a job that
was in flight, turns a job away, answers one, or dies with what it holds.  `Change.booked` reads
the flow off every change of the system, once for all the accounting that follows; what is left
are the steps of the balancer, which the ledger of a slot describes (`Move.ledger`).
-/

namespace EbpfLb
open Bpf

variable {D : Deployment}

/-- What a state shows of one host. -/
structure Account where
  /-- No process runs there. -/
  absent : Bool
  gen : Nat
  inFlight : Nat
  held : Nat
  pings : Nat
  answers : Nat
  pending : Nat

namespace Account

def outstanding (x : Account) : Nat := x.inFlight + x.held + x.pings + x.pending

/-- The account with the process `o` at the host. -/
def run (x : Account) (o : Option Server) : Account :=
  { x with absent := o.isNone, held := o.elim 0 Server.held, pending := o.elim 0 Server.pending }

/-- The account with a ping of the byte `b` more. -/
def pinged (x : Account) (b : U8) : Account :=
  { x with pings := x.pings + 1, answers := x.answers + if b = byteD then 1 else 0 }

/-- What an event outside the balancer does to the account of a host, which `dies` in it or not. -/
inductive Flow (dies : Prop) : Account → Account → Prop
  | still (x : Account) : Flow dies x x
  /-- A process starts, with its `'S'` to send. -/
  | start {n i p a : Nat} : Flow dies ⟨true, n, i, 0, p, a, 0⟩ ⟨false, n + 1, i, 0, p, a, 1⟩
  /-- It sends its `'S'`. -/
  | hello {n i h p a d : Nat} :
      Flow dies ⟨false, n, i, h, p, a, d + 1⟩ ⟨false, n, i, h, p + 1, a, d⟩
  /-- It receives a job that was in flight. -/
  | receive {n i h p a d : Nat} :
      Flow dies ⟨false, n, i + 1, h, p, a, d⟩ ⟨false, n, i, h + 1, p, a, d⟩
  /-- It turns a job away, since it holds `MAX_THREADS` more. -/
  | refuse {n i h p a d : Nat} (hh : maxThreads.toNat ≤ h) :
      Flow dies ⟨false, n, i, h + 1, p, a, d⟩ ⟨false, n, i, h, p, a, d⟩
  /-- It answers a job with a `'D'`. -/
  | answer {n i h p a d : Nat} :
      Flow dies ⟨false, n, i, h + 1, p, a, d⟩ ⟨false, n, i, h, p + 1, a + 1, d⟩
  /-- It dies, with the jobs it holds. -/
  | die {b : Bool} {n i h p a d : Nat} (hd : dies) :
      Flow dies ⟨b, n, i, h, p, a, d⟩ ⟨true, n, i, 0, p, a, 0⟩

section
variable {dies : Prop} {x y : Account}

/-- Nothing becomes outstanding but by a process that starts. -/
theorem Flow.outstanding_le (h : Flow dies x y) :
    y.outstanding ≤ x.outstanding + (y.gen - x.gen) := by
  cases h <;> simp only [outstanding] <;> omega

/-- Nothing is settled but by a process that dies, or that holds `MAX_THREADS` more. -/
theorem Flow.settled (h : Flow dies x y) :
    x.inFlight + x.held + x.pings ≤
        y.inFlight + y.held + y.pings + (if y.absent then x.held else 0) ∨
      maxThreads.toNat ≤ y.held := by
  cases h with
  | still | start => exact .inl (Nat.le_add_right _ _)
  | refuse hh => exact .inr hh
  | hello | receive | answer | die =>
      left
      simp only [Bool.false_eq_true, if_false, if_true]
      omega

/-- Where nobody dies, a host without a process had none and is as it was. -/
theorem Flow.of_absent (h : Flow dies x y) (hd : ¬ dies) (hy : y.absent = true) : y = x := by
  cases h with
  | still => rfl
  | die h => exact absurd h hd
  | start | hello | receive | refuse | answer => cases hy

/-- Before a host is registered its `'S'` is all there is of it. -/
theorem Flow.unregistered (h : Flow dies x y) (hx : x.absent = true → x.pings = 0)
    (hin : x.inFlight = 0) (hh : x.held = 0) (hone : x.pings + x.pending ≤ 1) :
    y.inFlight = 0 ∧ y.held = 0 ∧ y.pings + y.pending ≤ 1 := by
  cases h with
  | still => exact ⟨hin, hh, hone⟩
  | start =>
      have hp := hx rfl
      refine ⟨hin, rfl, ?_⟩
      dsimp only at hp ⊢
      rw [hp]
  | receive => cases hin
  | refuse | answer => cases hh
  | hello =>
      refine ⟨hin, hh, ?_⟩
      dsimp only at hone ⊢
      omega
  | die => exact ⟨hin, rfl, (Nat.le_add_right _ _).trans hone⟩

/-- Once its `'S'` has arrived the pings of a host are `'D'`s. -/
theorem Flow.registered (h : Flow dies x y) (hx : x.absent = false) (hp : x.pending = 0)
    (ha : x.pings = x.answers) : y.gen = x.gen ∧ y.pings = y.answers := by
  cases h with
  | start => cases hx
  | hello => cases hp
  | still | receive | refuse | die => exact ⟨rfl, ha⟩
  | answer => exact ⟨rfl, congrArg (· + 1) ha⟩

end

variable {dies : Prop} {srv srv' : Server}

/-- A process that turns a job away holds `MAX_THREADS` more. -/
theorem five_held (hok : srv.Ok) (hc : srv.pc = .check) (hn : 5 ≤ srv.nThreads)
    (hh : srv'.held + 1 = srv.held) : maxThreads.toNat ≤ srv'.held := by
  have hle := hok.counted_le
  rw [if_pos (.inl hc)] at hle
  have h5 : maxThreads.toNat = 5 := rfl
  omega

theorem flow_quiet (x : Account) (hok : srv.Ok) (he : srv.Effect srv' none) :
    Flow dies (x.run (some srv)) (x.run (some srv')) := by
  cases he with
  | silent hp hh =>
      have e : x.run (some srv') = x.run (some srv) := by
        simp only [run, Option.elim, hp, hh, Option.isNone_some]
      rw [e]
      exact .still _
  | busy hc hn hp hh =>
      have hfive := five_held hok hc hn hh
      simp only [run, Option.elim, hp, ← hh]
      exact .refuse hfive

theorem flow_sent (x : Account) {b : U8} (he : srv.Effect srv' (some b)) :
    Flow dies (x.run (some srv)) ((x.run (some srv')).pinged b) := by
  rcases he.of_sent with ⟨rfl, hp, hp', hh⟩ | ⟨rfl, hp, hh⟩
  · have hne : byteS ≠ byteD := by decide
    simp only [run, pinged, Option.elim, hp, hp', hh, if_neg hne]
    exact .hello
  · simp only [run, pinged, Option.elim, hp, ← hh, if_pos]
    exact .answer

end Account

/-! ### The accounts of the system -/

namespace System
variable (s : System D) (g j : Fin D.hosts)

def account (h : Fin D.hosts) : Account :=
  ⟨(s.server h).isNone, s.gen h, s.inFlight h, s.held h, s.pings h, s.answers h, s.pending h⟩

theorem account_of_server {o : Option Server} (hs : s.server g = o) :
    s.account g = (s.account g).run o := by
  subst hs
  rfl

theorem account_setServer (o : Option Server) :
    (s.setServer g o).account j = if j = g then (s.account j).run o else s.account j := by
  simp only [account, server_setServer, held_setServer, pending_setServer]
  split <;> rfl

theorem account_send_job (f : JobFrame) : (s.send (.job f)).account j = s.account j := by
  simp only [account, inFlight_send, pings_send, answers_send, isDispatchTo_job, isPingOf_job,
    isAnswerOf_job, Bool.false_eq_true, if_false]
  rfl

theorem account_send_ping (p : Ping D) :
    (s.send (.ping p)).account j = if j = p.host then (s.account j).pinged p.byte
      else s.account j := by
  simp only [account, inFlight_send, pings_send, answers_send, isDispatchTo_ping, isPingOf_ping,
    isAnswerOf_ping, decide_eq_true_eq]
  by_cases e : j = p.host
  · simp only [e, true_and, if_true]
    rfl
  · simp only [if_neg e, if_neg (Ne.symm e), if_neg fun h : p.host = j ∧ _ => e h.1.symm]
    rfl

end System

/-- What a change does to the accounts. -/
inductive Booked (s : System D) (e : Event D) (s' : System D) : Prop
  | flow (hm : s'.maps = s.maps)
      (hf : ∀ j, Account.Flow (e = .die j) (s.account j) (s'.account j)) : Booked s e s'
  | balance (m : Msg D) (f : Frame) (tail : Option (Vector U8 7)) (hf : m.toBalancer = some f)
      (hm : m ∈ s.net) (hs : s' = s.balanced m (loadBalancer tail s.maps f)) : Booked s e s'
  | reload (he : e = .reload) (hm : s'.maps = Maps.empty) : Booked s e s'

section
variable {s s' : System D} {e : Event D}

/-- A change at one host alone. -/
theorem Booked.one (g : Fin D.hosts) (hm : s'.maps = s.maps)
    (hg : Account.Flow (e = .die g) (s.account g) (s'.account g))
    (hj : ∀ j, j ≠ g → s'.account j = s.account j) : Booked s e s' := by
  refine .flow hm fun j => ?_
  by_cases h : j = g
  · subst h
    exact hg
  · rw [hj j h]
    exact .still _

theorem booked_start {g : Fin D.hosts} (hn : s.server g = none)
    (hs : s' = { s.setServer g (some .fresh) with gen := Function.update s.gen g (s.gen g + 1) }) :
    Booked s e s' := by
  refine .one g (by rw [hs]; rfl) ?_ fun j h => ?_
  · have hx := s.account_of_server g hn
    have hy : s'.account g = { (s.account g).run (some .fresh) with gen := s.gen g + 1 } := by
      have hset := s.account_setServer g g (some .fresh)
      rw [if_pos rfl] at hset
      rw [← hset, hs]
      simp only [System.account, Function.update_self]
      rfl
    rw [hx, hy]
    exact .start
  · have hset := s.account_setServer g j (some .fresh)
    rw [if_neg h] at hset
    rw [← hset, hs]
    simp only [System.account, Function.update_of_ne h]
    rfl

theorem booked_quiet {g : Fin D.hosts} {srv srv' : Server} (hok : srv.Ok)
    (hs : s.server g = some srv) (he : srv.Effect srv' none) :
    Booked s e (s.setServer g (some srv')) := by
  refine .one g rfl ?_ fun j h => by rw [s.account_setServer, if_neg h]
  rw [s.account_setServer, if_pos rfl]
  conv => arg 2; rw [s.account_of_server g hs]
  exact Account.flow_quiet _ hok he

theorem booked_sent {p : Ping D} {srv srv' : Server} (hs : s.server p.host = some srv)
    (he : srv.Effect srv' (some p.byte)) :
    Booked s e ((s.setServer p.host (some srv')).send (.ping p)) := by
  refine .one p.host rfl ?_ fun j h => ?_
  · rw [System.account_send_ping, if_pos rfl, s.account_setServer, if_pos rfl]
    conv => arg 2; rw [s.account_of_server p.host hs]
    exact Account.flow_sent _ he
  · rw [System.account_send_ping, if_neg h, s.account_setServer, if_neg h]

theorem booked_receive {g : Fin D.hosts} {f : Bytes} {srv srv' : Server}
    (hm : .dispatch f ∈ s.net) (hf : ipDaddr f = D.addr g) (hs : s.server g = some srv)
    (hp : srv'.pending = srv.pending) (hh : srv'.held = srv.held + 1) :
    Booked s e ((s.setServer g (some srv')).take (.dispatch f)) := by
  have hin : ∀ j, ((s.setServer g (some srv')).take (.dispatch f)).inFlight j +
      (if g = j then 1 else 0) = s.inFlight j := by
    intro j
    have hc := System.inFlight_take (s := s.setServer g (some srv')) hm j
    simp only [isDispatchTo_dispatch, hf, D.injective.eq_iff, decide_eq_true_eq] at hc
    exact hc
  have hpings : ∀ j, ((s.setServer g (some srv')).take (.dispatch f)).pings j = s.pings j :=
    fun j => System.pings_take (s := s.setServer g (some srv')) hm j
  have hans : ∀ j, ((s.setServer g (some srv')).take (.dispatch f)).answers j = s.answers j :=
    fun j => System.answers_take (s := s.setServer g (some srv')) hm j
  have hset : ∀ j, ((s.setServer g (some srv')).take (.dispatch f)).account j =
      { (s.setServer g (some srv')).account j with
        inFlight := ((s.setServer g (some srv')).take (.dispatch f)).inFlight j } := by
    intro j
    simp only [System.account, hpings, hans]
    rfl
  refine .one g rfl ?_ fun j h => ?_
  · -- the job leaves the network as the process takes it
    have hg := hin g
    rw [if_pos rfl] at hg
    rw [hset, s.account_setServer, if_pos rfl, s.account_of_server g hs]
    simp only [Account.run, Option.elim, hp, hh, System.account, ← hg]
    exact .receive
  · have hj := hin j
    rw [if_neg (Ne.symm h), Nat.add_zero] at hj
    rw [hset, s.account_setServer, if_neg h, hj]
    rfl

theorem booked_die (g : Fin D.hosts) : Booked s (.die g) (s.setServer g none) := by
  refine .one g rfl ?_ fun j h => by rw [s.account_setServer, if_neg h]
  rw [s.account_setServer, if_pos rfl]
  exact .die rfl

/-- **Every change is booked.** -/
theorem Change.booked (hs : Sound s) (hc : Change s e s') : Booked s e s' := by
  cases hc with
  | idle => exact .flow rfl fun _ => .still _
  | client j => exact .flow rfl fun g => s.account_send_job g j ▸ .still _
  | start g hn => exact booked_start hn rfl
  | quiet e g srv srv' hsrv ha =>
      have hok := hs.servers g srv hsrv
      exact booked_quiet hok hsrv (ha.effect hok).2
  | sent e p srv srv' hg hsrv ha => exact booked_sent hsrv (ha.effect (hs.servers _ srv hsrv)).2
  | receive g f srv srv' hm hf hsrv hr =>
      have he := Server.recvfrom_effect (hs.servers g srv hsrv) (data_ne_nil (hs.whole f hm)) hr
      exact booked_receive hm hf hsrv he.2.1 he.2.2
  | balance m f tail hf hm => exact .balance m f (some tail) hf hm rfl
  | die g => exact booked_die g
  | reload => exact .reload rfl rfl

end

end EbpfLb
