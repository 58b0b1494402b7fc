import EbpfLoadBalancer.Balancer.Counter
import EbpfLoadBalancer.Protocol.Process
import Mathlib.Data.Multiset.Count

/-!
# Protocol — the balancer, the servers, the clients and the network

The whole system: the balancer's maps, one process of `server.py` or none at each host, and the
messages in flight, a multiset.  A message is a frame to the balancer, a client's job or a ping of
a host's process, or a frame the balancer has sent out.

An event names what happens next: a client sends, a process starts, a thread of it takes a step,
its main loop receives, the balancer runs on one frame, a process dies, the balancer is reloaded.
A frame that a socket builds is part of the event, any frame of its kind.  An event that is not
enabled leaves the system as it is, so every list of events is a run and the reachable states are
those of the enabled ones.

The network delivers every message once, in any order and after any delay: a message is in the
multiset until the step that takes it, also when the process it is for dies.  The tail grows
whenever it is asked to, by any seven bytes, and no sleep raises.  (In `Faults` none of the three
is granted.)  `Change` says what an event can do.
-/

namespace EbpfLb
open Bpf

/-! ### The system -/

/-- The hosts that run `server.py`: no more than there are slots, at distinct nonzero
addresses. -/
structure Deployment where
  hosts : Nat
  few : hosts ≤ maxServers
  addr : Fin hosts → U32
  injective : Function.Injective addr
  nonzero : ∀ h, addr h ≠ 0#32

/-- A frame with a client's job. -/
structure JobFrame where
  frame : Frame
  isJob : IsJob frame.bytes
  deriving DecidableEq

/-- A ping of the process number `gen` at a host, `'S'` or `'D'`. -/
structure Ping (D : Deployment) where
  host : Fin D.hosts
  gen : Nat
  byte : U8
  frame : Frame
  isPing : IsPing frame.bytes
  source : ipSaddr frame.bytes = D.addr host
  payload : frame.bytes.byte 42 = byte
  deriving DecidableEq

/-- A message in flight. -/
inductive Msg (D : Deployment)
  /-- A job, to the balancer. -/
  | job (j : JobFrame)
  /-- A ping, to the balancer. -/
  | ping (p : Ping D)
  /-- A job, to the host it is addressed to. -/
  | dispatch (f : Bytes)
  deriving DecidableEq

structure System (D : Deployment) where
  maps : Maps
  /-- How many processes have started at a host. -/
  gen : Fin D.hosts → Nat
  server : Fin D.hosts → Option Server
  net : Multiset (Msg D)

inductive Event (D : Deployment)
  | client (j : JobFrame)
  | start (h : Fin D.hosts)
  /-- The main thread of the process at `h` steps; if it sends, in the frame `f`. -/
  | main (h : Fin D.hosts) (f : Frame)
  /-- Its worker `i` steps. -/
  | work (h : Fin D.hosts) (i : Nat) (f : Frame)
  /-- Its main thread receives `f`. -/
  | receive (h : Fin D.hosts) (f : Bytes)
  /-- The balancer runs on the message `m`. -/
  | balance (m : Msg D) (tail : Vector U8 7)
  | die (h : Fin D.hosts)
  | reload

variable {D : Deployment}

/-- The frame of a message to the balancer. -/
def Msg.toBalancer : Msg D → Option Frame
  | job j => some j.frame
  | ping p => some p.frame
  | dispatch _ => none

namespace System

/-- Nothing has started. -/
def initial : System D := ⟨Maps.empty, fun _ => 0, fun _ => none, 0⟩

def send (s : System D) (m : Msg D) : System D := { s with net := m ::ₘ s.net }
def take (s : System D) (m : Msg D) : System D := { s with net := s.net.erase m }
def setServer (s : System D) (h : Fin D.hosts) (srv : Option Server) : System D :=
  { s with server := Function.update s.server h srv }

/-- The outcome of a step of a thread at `h`; a byte it sends travels in `f`. -/
def acted (s : System D) (h : Fin D.hosts) (f : Frame) : Option (Server × Option U8) → System D
  | none => s
  | some (srv, none) => s.setServer h (some srv)
  | some (srv, some b) =>
    if hf : IsPing f.bytes ∧ ipSaddr f.bytes = D.addr h ∧ f.bytes.byte 42 = b then
      (s.setServer h (some srv)).send (.ping ⟨h, s.gen h, b, f, hf.1, hf.2.1, hf.2.2⟩)
    else s

@[simp] theorem acted_maps (s : System D) (h : Fin D.hosts) (f : Frame)
    (r : Option (Server × Option U8)) : (s.acted h f r).maps = s.maps := by
  match r with
  | none | some (_, none) => rfl
  | some (srv, some b) =>
      rw [acted]
      split <;> rfl

/-- The balancer's outcome on the message `m`. -/
def balanced (s : System D) (m : Msg D) (o : Outcome) : System D :=
  let s := { s.take m with maps := o.maps }
  if o.verdict = .tx then s.send (.dispatch o.frame) else s

@[simp] theorem balanced_maps (s : System D) (m : Msg D) (o : Outcome) :
    (s.balanced m o).maps = o.maps := by
  rw [balanced]
  split <;> rfl

@[simp] theorem balanced_server (s : System D) (m : Msg D) (o : Outcome) :
    (s.balanced m o).server = s.server := by
  rw [balanced]
  split <;> rfl

@[simp] theorem balanced_gen (s : System D) (m : Msg D) (o : Outcome) :
    (s.balanced m o).gen = s.gen := by
  rw [balanced]
  split <;> rfl

/-- What `recvfrom` hands over of a frame. -/
def datagramOf (f : Bytes) : Datagram := ⟨f.drop 42, ipSaddr f, bpfNtohs (f.load 16 34)⟩

def step (s : System D) : Event D → System D
  | .client j => s.send (.job j)
  | .start h =>
    match s.server h with
    | none => { s.setServer h (some .fresh) with gen := Function.update s.gen h (s.gen h + 1) }
    | some _ => s
  | .main h f => s.acted h f ((s.server h).bind Server.main)
  | .work h i f => s.acted h f ((s.server h).bind fun srv => srv.work (fun _ => false) i)
  | .receive h f =>
    if .dispatch f ∈ s.net ∧ ipDaddr f = D.addr h then
      match (s.server h).bind fun srv => srv.recvfrom (datagramOf f) with
      | none => s
      | some srv => (s.setServer h (some srv)).take (.dispatch f)
    else s
  | .balance m tail =>
    match m.toBalancer with
    | none => s
    | some f => if m ∈ s.net then s.balanced m (loadBalancer (some tail) s.maps f) else s
  | .die h => s.setServer h none
  | .reload => { s with maps := Maps.empty }

end System

/-- The system, one event after the other. -/
def protocol (D : Deployment) : Machine (System D) (Event D) (System D) where
  out := System.step
  next := id

/-! ### What an event can do -/

/-- A thread of the process steps. -/
def Server.Acts (s s' : Server) (o : Option U8) : Prop :=
  s.main = some (s', o) ∨ ∃ i, s.work (fun _ => false) i = some (s', o)

theorem Server.Acts.effect {s s' : Server} {o : Option U8} (ha : s.Acts s' o) (h : s.Ok) :
    s'.Ok ∧ s.Effect s' o := by
  rcases ha with hm | ⟨i, hw⟩
  · exact main_effect h hm
  · exact work_effect h hw

/-- The changes the event `e` can make. -/
inductive Change (s : System D) : Event D → System D → Prop
  /-- The event is not enabled. -/
  | idle (e) : Change s e s
  | client (j : JobFrame) : Change s (.client j) (s.send (.job j))
  | start (h : Fin D.hosts) (hn : s.server h = none) :
      Change s (.start h)
        { s.setServer h (some .fresh) with gen := Function.update s.gen h (s.gen h + 1) }
  | quiet (e) (h : Fin D.hosts) (srv srv' : Server) (hs : s.server h = some srv)
      (ha : srv.Acts srv' none) : Change s e (s.setServer h (some srv'))
  | sent (e) (p : Ping D) (srv srv' : Server) (hg : p.gen = s.gen p.host)
      (hs : s.server p.host = some srv) (ha : srv.Acts srv' (some p.byte)) :
      Change s e ((s.setServer p.host (some srv')).send (.ping p))
  | receive (h : Fin D.hosts) (f : Bytes) (srv srv' : Server) (hm : .dispatch f ∈ s.net)
      (hf : ipDaddr f = D.addr h) (hs : s.server h = some srv)
      (hr : srv.recvfrom (System.datagramOf f) = some srv') :
      Change s (.receive h f) ((s.setServer h (some srv')).take (.dispatch f))
  | balance (m : Msg D) (f : Frame) (tail : Vector U8 7) (hf : m.toBalancer = some f)
      (hm : m ∈ s.net) :
      Change s (.balance m tail) (s.balanced m (loadBalancer (some tail) s.maps f))
  | die (h : Fin D.hosts) : Change s (.die h) (s.setServer h none)
  | reload : Change s .reload { s with maps := Maps.empty }

theorem change_acted {s : System D} (e : Event D) (h : Fin D.hosts) (f : Frame) {srv : Server}
    (hs : s.server h = some srv) {r : Option (Server × Option U8)}
    (hr : ∀ srv' o, r = some (srv', o) → srv.Acts srv' o) : Change s e (s.acted h f r) := by
  rw [System.acted.eq_def]
  split
  · exact .idle e
  · exact .quiet e h srv _ hs (hr _ _ rfl)
  · split
    · rename_i b hf
      exact .sent e ⟨h, s.gen h, b, f, hf.1, hf.2.1, hf.2.2⟩ srv _ rfl hs (hr _ _ rfl)
    · exact .idle e

/-- **Every step of the system is one of the changes.** -/
theorem protocol_change (s : System D) (e : Event D) : Change s e ((protocol D).step s e) := by
  show Change s e (s.step e)
  cases e with
  | client j => exact .client j
  | start h =>
      rw [System.step]
      split
      · exact .start h ‹_›
      · exact .idle _
  | main h f =>
      cases hs : s.server h with
      | none =>
          rw [System.step, hs]
          exact .idle _
      | some srv =>
          rw [System.step, hs]
          exact change_acted _ h f hs fun srv' o hr => .inl hr
  | work h i f =>
      cases hs : s.server h with
      | none =>
          rw [System.step, hs]
          exact .idle _
      | some srv =>
          rw [System.step, hs]
          exact change_acted _ h f hs fun srv' o hr => .inr ⟨i, hr⟩
  | receive h f =>
      rw [System.step]
      split
      · rename_i hf
        split
        · exact .idle _
        · rename_i srv' hr
          obtain ⟨srv, hs, hr⟩ := Option.bind_eq_some_iff.mp hr
          exact .receive h f srv srv' hf.1 hf.2 hs hr
      · exact .idle _
  | balance m tail =>
      rw [System.step]
      split
      · exact .idle _
      · rename_i f hf
        split
        · exact .balance m f tail hf ‹_›
        · exact .idle _
  | die h => exact .die h
  | reload => exact .reload

end EbpfLb
