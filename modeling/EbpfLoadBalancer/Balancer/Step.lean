import EbpfLoadBalancer.Support.Machine
import EbpfLoadBalancer.Balancer.Select
import EbpfLoadBalancer.Balancer.Rewrite

/-!
# Balancer — what one frame can do

`loadBalancer` as a machine (`lb`), and the inversion of its step.  A frame is a ping, a job or
neither (`IsPing`, `IsJob`), decided by its headers and length alone.  `Move` lists the eight
things a step can do, each with the branch's guard, the maps it leaves, the frame it returns and
the places it passes; `loadBalancer_move` says every step is one of them.

The one hypothesis is `CreditBound`: with every credit at most `MAX_THREADS` the increment does
not wrap, so a completion leaves its own slot with a credit and the selection after it succeeds.
It holds of the maps as loaded and is kept by every step (`Credits.lean`).  Without it there is one
thing more (`AnyMove`), an increment that wraps to zero and leaves nobody to take the job.
-/

namespace EbpfLb
open Bpf

/-- A frame, and the outcome of the one call of `bpf_xdp_adjust_tail` its step may make. -/
structure Input where
  frame : Frame
  tail : Option (Vector U8 7)

/-- The balancer, run once per frame. -/
def lb : Machine Maps Input Outcome where
  out m i := loadBalancer i.tail m i.frame
  next o := o.maps

theorem lb_step (m : Maps) (i : Input) : lb.step m i = (loadBalancer i.tail m i.frame).maps := rfl

/-! ### Pings and jobs -/

/-- The frame passes every test up to the payload's: EtherType, protocol and destination port. -/
def Addressed (f : Bytes) : Prop :=
  42 ≤ f.length ∧ bpfNtohs (ethProto f) = ethPIp ∧ ipProtocol f = ipprotoUdp ∧
    bpfNtohs (udpDest f) = 8080#16

/-- A frame taken for a backend's ping. -/
def IsPing (f : Bytes) : Prop := Addressed f ∧ payloadSize f = 1#32

/-- A frame taken for a client's job. -/
def IsJob (f : Bytes) : Prop := Addressed f ∧ payloadSize f = 8#32

instance : DecidablePred Addressed := fun _ => inferInstanceAs (Decidable (_ ∧ _ ∧ _ ∧ _))
instance : DecidablePred IsPing := fun _ => inferInstanceAs (Decidable (_ ∧ _))
instance : DecidablePred IsJob := fun _ => inferInstanceAs (Decidable (_ ∧ _))

/-- Only the headers count. -/
theorem Addressed.congr {f g : Bytes} (h : Addressed f) (hl : 42 ≤ g.length)
    (hb : ∀ i < 42, f.byte i = g.byte i) : Addressed g := by
  have hload : ∀ w off, off + w / 8 ≤ 42 → g.load w off = f.load w off := fun w off ho =>
    Bytes.load_congr (Bytes.read_congr fun i hi => (hb (off + i) (by omega)).symm)
  obtain ⟨-, hi, hu, hd⟩ := h
  refine ⟨hl, ?_, ?_, ?_⟩
  · rwa [ethProto, hload 16 12 (by decide)]
  · rwa [ipProtocol, hload 8 23 (by decide)]
  · rwa [udpDest, hload 16 36 (by decide)]

theorem IsPing.not_isJob {f : Bytes} (h : IsPing f) : ¬ IsJob f := by
  intro h'
  have := h.2.symm.trans h'.2
  simp at this

theorem payloadSize_eq {f : Frame} (h : 42 ≤ f.bytes.length) {n : Nat} (hn : n < 2 ^ 32) :
    payloadSize f.bytes = BitVec.ofNat 32 n ↔ f.bytes.length = 42 + n := by
  have := f.fits
  rw [payloadSize, ← BitVec.toNat_inj, BitVec.toNat_ofNat, BitVec.toNat_ofNat,
    Nat.mod_eq_of_lt (by omega), Nat.mod_eq_of_lt hn]
  omega

theorem IsPing.length {f : Frame} (h : IsPing f.bytes) : f.bytes.length = 43 :=
  (payloadSize_eq h.1.1 (by decide)).mp h.2

theorem IsJob.length {f : Frame} (h : IsJob f.bytes) : f.bytes.length = 50 :=
  (payloadSize_eq h.1.1 (by decide)).mp h.2

section
variable (tail : Option (Vector U8 7)) (m : Maps) {f : Frame}

theorem loadBalancer_ping (h : IsPing f.bytes) :
    loadBalancer tail m f = backendPing tail { frame := f.bytes, maps := m } := by
  obtain ⟨⟨hl, hi, hu, hp⟩, hs⟩ := h
  simp [loadBalancer, hi, hu, hp, hs, show ¬ f.bytes.length < 14 by omega,
    show ¬ f.bytes.length < 34 by omega, show ¬ f.bytes.length < 42 by omega]

theorem loadBalancer_job (h : IsJob f.bytes) :
    loadBalancer tail m f = clientJob { frame := f.bytes, maps := m } := by
  obtain ⟨⟨hl, hi, hu, hp⟩, hs⟩ := h
  simp [loadBalancer, hi, hu, hp, hs, show ¬ f.bytes.length < 14 by omega,
    show ¬ f.bytes.length < 34 by omega, show ¬ f.bytes.length < 42 by omega]

/-- A frame cut short of a header the program reads. -/
def Truncated (f : Bytes) : Prop :=
  f.length < 14 ∨ bpfNtohs (ethProto f) = ethPIp ∧
    (f.length < 34 ∨ ipProtocol f = ipprotoUdp ∧ f.length < 42)

instance : DecidablePred Truncated := fun _ => inferInstanceAs (Decidable (_ ∨ _ ∧ (_ ∨ _ ∧ _)))

/-- A frame that is neither is let through as it came, or aborted when it is cut short. -/
theorem loadBalancer_other (hp : ¬ IsPing f.bytes) (hj : ¬ IsJob f.bytes) :
    loadBalancer tail m f =
      ⟨⟨f.bytes, m, []⟩, if Truncated f.bytes then .aborted else .pass⟩ := by
  unfold loadBalancer Truncated
  by_cases h₁ : f.bytes.length < 14
  · simp [h₁, Ctx.ret]
  by_cases h₂ : bpfNtohs (ethProto f.bytes) = ethPIp
  swap
  · simp [h₁, h₂, Ctx.ret]
  by_cases h₃ : f.bytes.length < 34
  · simp [h₁, h₂, h₃, Ctx.ret]
  by_cases h₄ : ipProtocol f.bytes = ipprotoUdp
  swap
  · simp [h₁, h₂, h₃, h₄, Ctx.ret]
  by_cases h₅ : f.bytes.length < 42
  · simp [h₁, h₂, h₃, h₄, h₅, Ctx.ret]
  by_cases h₆ : bpfNtohs (udpDest f.bytes) = 8080#16
  swap
  · simp [h₁, h₂, h₃, h₄, h₅, h₆, Ctx.ret]
  have ha : Addressed f.bytes := ⟨by omega, h₂, h₄, h₆⟩
  have hs₁ : payloadSize f.bytes ≠ 1#32 := fun h => hp ⟨ha, h⟩
  have hs₈ : payloadSize f.bytes ≠ 8#32 := fun h => hj ⟨ha, h⟩
  simp [h₁, h₂, h₃, h₄, h₅, h₆, hs₁, hs₈, Ctx.ret]

end

/-! ### The changes to the maps -/

/-- The slot after `free_threads++` and the clamp. -/
def DestInfo.credited (info : DestInfo) : DestInfo :=
  { info with freeThreads :=
      if info.freeThreads + 1#16 > maxThreads then maxThreads else info.freeThreads + 1#16 }

/-- The slot after `free_threads--`. -/
def DestInfo.charged (info : DestInfo) : DestInfo :=
  { info with freeThreads := info.freeThreads - 1#16 }

/-- What a registration stores for the ping `f`. -/
def newInfo (f : Bytes) : DestInfo := ⟨ipSaddr f, ipDaddr f, ethSource f, maxThreads⟩

namespace Maps
variable (m : Maps)

/-- The key a ping from `a` is taken to: the one on record, else the counter. -/
def keyOf (a : U32) : U32 := (m.ipToKey.lookup a).getD ((m.serverCnt 0).setWidth 32)

/-- The maps after that key is looked up: an address not on record is put on record. -/
def note (a : U32) : Maps :=
  if m.ipToKey.lookup a = none then { m with ipToKey := m.ipToKey.update a (m.keyOf a) } else m

def set (k : Slot) (info : DestInfo) : Maps :=
  { m with servers := Function.update m.servers k info }
def credit (k : Slot) : Maps := m.set k (m.servers k).credited
def charge (k : Slot) : Maps := m.set k (m.servers k).charged
def bump : Maps := { m with serverCnt := fun _ => m.serverCnt 0 + 1#16 }
def pushed (v : U64) : Maps := { m with queue := m.queue.push v }
def popped : Maps := { m with queue := (m.queue.pop 0).2 }

variable (a : U32) (k : Slot) (info : DestInfo) (v : U64)

@[simp] theorem note_servers : (m.note a).servers = m.servers := by rw [note]; split <;> rfl
@[simp] theorem note_serverCnt : (m.note a).serverCnt = m.serverCnt := by rw [note]; split <;> rfl
@[simp] theorem note_queue : (m.note a).queue = m.queue := by rw [note]; split <;> rfl
@[simp] theorem set_servers : (m.set k info).servers = Function.update m.servers k info := rfl
@[simp] theorem set_ipToKey : (m.set k info).ipToKey = m.ipToKey := rfl
@[simp] theorem set_serverCnt : (m.set k info).serverCnt = m.serverCnt := rfl
@[simp] theorem set_queue : (m.set k info).queue = m.queue := rfl
@[simp] theorem bump_servers : m.bump.servers = m.servers := rfl
@[simp] theorem bump_ipToKey : m.bump.ipToKey = m.ipToKey := rfl
@[simp] theorem bump_serverCnt (i : Fin 1) : m.bump.serverCnt i = m.serverCnt 0 + 1#16 := rfl
@[simp] theorem bump_queue : m.bump.queue = m.queue := rfl
@[simp] theorem pushed_servers : (m.pushed v).servers = m.servers := rfl
@[simp] theorem pushed_ipToKey : (m.pushed v).ipToKey = m.ipToKey := rfl
@[simp] theorem pushed_serverCnt : (m.pushed v).serverCnt = m.serverCnt := rfl
@[simp] theorem pushed_queue : (m.pushed v).queue = m.queue.push v := rfl
@[simp] theorem popped_servers : m.popped.servers = m.servers := rfl
@[simp] theorem popped_ipToKey : m.popped.ipToKey = m.ipToKey := rfl
@[simp] theorem popped_serverCnt : m.popped.serverCnt = m.serverCnt := rfl
@[simp] theorem popped_items : m.popped.queue.items = m.queue.items.tail := rfl
@[simp] theorem credit_ipToKey : (m.credit k).ipToKey = m.ipToKey := rfl
@[simp] theorem credit_serverCnt : (m.credit k).serverCnt = m.serverCnt := rfl
@[simp] theorem credit_queue : (m.credit k).queue = m.queue := rfl
@[simp] theorem charge_ipToKey : (m.charge k).ipToKey = m.ipToKey := rfl
@[simp] theorem charge_serverCnt : (m.charge k).serverCnt = m.serverCnt := rfl
@[simp] theorem charge_queue : (m.charge k).queue = m.queue := rfl

theorem note_of_known {m : Maps} {a : U32} (h : m.ipToKey.lookup a ≠ none) : m.note a = m :=
  if_neg h

/-- The slots do not see the index. -/
@[simp] theorem note_credit_servers :
    ((m.note a).credit k).servers = (m.credit k).servers := by
  rw [credit, credit, set_servers, set_servers, note_servers]

/-- A credit or a charge touches the credits of one slot. -/
theorem credit_servers (j : Slot) :
    (m.credit k).servers j = if j = k then (m.servers k).credited else m.servers j := by
  simp only [credit, set_servers, Function.update_apply]

theorem charge_servers (j : Slot) :
    (m.charge k).servers j = if j = k then (m.servers k).charged else m.servers j := by
  simp only [charge, set_servers, Function.update_apply]

end Maps

/-! ### The registration branch -/

/-- The step on `f` from `m` takes the registration branch. -/
def Registers (m : Maps) (f : Bytes) : Prop :=
  IsPing f ∧ (maxServers ≤ (m.keyOf (ipSaddr f)).toNat ∨
    ∃ k : Slot, m.keyOf (ipSaddr f) = slotKey k ∧ (m.servers k).saddr = 0#32)

/-- The step does not take the counter past its 16 bits. -/
def NoWrap (m : Maps) (i : Input) : Prop :=
  Registers m i.frame.bytes → m.serverCnt 0 ≠ 0xffff#16

instance (m : Maps) (f : Bytes) : Decidable (Registers m f) :=
  inferInstanceAs (Decidable (_ ∧ (_ ∨ ∃ _ : Slot, _ ∧ _)))

instance (m : Maps) (i : Input) : Decidable (NoWrap m i) := inferInstanceAs (Decidable (_ → _))

/-! ### The step -/

/-- Every slot has at most `MAX_THREADS` credits. -/
def CreditBound (m : Maps) : Prop := ∀ k : Slot, (m.servers k).freeThreads.toNat ≤ maxThreads.toNat

/-- What the step on `f` can do from `m`. -/
inductive Move (tail : Option (Vector U8 7)) (m : Maps) (f : Frame) : Outcome → Prop
  /-- Neither a ping nor a job. -/
  | other (hp : ¬ IsPing f.bytes) (hj : ¬ IsJob f.bytes) :
      Move tail m f
        ⟨⟨f.bytes, m, []⟩, if Truncated f.bytes then .aborted else .pass⟩
  /-- The registration branch, at a key past the last slot: only the counter moves. -/
  | refuse (hp : IsPing f.bytes) (hk : maxServers ≤ (m.keyOf (ipSaddr f.bytes)).toNat) :
      Move tail m f ⟨⟨f.bytes, (m.note (ipSaddr f.bytes)).bump, [.registered]⟩, .drop⟩
  /-- The registration branch, at an empty slot. -/
  | register (k : Slot) (hp : IsPing f.bytes) (hk : m.keyOf (ipSaddr f.bytes) = slotKey k)
      (h₀ : (m.servers k).saddr = 0#32) :
      Move tail m f
        ⟨⟨f.bytes, ((m.note (ipSaddr f.bytes)).set k (newInfo f.bytes)).bump, [.registered]⟩, .drop⟩
  /-- A completion with nothing waiting. -/
  | done (k : Slot) (hp : IsPing f.bytes) (hk : m.keyOf (ipSaddr f.bytes) = slotKey k)
      (hr : (m.servers k).saddr ≠ 0#32) (hq : m.queue.items = []) :
      Move tail m f
        ⟨⟨f.bytes, (m.note (ipSaddr f.bytes)).credit k, [.credit (slotKey k) (m.servers k)]⟩, .drop⟩
  /-- A completion, and the oldest job sent to the slot `j` selected after it. -/
  | drain (k j : Slot) (v : U64) (rest : List U64) (bs : Vector U8 7) (hp : IsPing f.bytes)
      (hk : m.keyOf (ipSaddr f.bytes) = slotKey k) (hr : (m.servers k).saddr ≠ 0#32)
      (hq : m.queue.items = v :: rest) (ht : tail = some bs)
      (hj : LeastLoaded (m.credit k).servers j) :
      Move tail m f
        ⟨⟨rewrite ((m.credit k).servers j).charged ((f.bytes ++ bs.toList).put 42 v),
          (((m.note (ipSaddr f.bytes)).credit k).popped).charge j,
          [.credit (slotKey k) (m.servers k), .charge (slotKey j) ((m.credit k).servers j)]⟩, .tx⟩
  /-- A completion whose frame does not grow: the oldest job is taken off and goes nowhere. -/
  | stuck (k : Slot) (hp : IsPing f.bytes) (hk : m.keyOf (ipSaddr f.bytes) = slotKey k)
      (hr : (m.servers k).saddr ≠ 0#32) (hq : m.queue.items ≠ []) (ht : tail = none) :
      Move tail m f
        ⟨⟨f.bytes, ((m.note (ipSaddr f.bytes)).credit k).popped,
          [.credit (slotKey k) (m.servers k)]⟩, .aborted⟩
  /-- A job sent straight to `k`. -/
  | send (k : Slot) (hj : IsJob f.bytes) (hk : LeastLoaded m.servers k) :
      Move tail m f
        ⟨⟨rewrite (m.servers k).charged f.bytes, m.charge k,
          [.charge (slotKey k) (m.servers k)]⟩, .tx⟩
  /-- A job with no backend free: pushed, if there is room. -/
  | wait (hj : IsJob f.bytes) (he : Exhausted m.servers) :
      Move tail m f ⟨⟨f.bytes, m.pushed (payload64 f.bytes), []⟩, .aborted⟩

/-- What it can do from any maps, within the bound or not: a move, or a completion whose increment
wraps and leaves nobody with a credit. -/
inductive AnyMove (tail : Option (Vector U8 7)) (m : Maps) (f : Frame) : Outcome → Prop
  | move {o : Outcome} (h : Move tail m f o) : AnyMove tail m f o
  | unavailable (k : Slot) (hp : IsPing f.bytes) (hk : m.keyOf (ipSaddr f.bytes) = slotKey k)
      (hr : (m.servers k).saddr ≠ 0#32) (hq : m.queue.items ≠ [])
      (he : Exhausted (m.credit k).servers) :
      AnyMove tail m f
        ⟨⟨f.bytes, (m.note (ipSaddr f.bytes)).credit k,
          [.credit (slotKey k) (m.servers k), .unavailable]⟩, .aborted⟩

theorem serverKey_eq (m : Maps) (a : U32) : serverKey m a = some (m.keyOf a, m.note a) := by
  have h0 : m.serverCnt.lookup 0#32 = some (m.serverCnt 0) := ArrayMap.lookup_of_lt (by decide)
  rw [serverKey]
  cases h : m.ipToKey.lookup a with
  | some key => simp [Maps.keyOf, Maps.note, h]
  | none => simp [Maps.keyOf, Maps.note, h, h0]

theorem register_eq (key : U32) (c : Ctx) :
    register key c =
      ⟨⟨c.frame,
        ({ c.maps with servers := c.maps.servers.update key (newInfo c.frame) } : Maps).bump,
        c.trace ++ [.registered]⟩, .drop⟩ := by
  have h0 : c.maps.serverCnt.lookup 0#32 = some (c.maps.serverCnt 0) :=
    ArrayMap.lookup_of_lt (by decide)
  have h1 : c.maps.serverCnt.update 0#32 (c.maps.serverCnt 0 + 1#16) =
      fun _ => c.maps.serverCnt 0 + 1#16 := by
    rw [ArrayMap.update_of_lt (by decide)]
    funext i
    rw [Subsingleton.elim i ⟨(0#32).toNat, by decide⟩, Function.update_self]
  simp only [register, Ctx.setServers, Ctx.mark, h0, h1]
  rfl

theorem sendToBackend_eq (k : Slot) (c : Ctx) :
    sendToBackend (slotKey k) c =
      ⟨⟨rewrite (c.maps.servers k).charged c.frame, c.maps.charge k,
        c.trace ++ [.charge (slotKey k) (c.maps.servers k)]⟩, .tx⟩ := by
  simp only [sendToBackend, lookup_slotKey, Ctx.mark, Ctx.setServers, update_slotKey]
  rfl

/-- The credits of a slot after the increment. -/
theorem credited_toNat {info : DestInfo} (h : info.freeThreads.toNat ≤ maxThreads.toNat) :
    info.credited.freeThreads.toNat = min (info.freeThreads.toNat + 1) maxThreads.toNat := by
  have hm : maxThreads.toNat = 5 := rfl
  have hs : (info.freeThreads + 1#16).toNat = info.freeThreads.toNat + 1 := by
    have h1 : (1#16).toNat = 1 := rfl
    rw [BitVec.toNat_add, h1]
    omega
  simp only [DestInfo.credited, gt_iff_lt, BitVec.lt_def, hs]
  split <;> omega

/-- The credits of a slot after the decrement. -/
theorem charged_toNat {info : DestInfo} (h : 0 < info.freeThreads.toNat) :
    info.charged.freeThreads.toNat = info.freeThreads.toNat - 1 := by
  have h1 : (1#16).toNat = 1 := rfl
  rw [DestInfo.charged, BitVec.toNat_sub_of_le (by rw [BitVec.le_def, h1]; omega), h1]

/-- A completion leaves its own slot with a credit. -/
theorem credit_not_exhausted {m : Maps} {k : Slot} (hm : CreditBound m)
    (hr : (m.servers k).saddr ≠ 0#32) : ¬ Exhausted (m.credit k).servers := by
  intro he
  have hc := he k (by rw [Maps.credit_servers, if_pos rfl]; exact hr)
  rw [Maps.credit_servers, if_pos rfl] at hc
  have := credited_toNat (hm k)
  rw [hc] at this
  have hx : maxThreads.toNat = 5 := rfl
  simp at this
  omega

section
variable {tail : Option (Vector U8 7)} {c : Ctx} {k j : Slot}

/-- The frame of a ping does not grow: the oldest job is off the queue when the bounds check
fails. -/
theorem sendQueued_stuck (key : U32) (hl : c.frame.length = 43) :
    sendQueued none key c = ⟨⟨c.frame, c.maps.popped, c.trace⟩, .aborted⟩ := by
  simp [sendQueued, bpfXdpAdjustTail, hl, Ctx.setQueue, dequeue, Ctx.ret, Maps.popped]

/-- It grows to 50 bytes, and the oldest job goes to `j`. -/
theorem sendQueued_grown (bs : Vector U8 7) (hl : c.frame.length = 43) {v : U64} {rest : List U64}
    (hv : c.maps.queue.items = v :: rest) :
    sendQueued (some bs) (slotKey j) c =
      ⟨⟨rewrite (c.maps.servers j).charged ((c.frame ++ bs.toList).put 42 v),
        c.maps.popped.charge j, c.trace ++ [.charge (slotKey j) (c.maps.servers j)]⟩, .tx⟩ := by
  have hg : (c.frame ++ bs.toList).length = 50 := by simp [hl]
  have hd : dequeue c.maps = (v, (c.maps.queue.pop 0#64).2) := by
    simp [dequeue, QueueMap.pop, hv]
  simp only [sendQueued, bpfXdpAdjustTail, hg, hd, Ctx.setQueue, sendToBackend_eq]
  rfl

theorem credited_eq (info : DestInfo) :
    (if info.freeThreads + 1#16 > maxThreads then { info with freeThreads := maxThreads } else
      { info with freeThreads := info.freeThreads + 1#16 }) = info.credited := by
  rw [DestInfo.credited]
  split <;> rfl

theorem complete_empty (hq : c.maps.queue.items = []) :
    complete tail (slotKey k) (c.maps.servers k) c =
      ⟨⟨c.frame, c.maps.credit k, c.trace ++ [.credit (slotKey k) (c.maps.servers k)]⟩, .drop⟩ := by
  have he : isQueueEmpty (c.maps.credit k) = true := by
    simpa [isQueueEmpty] using QueueMap.peek_eq_none_iff.mpr hq
  simp only [complete, Ctx.mark, Ctx.setServers, credited_eq, update_slotKey]
  exact if_pos he

/-- With jobs waiting, a backend is selected after the credit. -/
theorem complete_waiting {key : U32} (hq : c.maps.queue.items ≠ [])
    (hs : getAvailableBackend (c.maps.credit k).servers = (key, [])) :
    complete tail (slotKey k) (c.maps.servers k) c =
      let c : Ctx :=
        ⟨c.frame, c.maps.credit k, c.trace ++ [.credit (slotKey k) (c.maps.servers k)]⟩
      if key = -1#32 then (c.mark .unavailable).ret .aborted else sendQueued tail key c := by
  have he : ¬ isQueueEmpty (c.maps.credit k) = true := by
    simpa [isQueueEmpty] using fun h => hq (QueueMap.peek_eq_none_iff.mp h)
  have hset : Function.update c.maps.servers k (c.maps.servers k).credited =
      (c.maps.credit k).servers := rfl
  simp only [complete, Ctx.mark, Ctx.setServers, credited_eq, update_slotKey, hset, hs,
    List.append_nil]
  exact if_neg he

end

section
variable {tail : Option (Vector U8 7)} {m : Maps} {f : Frame}

/-- The completion branch, at a registered slot. -/
theorem complete_anyMove (hp : IsPing f.bytes) {k : Slot}
    (hk : m.keyOf (ipSaddr f.bytes) = slotKey k) (hr : (m.servers k).saddr ≠ 0#32) :
    AnyMove tail m f (complete tail (slotKey k) (m.servers k)
      { frame := f.bytes, maps := m.note (ipSaddr f.bytes) }) := by
  let c : Ctx := { frame := f.bytes, maps := m.note (ipSaddr f.bytes) }
  have hs : c.maps.servers = m.servers := m.note_servers _
  have hcs : (c.maps.credit k).servers = (m.credit k).servers := m.note_credit_servers _ k
  have hcq : (c.maps.credit k).queue.items = m.queue.items := by
    rw [Maps.credit_queue, Maps.note_queue]
  show AnyMove tail m f (complete tail (slotKey k) (m.servers k) c)
  rw [← hs]
  by_cases hq : m.queue.items = []
  · rw [complete_empty (hcq.trans hq), hs]
    exact .move (.done k hp hk hr hq)
  rcases getAvailableBackend_spec (m.credit k).servers with ⟨hn, he⟩ | ⟨j, hj, hlj⟩
  · rw [complete_waiting (hcq ▸ hq) (hcs ▸ hn), hs]
    exact .unavailable k hp hk hr hq he
  rw [complete_waiting (hcq ▸ hq) (hcs ▸ hj), hs]
  simp only [if_neg (slotKey_ne j)]
  cases tail with
  | none =>
      rw [sendQueued_stuck _ hp.length]
      exact .move (.stuck k hp hk hr hq rfl)
  | some bs =>
      obtain ⟨v, rest, hv⟩ := List.exists_cons_of_ne_nil hq
      rw [sendQueued_grown (c := ⟨c.frame, c.maps.credit k, _⟩) bs hp.length (hcq.trans hv), hcs]
      exact .move (.drain k j v rest bs hp hk hr hv rfl hlj)

theorem backendPing_anyMove (hp : IsPing f.bytes) :
    AnyMove tail m f (backendPing tail { frame := f.bytes, maps := m }) := by
  rw [backendPing, serverKey_eq]
  simp only [Maps.note_servers]
  by_cases hk : (m.keyOf (ipSaddr f.bytes)).toNat < maxServers
  · obtain ⟨k, hk⟩ := exists_slotKey hk
    simp only [hk, lookup_slotKey]
    split
    · rename_i h₀
      rw [register_eq, update_slotKey]
      exact .move (.register k hp hk h₀)
    · rename_i hr
      exact complete_anyMove hp hk hr
  · have hk := Nat.not_lt.mp hk
    simp only [ArrayMap.lookup_of_le hk, register_eq, ArrayMap.update_of_le hk]
    exact .move (.refuse hp hk)

/-- A job goes to the slot selected, or waits. -/
theorem clientJob_cases (hj : IsJob f.bytes) :
    (∃ k : Slot, LeastLoaded m.servers k ∧ clientJob { frame := f.bytes, maps := m } =
      ⟨⟨rewrite (m.servers k).charged f.bytes, m.charge k,
        [.charge (slotKey k) (m.servers k)]⟩, .tx⟩) ∨
    Exhausted m.servers ∧ clientJob { frame := f.bytes, maps := m } =
      ⟨⟨f.bytes, m.pushed (payload64 f.bytes), []⟩, .aborted⟩ := by
  rcases getAvailableBackend_spec m.servers with ⟨h, he⟩ | ⟨k, h, hk⟩
  · refine .inr ⟨he, ?_⟩
    simp only [clientJob, h, hj.length]
    rfl
  · refine .inl ⟨k, hk, ?_⟩
    simp only [clientJob, h, if_neg (slotKey_ne k), sendToBackend_eq]
    rfl

theorem clientJob_move (hj : IsJob f.bytes) :
    Move tail m f (clientJob { frame := f.bytes, maps := m }) := by
  rcases clientJob_cases hj with ⟨k, hk, e⟩ | ⟨he, e⟩
  · rw [e]
    exact .send k hj hk
  · rw [e]
    exact .wait hj he

/-- **Every step is a move, or finds nobody for the job it would take off the queue.** -/
theorem loadBalancer_anyMove (tail : Option (Vector U8 7)) (m : Maps) (f : Frame) :
    AnyMove tail m f (loadBalancer tail m f) := by
  by_cases hp : IsPing f.bytes
  · rw [loadBalancer_ping tail m hp]
    exact backendPing_anyMove hp
  · by_cases hj : IsJob f.bytes
    · rw [loadBalancer_job tail m hj]
      exact .move (clientJob_move hj)
    · rw [loadBalancer_other tail m hp hj]
      exact .move (.other hp hj)

/-- **Every step within the bound is a move.** -/
theorem loadBalancer_move (tail : Option (Vector U8 7)) (f : Frame) (hm : CreditBound m) :
    Move tail m f (loadBalancer tail m f) := by
  have h := loadBalancer_anyMove tail m f
  generalize loadBalancer tail m f = o at h
  cases h with
  | move h => exact h
  | unavailable k hp hk hr hq he =>
      -- the slot just credited is there to be selected
      exact absurd he (credit_not_exhausted hm hr)

end

end EbpfLb
