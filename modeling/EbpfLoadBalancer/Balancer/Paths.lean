import EbpfLoadBalancer.Balancer.Checksums
import EbpfLoadBalancer.Balancer.Provenance
import EbpfLoadBalancer.Model.Client

/-!
# Balancer — the two paths of a job

A job is sent straight from its client's frame, or from the queue in the frame of a completion that
has grown by seven bytes.  Both frames are rewritten towards the slot in the same way (`Delivers`),
so to one slot they come out alike, byte by byte, but for the checksums and for the fields no
rewriting touches, which each inherits from the frame it was written into
(`queued_like_direct`).
-/

namespace EbpfLb
open Bytes OnesComplement

/-- The step on `f` from `m` sends the job `v` that `f` carries to `k`. -/
structure SentDirect (tail : Option (Vector U8 7)) (m : Maps) (f : Frame) (k : Slot) (v : U64) :
    Prop where
  job : IsJob f.bytes
  value : payload64 f.bytes = v
  sent : (loadBalancer tail m f).verdict = .tx
  slot : ∃ info, .charge (slotKey k) info ∈ (loadBalancer tail m f).trace

/-- The step on the ping `g` from `m` sends the oldest job waiting, `v`, to `k`. -/
structure SentQueued (tail : Option (Vector U8 7)) (m : Maps) (g : Frame) (k : Slot) (v : U64) :
    Prop where
  ping : IsPing g.bytes
  oldest : m.queue.items.head? = some v
  sent : (loadBalancer tail m g).verdict = .tx
  slot : ∃ info, .charge (slotKey k) info ∈ (loadBalancer tail m g).trace

/-- A frame with the job `v` from the balancer at `mac` to the server in the slot `info`. -/
structure Delivers (info : DestInfo) (mac : Vector U8 6) (v : U64) (o : Bytes) : Prop where
  length : o.length = 50
  dest : ethDest o = info.dmac
  source : ethSource o = mac
  etherType : bpfNtohs (ethProto o) = ethPIp
  totLen : bpfNtohs (ipTotLen o) = 36#16
  protocol : ipProtocol o = ipprotoUdp
  saddr : ipSaddr o = info.daddr
  daddr : ipDaddr o = info.saddr
  port : bpfNtohs (udpDest o) = 8080#16
  len : bpfNtohs (udpLen o) = 16#16
  payload : payload64 o = v
  header : sum (words (o.read 14 20).toList) = 0xffff#16

/-- The bytes no rewriting touches and the program does not read: version and header length,
service, identification, fragment field, time to live and UDP source port. -/
def Inherited (i : Nat) : Prop :=
  (14 ≤ i ∧ i < 16) ∨ (18 ≤ i ∧ i < 23) ∨ (34 ≤ i ∧ i < 36)

/-! ### One frame -/

section
variable {info : DestInfo} {f : Bytes} {v : U64}

/-- A frame of 50 bytes to the balancer, rewritten towards a slot. -/
theorem delivers_rewrite {slot : DestInfo} (hi : info.identity = slot.identity)
    (hl : f.length = 50) (ha : Addressed f) (hv : payload64 f = v) :
    Delivers slot (ethDest f) v (rewrite info f) := by
  have hid : info.saddr = slot.saddr ∧ info.daddr = slot.daddr ∧ info.dmac = slot.dmac := by
    simpa only [DestInfo.identity, Prod.mk.injEq] using hi
  obtain ⟨hs, hd, hm⟩ := hid
  have hkept : ∀ w off, (∀ i < w / 8, ¬ Overwritten (off + i) ∧ ¬ InChecksum (off + i)) →
      (rewrite info f).load w off = f.load w off := fun w off h =>
    load_congr (read_congr fun i hi => byte_rewrite (h i hi).1 (h i hi).2)
  have h42 : 42 ≤ f.length := by omega
  obtain ⟨-, hether, hudp, hport⟩ := ha
  have hswap : ∀ a, bpfNtohs (bpfHtons a) = a := swap_swap
  refine ⟨by simpa using hl, ?_, ethSource_rewrite h42, ?_, ?_, ?_, ?_, ?_, ?_, ?_, ?_,
    header_sum_rewrite info h42⟩
  · rw [ethDest_rewrite h42, hm]
  · rwa [ethProto, hkept 16 12 fun i hi => by unfold Overwritten InChecksum; omega]
  · rw [ipTotLen_rewrite h42, hswap, hl]
  · rwa [ipProtocol, hkept 8 23 fun i hi => by unfold Overwritten InChecksum; omega]
  · rw [ipSaddr_rewrite h42, hd]
  · rw [ipDaddr_rewrite h42, hs]
  · rwa [udpDest, hkept 16 36 fun i hi => by unfold Overwritten InChecksum; omega]
  · rw [udpLen_rewrite h42, hswap, hl]
  · rw [payload64_rewrite, hv]

/-- Two frames that deliver the same job to the same slot differ in the inherited bytes and in the
checksums alone. -/
theorem Delivers.byte_eq {slot slot' : DestInfo} {mac : Vector U8 6} {o o' : Bytes}
    (h : Delivers slot mac v o) (h' : Delivers slot' mac v o')
    (hid : slot.identity = slot'.identity) {i : Nat} (hi : ¬ Inherited i)
    (hc : ¬ InChecksum i) : o.byte i = o'.byte i := by
  obtain ⟨hs, hd, hm⟩ : slot.saddr = slot'.saddr ∧ slot.daddr = slot'.daddr ∧
      slot.dmac = slot'.dmac := by
    simpa only [DestInfo.identity, Prod.mk.injEq] using hid
  have hfields : i < 6 ∨ 6 ≤ i ∧ i < 12 ∨ 12 ≤ i ∧ i < 14 ∨ 16 ≤ i ∧ i < 18 ∨ 23 ≤ i ∧ i < 24 ∨
      26 ≤ i ∧ i < 30 ∨ 30 ≤ i ∧ i < 34 ∨ 36 ≤ i ∧ i < 38 ∨ 38 ≤ i ∧ i < 40 ∨
      42 ≤ i ∧ i < 50 ∨ 50 ≤ i := by
    unfold Inherited at hi
    unfold InChecksum at hc
    omega
  rcases hfields with hi | hi | hi | hi | hi | hi | hi | hi | hi | hi | hi
  · exact byte_eq_of_read (h.dest.trans (hm.trans h'.dest.symm)) ⟨Nat.zero_le i, by omega⟩
  · exact byte_eq_of_read (h.source.trans h'.source.symm) hi
  · exact byte_eq_of_load (w := 16) rfl (swap_injective (h.etherType.trans h'.etherType.symm)) hi
  · exact byte_eq_of_load (w := 16) rfl (swap_injective (h.totLen.trans h'.totLen.symm)) hi
  · exact byte_eq_of_load (w := 8) rfl (h.protocol.trans h'.protocol.symm) hi
  · exact byte_eq_of_load (w := 32) rfl (h.saddr.trans (hd.trans h'.saddr.symm)) hi
  · exact byte_eq_of_load (w := 32) rfl (h.daddr.trans (hs.trans h'.daddr.symm)) hi
  · exact byte_eq_of_load (w := 16) rfl (swap_injective (h.port.trans h'.port.symm)) hi
  · exact byte_eq_of_load (w := 16) rfl (swap_injective (h.len.trans h'.len.symm)) hi
  · exact byte_eq_of_load (w := 64) rfl (h.payload.trans h'.payload.symm) hi
  · rw [byte_of_le (by rw [h.length]; exact hi), byte_of_le (by rw [h'.length]; exact hi)]

/-- A rewriting leaves the inherited bytes. -/
theorem byte_rewrite_inherited {i : Nat} (hi : Inherited i) :
    (rewrite info f).byte i = f.byte i := by
  unfold Inherited at hi
  exact byte_rewrite (by unfold Overwritten; omega) (by unfold InChecksum; omega)

end

/-! ### The two paths -/

section
variable {tail : Option (Vector U8 7)} {m : Maps} {f g : Frame} {k : Slot} {v : U64}

theorem SentDirect.frame_eq (h : SentDirect tail m f k v) :
    ∃ info, info.identity = (m.servers k).identity ∧
      (loadBalancer tail m f).frame = rewrite info f.bytes := by
  obtain ⟨hj, -, ht, info, hc⟩ := h
  rw [loadBalancer_job tail m hj] at ht hc ⊢
  rcases clientJob_cases (m := m) hj with ⟨j, -, e⟩ | ⟨-, e⟩
  · -- the one place marked is the charge of the slot sent to
    rw [e] at hc ⊢
    simp only [List.mem_singleton, Point.charge.injEq] at hc
    obtain rfl := slotKey_injective hc.1
    exact ⟨_, identity_charged _, rfl⟩
  · rw [e] at ht
    cases ht

theorem SentQueued.frame_eq (h : SentQueued tail m g k v) :
    ∃ (info : DestInfo) (bs : Vector U8 7), info.identity = (m.servers k).identity ∧
      (loadBalancer tail m g).frame = rewrite info ((g.bytes ++ bs.toList).put 42 v) := by
  obtain ⟨hp, hv, ht, info, hc⟩ := h
  have hmv := loadBalancer_anyMove tail m g
  generalize loadBalancer tail m g = o at hmv ht hc
  cases hmv with
  | unavailable => cases ht
  | move hmv =>
      cases hmv with
      | other hp' => exact absurd hp hp'
      | send _ hj | wait hj => exact absurd hj hp.not_isJob
      | refuse | register | done | stuck => cases ht
      | drain l j v' rest bs _ _ _ hq =>
          simp only [List.mem_cons, reduceCtorEq, List.not_mem_nil, or_false, false_or,
            Point.charge.injEq] at hc
          obtain rfl := slotKey_injective hc.1
          rw [hq, List.head?_cons, Option.some.injEq] at hv
          rw [hv]
          exact ⟨_, bs, by rw [identity_charged, identity_credit], rfl⟩

/-- The frame of a completion, grown and with the job in it. -/
theorem grown_ping (hp : IsPing g.bytes) (bs : Vector U8 7) (v : U64) :
    ((g.bytes ++ bs.toList).put 42 v).length = 50 ∧
      Addressed ((g.bytes ++ bs.toList).put 42 v) ∧
      payload64 ((g.bytes ++ bs.toList).put 42 v) = v ∧
      ∀ i < 42, ((g.bytes ++ bs.toList).put 42 v).byte i = g.bytes.byte i := by
  have hlen : ((g.bytes ++ bs.toList).put 42 v).length = 50 := by simp [hp.length]
  have hb : ∀ i < 42, ((g.bytes ++ bs.toList).put 42 v).byte i = g.bytes.byte i := by
    intro i hi
    rw [byte_put_disjoint _ _ (.inl hi), byte_append (by rw [hp.length]; omega)]
  refine ⟨hlen, hp.1.congr (by omega) fun i hi => (hb i hi).symm, ?_, hb⟩
  exact load_put_same _ v rfl (by rw [← length_put _ 42 v, hlen])

end

/-- **The queue path sends what the direct path would have sent.**  Whatever the maps, a job sent
to a slot straight from a client's frame and the same job sent there from the queue, in the frame
of a completion to the same balancer, go out in frames of 50 bytes that agree in every byte but
those of the checksums and those each inherits from its carrier; the header of each sums to all
ones, and the server decodes from both the number the client encoded. -/
theorem queued_like_direct {t₁ t₂ : Option (Vector U8 7)} {m₁ m₂ : Maps} {f g : Frame} {k : Slot}
    {v : U64} (hd : SentDirect t₁ m₁ f k v) (hq : SentQueued t₂ m₂ g k v)
    (hid : (m₁.servers k).identity = (m₂.servers k).identity)
    (hmac : ethDest f.bytes = ethDest g.bytes) :
    Delivers (m₁.servers k) (ethDest f.bytes) v (loadBalancer t₁ m₁ f).frame ∧
    Delivers (m₂.servers k) (ethDest f.bytes) v (loadBalancer t₂ m₂ g).frame ∧
    (∀ i, ¬ Inherited i → ¬ InChecksum i →
      (loadBalancer t₁ m₁ f).frame.byte i = (loadBalancer t₂ m₂ g).frame.byte i) ∧
    (∀ i, Inherited i → (loadBalancer t₁ m₁ f).frame.byte i = f.bytes.byte i ∧
      (loadBalancer t₂ m₂ g).frame.byte i = g.bytes.byte i) ∧
    ∀ n < 2 ^ 64, (f.bytes.read 42 8).toList = toBytes n →
      fromBytes ((loadBalancer t₁ m₁ f).frame.read 42 8).toList = n ∧
        fromBytes ((loadBalancer t₂ m₂ g).frame.read 42 8).toList = n := by
  obtain ⟨i₁, h₁, e₁⟩ := hd.frame_eq
  obtain ⟨i₂, bs, h₂, e₂⟩ := hq.frame_eq
  obtain ⟨hlen, haddr, hpay, hb⟩ := grown_ping hq.ping bs v
  have hdest : ethDest ((g.bytes ++ bs.toList).put 42 v) = ethDest f.bytes := by
    rw [hmac]
    exact read_congr fun i hi => hb (0 + i) (by omega)
  have hdel₁ : Delivers (m₁.servers k) (ethDest f.bytes) v (loadBalancer t₁ m₁ f).frame := by
    rw [e₁]
    exact delivers_rewrite h₁ hd.job.length hd.job.1 hd.value
  have hdel₂ : Delivers (m₂.servers k) (ethDest f.bytes) v (loadBalancer t₂ m₂ g).frame := by
    rw [e₂, ← hdest]
    exact delivers_rewrite h₂ hlen haddr hpay
  have hsame := fun i => hdel₁.byte_eq hdel₂ hid (i := i)
  refine ⟨hdel₁, hdel₂, hsame, fun i hi => ?_, fun n hn hpayload => ?_⟩
  · constructor
    · rw [e₁, byte_rewrite_inherited hi]
    · rw [e₂, byte_rewrite_inherited hi]
      unfold Inherited at hi
      exact hb i (by omega)
  · have hread₁ : (loadBalancer t₁ m₁ f).frame.read 42 8 = f.bytes.read 42 8 := by
      rw [e₁, read_payload_rewrite (Nat.le_refl 42)]
    have hread₂ : (loadBalancer t₂ m₂ g).frame.read 42 8 =
        (loadBalancer t₁ m₁ f).frame.read 42 8 := by
      refine read_congr fun i hi => (hsame (42 + i) ?_ ?_).symm
      · unfold Inherited
        omega
      · unfold InChecksum
        omega
    rw [hread₂, hread₁, hpayload, fromBytes_toBytes hn]
    exact ⟨rfl, rfl⟩

/-- One host has registered. -/
def hostReady : Maps := lb.after Maps.empty [growing (pingFrom 1#32)]

/-- A job waits, and the host has registered after it. -/
def jobWaiting : Maps := lb.after Maps.empty [growing (jobOf 7#64), growing (pingFrom 1#32)]

theorem sentDirect_hostReady : SentDirect none hostReady (jobOf 7#64) 0 7#64 where
  job := isJob_jobOf _
  value := payload64_jobOf _
  sent := by decide +kernel
  slot := ⟨hostReady.servers 0, by decide +kernel⟩

theorem sentQueued_jobWaiting :
    SentQueued (growing (pingFrom 1#32)).tail jobWaiting (pingFrom 1#32) 0 7#64 where
  ping := isPing_pingFrom _
  oldest := by decide +kernel
  sent := by decide +kernel
  slot := ⟨(jobWaiting.credit 0).servers 0, by decide +kernel⟩

theorem queued_like_direct_hostReady :
    Delivers (hostReady.servers 0) (ethDest (jobOf 7#64).bytes) 7#64
      (loadBalancer none hostReady (jobOf 7#64)).frame ∧
    Delivers (jobWaiting.servers 0) (ethDest (jobOf 7#64).bytes) 7#64
      (loadBalancer (growing (pingFrom 1#32)).tail jobWaiting (pingFrom 1#32)).frame ∧
    (∀ i, ¬ Inherited i → ¬ InChecksum i →
      (loadBalancer none hostReady (jobOf 7#64)).frame.byte i =
        (loadBalancer (growing (pingFrom 1#32)).tail jobWaiting (pingFrom 1#32)).frame.byte i) ∧
    (∀ i, Inherited i →
      (loadBalancer none hostReady (jobOf 7#64)).frame.byte i = (jobOf 7#64).bytes.byte i ∧
      (loadBalancer (growing (pingFrom 1#32)).tail jobWaiting (pingFrom 1#32)).frame.byte i =
        (pingFrom 1#32).bytes.byte i) ∧
    ∀ n < 2 ^ 64, ((jobOf 7#64).bytes.read 42 8).toList = toBytes n →
      fromBytes ((loadBalancer none hostReady (jobOf 7#64)).frame.read 42 8).toList = n ∧
        fromBytes ((loadBalancer (growing (pingFrom 1#32)).tail jobWaiting
          (pingFrom 1#32)).frame.read 42 8).toList = n :=
  queued_like_direct sentDirect_hostReady sentQueued_jobWaiting (by decide +kernel)
    (by decide +kernel)

end EbpfLb
