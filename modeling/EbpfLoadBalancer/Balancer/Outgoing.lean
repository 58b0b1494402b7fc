import EbpfLoadBalancer.Balancer.Paths
import EbpfLoadBalancer.Balancer.Traffic

/-!
# Balancer — what it sends out is well formed

The program reads headers at fixed offsets and rewrites some of their fields, so what leaves it is
only as good as what came in.  From a plain frame it is a plain frame again, a datagram of eight
bytes to port 8080 whose header sums to all ones, and the eight bytes are those of one job that a
client sent (`sent_well_formed`): read by the same rules it came in by, the output is a job
(`Delivers.isJob`).  The one field that may be wrong is the UDP checksum, by the carries of what it
covers.
-/

namespace EbpfLb
open Bpf Bytes OnesComplement

section
variable {slot info : DestInfo} {mac : Vector U8 6} {v : U64} {f g o : Bytes}

/-- What is delivered is a job by the rules of the parser. -/
theorem Delivers.isJob (h : Delivers slot mac v o) : IsJob o := by
  refine ⟨⟨by rw [h.length]; decide, h.etherType, h.protocol, h.port⟩, ?_⟩
  rw [payloadSize, h.length]

/-- Bytes of the version, the header length and the fragment field. -/
def InShape (i : Nat) : Prop := i = 14 ∨ i = 20 ∨ i = 21

theorem InShape.inherited {i : Nat} (hi : InShape i) : Inherited i := by
  unfold InShape at hi
  unfold Inherited
  omega

/-- A delivered frame is plain, if it has its shape from a plain one. -/
theorem Delivers.plain (h : Delivers slot mac v o) (hg : Plain g)
    (hb : ∀ i, InShape i → o.byte i = g.byte i) : Plain o where
  version := by
    have hv := hg.version
    rwa [ipVersion, ← hb 14 (.inl rfl)] at hv
  ihl := by
    have hi := hg.ihl
    rwa [ipIhl, ← hb 14 (.inl rfl)] at hi
  whole := by
    have hfrag : ipFragOff o = ipFragOff g := by
      refine congrArg bpfNtohs (load_congr (read_congr fun i hi => hb (20 + i) ?_))
      have : i = 0 ∨ i = 1 := by omega
      rcases this with rfl | rfl
      · exact .inr (.inl rfl)
      · exact .inr (.inr rfl)
    rw [hfrag]
    exact hg.whole
  udpLength := by
    rw [h.len, h.length]
    rfl
  totLength := by
    rw [h.totLen, h.length]
    rfl

/-- The frame with its UDP checksum field cleared. -/
def uncheck (f : Bytes) : Bytes := f.put 40 0#16

/-- A field that is overwritten twice holds what was written last. -/
theorem uncheck_put (hf : f.load 16 40 = 0#16) (hl : 42 ≤ f.length) (c : U16) :
    uncheck (f.put 40 c) = f := by
  have hstore : ∀ c : U16, (toLE (16 / 8) c.toNat).length = 2 := fun c => length_toLE ..
  refine ext_byte (by simp [uncheck]) fun i => ?_
  by_cases hi : 40 ≤ i ∧ i < 42
  · have hload : (uncheck (f.put 40 c)).load 16 40 = f.load 16 40 := by
      rw [hf]
      exact load_put_same _ _ rfl (by simpa using hl)
    exact byte_eq_of_load rfl hload hi
  · rw [uncheck, byte_put_disjoint _ _ (by omega), byte_put_disjoint _ _ (by omega)]

/-- The receiver accepts a rewritten frame exactly when what its checksum covers adds up without a
carry, or to a sum cut to all ones. -/
theorem verifies_rewrite_iff (hl : g.length = 50) (hp : ipProtocol g = ipprotoUdp) :
    Verifies (rewrite info g) ↔
      total (covered (uncheck (rewrite info g))) < 65536 ∨
        total (covered (uncheck (rewrite info g))) % 65536 = 65535 := by
  have hu : Unchecked (unsummed info g) :=
    unchecked_unsummed (by omega) (by rw [hl]; decide) hp
  rw [rewrite_eq, uncheck_put hu.check hu.header]
  exact verifies_put_iff hu

end

/-! ### One step -/

/-- What a server can expect of a frame sent to it: its address and port, a header and lengths that
are right, and a checksum that is, but for the carries. -/
structure WellFormed (f : Bytes) : Prop where
  plain : Plain f
  datagram : OwnDatagram f 8
  header : sum (words (f.read 14 20).toList) = 0xffff#16
  checksum : Verifies f ↔
    total (covered (uncheck f)) < 65536 ∨ total (covered (uncheck f)) % 65536 = 65535

section
variable {tail : Option (Vector U8 7)} {m : Maps} {f : Frame} {o : Outcome}

theorem Delivers.wellFormed {slot info : DestInfo} {mac : Vector U8 6} {v : U64} {g : Bytes}
    (h : Delivers slot mac v (rewrite info g)) (hf : Plain f.bytes) (hg : g.length = 50)
    (hu : ipProtocol g = ipprotoUdp) (hb : ∀ i, InShape i → g.byte i = f.bytes.byte i) :
    WellFormed (rewrite info g) := by
  have hplain : Plain (rewrite info g) := h.plain hf fun i hi =>
    (byte_rewrite_inherited hi.inherited).trans (hb i hi)
  let o : Frame := ⟨rewrite info g, by rw [h.length]; decide⟩
  exact ⟨hplain, (isJob_iff_ownDatagram (f := o) hplain).mp h.isJob, h.header,
    verifies_rewrite_iff hg hu⟩

/-- What a step sends, from a plain frame: the job of that frame, or the oldest waiting. -/
theorem Move.wellFormed (h : Move tail m f o) (hf : Plain f.bytes) (ht : o.verdict = .tx) :
    WellFormed o.frame ∧
      (IsJob f.bytes ∧ payload64 o.frame = payload64 f.bytes ∨
        payload64 o.frame ∈ m.queue.items) := by
  cases h with
  | other => split at ht <;> cases ht
  | refuse | register | done | stuck | wait => cases ht
  | drain k j v rest bs hp hk hr hq ht' hj =>
      obtain ⟨hlen, haddr, hpay, hb⟩ := grown_ping hp bs v
      have hdel := delivers_rewrite (identity_charged ((m.credit k).servers j)) hlen haddr hpay
      refine ⟨hdel.wellFormed hf hlen haddr.2.2.1 fun i hi => hb i ?_, .inr ?_⟩
      · unfold InShape at hi
        omega
      · rw [hdel.payload, hq]
        exact List.mem_cons_self
  | send k hj hk =>
      have hdel := delivers_rewrite (identity_charged (m.servers k)) hj.length hj.1 rfl
      exact ⟨hdel.wellFormed hf hj.length hj.1.2.2.1 fun _ _ => rfl, .inl ⟨hj, hdel.payload⟩⟩

/-- What waits after a step has waited before it or is the job of its frame. -/
theorem Move.mem_queue (h : Move tail m f o) {v : U64} (hv : v ∈ o.maps.queue.items) :
    v ∈ m.queue.items ∨ IsJob f.bytes ∧ v = payload64 f.bytes := by
  cases h with
  | other => exact .inl hv
  | refuse | register | done | send => exact .inl (by simpa using hv)
  | drain | stuck => exact .inl (List.mem_of_mem_tail (by simpa using hv))
  | wait hj =>
      rw [Maps.pushed_queue, QueueMap.items_push] at hv
      split at hv
      · rcases List.mem_append.mp hv with hold | hnew
        · exact .inl hold
        · exact .inr ⟨hj, List.mem_singleton.mp hnew⟩
      · exact .inl hv

end

/-! ### Along a run -/

/-- Every job that waits came in a client's frame. -/
theorem waiting_after (is : List Input) :
    ∀ v ∈ (lb.after Maps.empty is).queue.items,
      ∃ j ∈ is, IsJob j.frame.bytes ∧ payload64 j.frame.bytes = v := by
  refine lb.after_induction (P := fun is m => ∀ v ∈ m.queue.items,
    ∃ j ∈ is, IsJob j.frame.bytes ∧ payload64 j.frame.bytes = v) ?_ ?_ is
  · exact fun v hv => absurd hv List.not_mem_nil
  · intro is i ih v hv
    rcases (lb_move is i).mem_queue hv with hold | ⟨hj, rfl⟩
    · obtain ⟨j, hmem, hj, rfl⟩ := ih v hold
      exact ⟨j, List.mem_append_left _ hmem, hj, rfl⟩
    · exact ⟨i, by simp, hj, rfl⟩

/-- **Well formed in, well formed out.**  In every run, whatever came before: what is sent out on a
plain frame is a plain datagram of eight bytes to port 8080, its header sums to all ones, its UDP
checksum is accepted but for the carries, and its payload is that of a job the run has received. -/
theorem sent_well_formed (is : List Input) {i : Input} (hp : Plain i.frame.bytes)
    (ht : (lb.out (lb.after Maps.empty is) i).verdict = .tx) :
    WellFormed (lb.out (lb.after Maps.empty is) i).frame ∧
      ∃ j ∈ is ++ [i], IsJob j.frame.bytes ∧
        payload64 (lb.out (lb.after Maps.empty is) i).frame = payload64 j.frame.bytes := by
  obtain ⟨hform, hpay⟩ := (lb_move is i).wellFormed hp ht
  refine ⟨hform, ?_⟩
  rcases hpay with ⟨hj, e⟩ | hq
  · exact ⟨i, by simp, hj, e⟩
  · obtain ⟨j, hmem, hj, e⟩ := waiting_after is _ hq
    exact ⟨j, List.mem_append_left _ hmem, hj, e.symm⟩

/-- A job waits, and the host has registered after it. -/
def jobThenHost : List Input := [growing (jobOf 7#64), growing (pingFrom 1#32)]

theorem plain_pingFrom : Plain (pingFrom 1#32).bytes := by
  constructor <;> decide +kernel

theorem sent_well_formed_jobThenHost :
    WellFormed (lb.out (lb.after Maps.empty jobThenHost) (growing (pingFrom 1#32))).frame ∧
      ∃ j ∈ jobThenHost ++ [growing (pingFrom 1#32)], IsJob j.frame.bytes ∧
        payload64 (lb.out (lb.after Maps.empty jobThenHost) (growing (pingFrom 1#32))).frame =
          payload64 j.frame.bytes :=
  sent_well_formed jobThenHost plain_pingFrom (by decide +kernel)

end EbpfLb
