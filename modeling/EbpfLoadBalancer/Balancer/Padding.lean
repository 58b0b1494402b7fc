import EbpfLoadBalancer.Balancer.Traffic

/-!
# Balancer — trailing padding

A link pads short frames with bytes past the end of the datagram.  The program takes the payload's
size from the end of the buffer, so the padding counts: a datagram of `n` bytes in a frame with
`p` bytes after it is a ping when `n + p` is one and a job when it is eight (`isPing_padded`,
`isJob_padded`).

A ping, a job and a frame that is neither are never treated alike, whatever the maps hold
(`ping_other_differ`, `job_other_differ`, `ping_job_differ`); so padding leaves the decision
as it was exactly when there is none or the datagram is neither with it and without it
(`padding_ignored_iff`).
-/

namespace EbpfLb
open Bytes

/-- An IPv4 packet with a header of 20 bytes that carries UDP to port 8080, with `n` bytes of
payload by its length fields and nothing after them. -/
structure Unpadded (f : Bytes) (n : Nat) : Prop where
  addressed : Addressed f
  version : ipVersion f = 4
  ihl : ipIhl f = 5
  udpLength : (bpfNtohs (udpLen f)).toNat = 8 + n
  totLength : (bpfNtohs (ipTotLen f)).toNat = 28 + n
  length : f.length = 42 + n

/-- The IPv4 packet in the frame, by its total length. -/
def ipPacket (f : Bytes) : Bytes := (f.drop 14).take (bpfNtohs (ipTotLen f)).toNat

/-- Two outcomes with the same verdict and the same maps, and that transmit the same packet. -/
structure SameDecision (o o' : Outcome) : Prop where
  verdict : o.verdict = o'.verdict
  maps : o.maps = o'.maps
  packet : o.verdict = .tx → ipPacket o.frame = ipPacket o'.frame

/-! ### The three kinds of frame are treated differently -/

section
variable (tail : Option (Vector U8 7)) (m : Maps) {f g : Frame}

/-- Where a ping ends: in a `XDP_DROP`, with a job off the queue, or with a backend's increment
that wraps. -/
theorem ping_ends (hp : IsPing f.bytes) :
    (loadBalancer tail m f).verdict = .drop ∨
    (loadBalancer tail m f).verdict ≠ .pass ∧
      (loadBalancer tail m f).maps.queue.items.length < m.queue.items.length ∨
    (loadBalancer tail m f).verdict = .aborted ∧ ¬ Exhausted m.servers := by
  have hmv := loadBalancer_anyMove tail m f
  generalize loadBalancer tail m f = o at hmv
  cases hmv with
  | move h =>
      cases h with
      | other hp' => exact absurd hp hp'
      | send _ hj | wait hj => exact absurd hj hp.not_isJob
      | refuse | register | done => exact .inl rfl
      | drain k j v rest bs _ _ _ hq =>
          refine .inr (.inl ⟨nofun, ?_⟩)
          simp [hq]
      | stuck k _ _ _ hq =>
          have hpos := List.length_pos_iff.mpr hq
          refine .inr (.inl ⟨nofun, ?_⟩)
          simp only [Maps.popped_items, Maps.credit_queue, Maps.note_queue, List.length_tail]
          omega
  | unavailable k _ _ hr _ he =>
      refine .inr (.inr ⟨rfl, fun hex => ?_⟩)
      -- a slot with no credit has one after the increment
      have hle : (m.servers k).freeThreads.toNat ≤ maxThreads.toNat := by
        rw [hex k hr]
        decide
      have hc := credited_toNat hle
      have hz := he k (by rw [Maps.credit_servers, if_pos rfl]; exact hr)
      rw [Maps.credit_servers, if_pos rfl] at hz
      rw [hz, hex k hr] at hc
      exact absurd hc (by decide)

/-- Where a job ends: sent, or waiting for want of a backend. -/
theorem job_ends (hj : IsJob f.bytes) :
    m.queue.items.length ≤ (loadBalancer tail m f).maps.queue.items.length ∧
    ((loadBalancer tail m f).verdict = .tx ∨
      (loadBalancer tail m f).verdict = .aborted ∧ Exhausted m.servers) := by
  rw [loadBalancer_job tail m hj]
  rcases clientJob_cases (m := m) hj with ⟨k, -, e⟩ | ⟨he, e⟩
  · rw [e]
    exact ⟨Nat.le_refl _, .inl rfl⟩
  · rw [e]
    refine ⟨?_, .inr ⟨rfl, he⟩⟩
    rw [Maps.pushed_queue, Bpf.QueueMap.items_push]
    split <;> simp

/-- A frame that is neither, with its headers whole, is let through. -/
theorem other_passes (ha : Addressed f.bytes) (hp : ¬ IsPing f.bytes) (hj : ¬ IsJob f.bytes) :
    loadBalancer tail m f = ⟨⟨f.bytes, m, []⟩, .pass⟩ := by
  obtain ⟨hl, hi, hu, -⟩ := ha
  have hwhole : ¬ Truncated f.bytes := by
    rintro (h | ⟨-, h | ⟨-, h⟩⟩) <;> omega
  rw [loadBalancer_other tail m hp hj, if_neg hwhole]

variable {tail m}

theorem SameDecision.symm {o o' : Outcome} (h : SameDecision o o') : SameDecision o' o :=
  ⟨h.verdict.symm, h.maps.symm, fun ht => (h.packet (h.verdict.trans ht)).symm⟩

theorem ping_other_differ (hp : IsPing f.bytes) (ha : Addressed g.bytes) (hp' : ¬ IsPing g.bytes)
    (hj' : ¬ IsJob g.bytes) : ¬ SameDecision (loadBalancer tail m f) (loadBalancer tail m g) := by
  intro h
  have hv := h.verdict
  rw [other_passes tail m ha hp' hj'] at hv
  rcases ping_ends tail m hp with e | ⟨e, -⟩ | ⟨e, -⟩
  · cases e.symm.trans hv
  · exact e hv
  · cases e.symm.trans hv

theorem job_other_differ (hj : IsJob f.bytes) (ha : Addressed g.bytes) (hp' : ¬ IsPing g.bytes)
    (hj' : ¬ IsJob g.bytes) : ¬ SameDecision (loadBalancer tail m f) (loadBalancer tail m g) := by
  intro h
  have hv := h.verdict
  rw [other_passes tail m ha hp' hj'] at hv
  rcases (job_ends tail m hj).2 with e | ⟨e, -⟩
  · cases e.symm.trans hv
  · cases e.symm.trans hv

theorem ping_job_differ (hp : IsPing f.bytes) (hj : IsJob g.bytes) :
    ¬ SameDecision (loadBalancer tail m f) (loadBalancer tail m g) := by
  intro h
  have hv := h.verdict
  obtain ⟨hlen, hend⟩ := job_ends tail m hj
  rcases ping_ends tail m hp with e | ⟨-, hlt⟩ | ⟨e, hex⟩
  · rw [e] at hv
    rcases hend with e' | ⟨e', -⟩
    · cases hv.trans e'
    · cases hv.trans e'
  · -- the ping took a job off the queue
    rw [h.maps] at hlt
    omega
  · rw [e] at hv
    rcases hend with e' | ⟨-, he⟩
    · cases hv.trans e'
    · exact hex he

end

/-! ### Padding -/

section
variable {f g : Frame} {n : Nat} {p : Bytes}

/-- Padding changes no header. -/
theorem Unpadded.addressed_padded (hf : Unpadded f.bytes n) (hg : g.bytes = f.bytes ++ p) :
    Addressed g.bytes := by
  have hl := hf.addressed.1
  refine hf.addressed.congr ?_ fun i hi => ?_
  · rw [hg, List.length_append]
    omega
  · rw [hg, byte_append (by omega)]

theorem Unpadded.payloadSize_padded (hf : Unpadded f.bytes n) (hg : g.bytes = f.bytes ++ p)
    {k : Nat} (hk : k < 2 ^ 32) :
    payloadSize g.bytes = BitVec.ofNat 32 k ↔ n + p.length = k := by
  have hlen : g.bytes.length = 42 + n + p.length := by rw [hg, List.length_append, hf.length]
  rw [payloadSize_eq (by omega) hk, hlen]
  omega

/-- **The end of the buffer decides.** -/
theorem isPing_padded (hf : Unpadded f.bytes n) (hg : g.bytes = f.bytes ++ p) :
    IsPing g.bytes ↔ n + p.length = 1 :=
  (and_iff_right (hf.addressed_padded hg)).trans (hf.payloadSize_padded hg (by decide))

theorem isJob_padded (hf : Unpadded f.bytes n) (hg : g.bytes = f.bytes ++ p) :
    IsJob g.bytes ↔ n + p.length = 8 :=
  (and_iff_right (hf.addressed_padded hg)).trans (hf.payloadSize_padded hg (by decide))

end

/-- **Padding is ignored only where nothing is decided.**  From any maps, the decision on a
datagram with padding after it is the decision on the datagram alone exactly when there is no
padding, or neither of the two is a ping or a job; and what the padded frame is taken for goes by
the end of the buffer. -/
theorem padding_ignored_iff (tail : Option (Vector U8 7)) (m : Maps) {f g : Frame} {n : Nat}
    {p : Bytes} (hf : Unpadded f.bytes n) (hg : g.bytes = f.bytes ++ p) :
    (SameDecision (loadBalancer tail m f) (loadBalancer tail m g) ↔
      p = [] ∨ ((n ≠ 1 ∧ n ≠ 8) ∧ n + p.length ≠ 1 ∧ n + p.length ≠ 8)) ∧
    (IsPing g.bytes ↔ n + p.length = 1) ∧ (IsJob g.bytes ↔ n + p.length = 8) := by
  have hf₀ : f.bytes = f.bytes ++ [] := (List.append_nil _).symm
  have hpf : IsPing f.bytes ↔ n = 1 := isPing_padded hf hf₀
  have hjf : IsJob f.bytes ↔ n = 8 := isJob_padded hf hf₀
  have hpg := isPing_padded hf hg
  have hjg := isJob_padded hf hg
  have haf := hf.addressed
  have hag := hf.addressed_padded hg
  refine ⟨⟨fun h => ?_, ?_⟩, hpg, hjg⟩
  · by_cases he : p = []
    · exact .inl he
    have hpos := List.length_pos_iff.mpr he
    refine .inr ?_
    by_cases hp : IsPing f.bytes
    · -- the padded frame is longer, so it is no ping
      have hn := hpf.mp hp
      have hp' : ¬ IsPing g.bytes := fun h' => by
        have := hpg.mp h'
        omega
      by_cases hj' : IsJob g.bytes
      · exact absurd h (ping_job_differ hp hj')
      · exact absurd h (ping_other_differ hp hag hp' hj')
    by_cases hj : IsJob f.bytes
    · have hn := hjf.mp hj
      have hp' : ¬ IsPing g.bytes := fun h' => by
        have := hpg.mp h'
        omega
      have hj' : ¬ IsJob g.bytes := fun h' => by
        have := hjg.mp h'
        omega
      exact absurd h (job_other_differ hj hag hp' hj')
    refine ⟨⟨fun e => hp (hpf.mpr e), fun e => hj (hjf.mpr e)⟩, fun e => ?_, fun e => ?_⟩
    · exact ping_other_differ (hpg.mpr e) haf hp hj h.symm
    · exact job_other_differ (hjg.mpr e) haf hp hj h.symm
  · rintro (rfl | ⟨⟨h₁, h₈⟩, h₁', h₈'⟩)
    · -- nothing is appended: the frames are the same
      rw [List.append_nil] at hg
      have hfg : f = g := by
        cases f
        cases g
        cases hg
        rfl
      rw [hfg]
      exact ⟨rfl, rfl, fun _ => rfl⟩
    · rw [other_passes tail m haf (fun h => h₁ (hpf.mp h)) fun h => h₈ (hjf.mp h),
        other_passes tail m hag (fun h => h₁' (hpg.mp h)) fun h => h₈' (hjg.mp h)]
      exact ⟨rfl, rfl, nofun⟩

/-- A frame padded to the 60 bytes of the shortest Ethernet frame. -/
def paddedPing : Frame :=
  ⟨(pingFrom 1#32).bytes ++ List.replicate 17 0#8, by simp [pingFrom, pingOf]⟩

theorem unpadded_pingFrom : Unpadded (pingFrom 1#32).bytes 1 where
  addressed := (isPing_pingFrom 1#32).1
  version := by decide +kernel
  ihl := by decide +kernel
  udpLength := by decide +kernel
  totLength := by decide +kernel
  length := by decide +kernel

theorem padding_ignored_iff_paddedPing :
    (SameDecision (loadBalancer none Maps.empty (pingFrom 1#32))
        (loadBalancer none Maps.empty paddedPing) ↔
      List.replicate 17 0#8 = [] ∨
        ((1 ≠ 1 ∧ 1 ≠ 8) ∧ 1 + (List.replicate 17 0#8).length ≠ 1 ∧
          1 + (List.replicate 17 0#8).length ≠ 8)) ∧
    (IsPing paddedPing.bytes ↔ 1 + (List.replicate 17 0#8).length = 1) ∧
    (IsJob paddedPing.bytes ↔ 1 + (List.replicate 17 0#8).length = 8) :=
  padding_ignored_iff none Maps.empty unpadded_pingFrom rfl

/-- A backend's first ping registers it; padded to 60 bytes it is let through. -/
theorem padded_ping_ignored :
    ¬ ∀ (tail : Option (Vector U8 7)) (m : Maps) (f g : Frame) (n : Nat) (p : Bytes),
      Unpadded f.bytes n → g.bytes = f.bytes ++ p →
      SameDecision (loadBalancer tail m f) (loadBalancer tail m g) := by
  intro h
  have hv := (h none Maps.empty (pingFrom 1#32) paddedPing 1 _ unpadded_pingFrom rfl).verdict
  exact absurd hv (by decide +kernel)

end EbpfLb
