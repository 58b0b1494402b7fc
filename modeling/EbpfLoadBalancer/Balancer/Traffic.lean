import EbpfLoadBalancer.Balancer.Datagram

/-!
# Balancer — whose traffic it takes

What the program takes for a ping or a job (`IsPing`, `IsJob`) against what a datagram to port
8080 is by the fields of its headers (`OwnDatagram`).  The parser reads three structs at fixed
offsets and the length of the frame; it never looks at the version, the header length, the
fragment field or either length field.  On frames whose header is the plain one and whose datagram
fills the frame the two agree (`isPing_iff_ownDatagram`, `isJob_iff_ownDatagram`); elsewhere the
program goes by the offsets, so a first fragment of the right length registers a backend
(`fragment_registers`).
-/

namespace EbpfLb
open Bytes

/-- The IPv4 header is 20 bytes long and no fragment's, and the length fields fill the frame. -/
structure Plain (f : Bytes) : Prop where
  version : ipVersion f = 4
  ihl : ipIhl f = 5
  whole : ipFragOff f &&& 0x3fff#16 = 0#16
  udpLength : (bpfNtohs (udpLen f)).toNat = f.length - 34
  totLength : (bpfNtohs (ipTotLen f)).toNat = f.length - 14

section
variable {f : Frame}

/-- On a plain frame the fixed offsets are the right ones. -/
theorem Plain.classified (h : Plain f.bytes) {n : Nat} (hn : n < 2 ^ 32) :
    Addressed f.bytes ∧ payloadSize f.bytes = BitVec.ofNat 32 n ↔ OwnDatagram f.bytes n := by
  have hoff : udpOffset f.bytes = 34 := by rw [udpOffset, h.ihl]
  have hihl := h.ihl
  have hul : bpfNtohs (f.bytes.load 16 (udpOffset f.bytes + 4)) = bpfNtohs (udpLen f.bytes) := by
    rw [hoff, udpLen]
  constructor
  · rintro ⟨⟨hl, hi, hu, hp⟩, hs⟩
    have hlen := (payloadSize_eq hl hn).mp hs
    refine ⟨⟨hi, h.version, hihl.ge, h.whole, hu, by rwa [hoff]⟩, ?_, ?_, ?_⟩
    · rw [hul, h.udpLength]
      omega
    · rw [h.totLength]
      omega
    · omega
  · intro ho
    have hc := ho.complete
    have hl := ho.udpLength
    rw [hul, h.udpLength] at hl
    have hlen : f.bytes.length = 42 + n := by omega
    refine ⟨⟨by omega, ho.proto, ho.udp, ?_⟩, (payloadSize_eq (by omega) hn).mpr hlen⟩
    have hp := ho.port
    rwa [hoff] at hp

theorem isPing_iff_ownDatagram (h : Plain f.bytes) : IsPing f.bytes ↔ OwnDatagram f.bytes 1 :=
  h.classified (by decide)

theorem isJob_iff_ownDatagram (h : Plain f.bytes) : IsJob f.bytes ↔ OwnDatagram f.bytes 8 :=
  h.classified (by decide)

end

/-- The outcome changes a map, or is an `XDP_TX` or an `XDP_DROP`. -/
def Acts (m : Maps) (o : Outcome) : Prop := o.maps ≠ m ∨ o.verdict = .tx ∨ o.verdict = .drop

/-- **The balancer acts on what the fixed offsets say is its own.**  It acts only on frames taken
for a ping or a job, handles each of them as such, and lets every other frame through as it came,
or aborts it when it is cut short of a header; and on plain frames these are its own datagrams of
one and of eight bytes. -/
theorem traffic_classified (tail : Option (Vector U8 7)) (m : Maps) (f : Frame) :
    (Acts m (loadBalancer tail m f) → IsPing f.bytes ∨ IsJob f.bytes) ∧
    (IsPing f.bytes → loadBalancer tail m f = backendPing tail { frame := f.bytes, maps := m }) ∧
    (IsJob f.bytes → loadBalancer tail m f = clientJob { frame := f.bytes, maps := m }) ∧
    (¬ IsPing f.bytes → ¬ IsJob f.bytes →
      (loadBalancer tail m f).maps = m ∧ (loadBalancer tail m f).frame = f.bytes ∧
        (loadBalancer tail m f).verdict = if Truncated f.bytes then .aborted else .pass) ∧
    (Plain f.bytes → (IsPing f.bytes ↔ OwnDatagram f.bytes 1) ∧
      (IsJob f.bytes ↔ OwnDatagram f.bytes 8)) := by
  refine ⟨fun ha => ?_, loadBalancer_ping tail m, loadBalancer_job tail m, fun hp hj => ?_,
    fun h => ⟨isPing_iff_ownDatagram h, isJob_iff_ownDatagram h⟩⟩
  · by_contra hn
    rw [not_or] at hn
    rw [loadBalancer_other tail m hn.1 hn.2] at ha
    rcases ha with hm | hv | hv
    · exact hm rfl
    all_goals
      simp only at hv
      split at hv <;> cases hv
  · rw [loadBalancer_other tail m hp hj]
    exact ⟨rfl, rfl, rfl⟩

/-- A ping with MF set. -/
def firstFragment : Frame := ⟨(pingFrom 1#32).bytes.put 20 0x0020#16, by simp [pingFrom, pingOf]⟩

/-- A first fragment registers a backend. -/
theorem fragment_registers :
    ¬ ∀ (tail : Option (Vector U8 7)) (m : Maps) (f : Frame),
      Acts m (loadBalancer tail m f) → OwnTraffic f.bytes := by
  intro h
  have ha : (loadBalancer none Maps.empty firstFragment).verdict = .drop := by decide +kernel
  have hw := (h none Maps.empty firstFragment (.inr (.inr ha))).whole
  exact absurd hw (by decide +kernel)

end EbpfLb
