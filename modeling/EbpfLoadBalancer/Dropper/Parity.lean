import EbpfLoadBalancer.Model.Client
import EbpfLoadBalancer.Model.Dropper

/-!
# Dropper — the even jobs

The filter decodes the eight bytes at `42` in network order and goes by the last bit of the number
(`bswap64_payload`), which is that of the byte at `49` (`udpDropper_fixed`).  On a packet with a
header of 20 bytes these are the payload, so an odd job passes and an even one is dropped, and a
datagram to another port passes (`dropper_by_parity`).  The filter reads neither the header length
nor the fragment field: behind options, and in a later fragment, it takes other bytes for the port,
so an even job passes and a packet that is not the server's is dropped (`other_bytes_read`).
-/

namespace EbpfLb
open Bytes

/-! ### Whose packet it is -/

/-- A complete IPv4 packet. -/
structure CompletePacket (f : Bytes) : Prop where
  proto : bpfNtohs (ethProto f) = ethPIp
  version : ipVersion f = 4
  ihl : 5 ≤ ipIhl f
  header : 4 * ipIhl f ≤ (bpfNtohs (ipTotLen f)).toNat
  complete : 14 + (bpfNtohs (ipTotLen f)).toNat ≤ f.length

/-- With another port in its UDP header. -/
def OtherPort (f : Bytes) : Prop :=
  4 * ipIhl f + 8 ≤ (bpfNtohs (ipTotLen f)).toNat ∧
    bpfNtohs (f.load 16 (udpOffset f + 2)) ≠ 8080#16

/-- A fragment with a nonzero offset. -/
def LaterFragment (f : Bytes) : Prop := ipFragOff f &&& 0x1fff#16 ≠ 0#16

/-- The payload of the datagram, by its header length. -/
def udpPayload (f : Bytes) (n : Nat) : Bytes := (f.read (udpOffset f + 8) n).toList

/-- A complete datagram to port 8080 with the job `n` as a client sends it. -/
def ClientJob (f : Bytes) (n : Nat) : Prop :=
  n < 2 ^ 64 ∧ OwnDatagram f 8 ∧ udpPayload f 8 = toBytes n

/-! ### The number decoded -/

/-- The value is the number the eight bytes at `42` spell in network order. -/
theorem bswap64_payload (f : Bytes) :
    (bswap64 (payload64 f)).toNat = fromBytes (f.read 42 8).toList := by
  have hload : (payload64 f).toNat = ofLE (f.read 42 8).toList := toNat_load f rfl
  have hback : toLE 8 (ofLE (f.read 42 8).toList) = (f.read 42 8).toList := by
    have hl : (f.read 42 8).toList.length = 8 := by simp
    conv_rhs => rw [← toLE_ofLE (f.read 42 8).toList, hl]
  have hlt : ofLE (f.read 42 8).toList.reverse < 2 ^ 64 := by
    refine Nat.lt_of_lt_of_eq (ofLE_lt _) ?_
    rw [List.length_reverse, Vector.length_toList]
    norm_num
  rw [bswap64, hload, hback, BitVec.toNat_ofNat, Nat.mod_eq_of_lt hlt, ← fromBytes_reverse,
    List.reverse_reverse]

theorem odd_iff (v : U64) : v % 2#64 = 1#64 ↔ v.toNat % 2 = 1 := by
  rw [← BitVec.toNat_inj, BitVec.toNat_umod]
  rfl

/-- The last byte has the parity of the number. -/
theorem parity_payload (f : Bytes) :
    (bswap64 (payload64 f)).toNat % 2 = (f.byte 49).toNat % 2 := by
  have hsplit : (f.read 42 8).toList = (f.read 42 7).toList ++ [f.byte 49] := by
    refine List.ext_getElem (by simp) fun i hi _ => ?_
    simp only [Vector.length_toList] at hi
    rcases Nat.lt_or_ge i 7 with h | h
    · simp [List.getElem_append_left, h]
    · obtain rfl : i = 7 := by omega
      simp
  rw [bswap64_payload, hsplit, fromBytes_concat]
  omega

/-! ### The filter -/

section
variable {f : Frame}

/-- **The fixed offsets decide**, for every UDP packet, whatever its header length and fragment
field. -/
theorem udpDropper_fixed (hi : bpfNtohs (ethProto f.bytes) = ethPIp) (hl : 34 ≤ f.bytes.length)
    (hu : ipProtocol f.bytes = ipprotoUdp) :
    udpDropper f =
      if f.bytes.length < 42 then .aborted
      else if bpfNtohs (udpDest f.bytes) ≠ 8080#16 then .pass
      else if f.bytes.length < 50 then .aborted
      else if (f.bytes.byte 49).toNat % 2 = 1 then .pass else .drop := by
  have h₁₄ : ¬ f.bytes.length < 14 := by omega
  have h₃₄ : ¬ f.bytes.length < 34 := by omega
  simp only [udpDropper, h₁₄, hi, h₃₄, hu, ne_eq, not_true_eq_false, if_false, odd_iff,
    parity_payload]

theorem udpDropper_other_protocol (h : CompletePacket f.bytes)
    (hu : ipProtocol f.bytes ≠ ipprotoUdp) : udpDropper f = .pass := by
  have hlen : 34 ≤ f.bytes.length := by
    have := h.ihl
    have := h.header
    have := h.complete
    omega
  simp [udpDropper, h.proto, hu, show ¬ f.bytes.length < 14 by omega,
    show ¬ f.bytes.length < 34 by omega]

/-- With a header of 20 bytes the port is where the filter looks for it. -/
theorem udpDropper_other_port (h : CompletePacket f.bytes) (h₅ : ipIhl f.bytes = 5)
    (hu : ipProtocol f.bytes = ipprotoUdp) (hp : OtherPort f.bytes) : udpDropper f = .pass := by
  obtain ⟨hl, hp⟩ := hp
  have hlen := h.complete
  have hport : bpfNtohs (udpDest f.bytes) ≠ 8080#16 := by rwa [udpOffset, h₅] at hp
  rw [udpDropper_fixed h.proto (by omega) hu, if_neg (by omega), if_pos hport]

theorem udpDropper_job {n : Nat} (h : ClientJob f.bytes n) (h₅ : ipIhl f.bytes = 5) :
    udpDropper f = if n % 2 = 1 then .pass else .drop := by
  obtain ⟨hn, ho, hpay⟩ := h
  have hlen := ho.complete
  have hport : bpfNtohs (udpDest f.bytes) = 8080#16 := by
    have hp := ho.port
    rwa [udpOffset, h₅] at hp
  rw [udpPayload, udpOffset, h₅] at hpay
  rw [udpOffset, h₅] at hlen
  have hvalue : (bswap64 (payload64 f.bytes)).toNat = n := by
    rw [bswap64_payload, hpay, fromBytes_toBytes hn]
  rw [udpDropper_fixed ho.proto (by omega) ho.udp, if_neg (by omega), if_neg (not_not.mpr hport),
    if_neg (by omega), ← parity_payload, hvalue]

end

/-- **The even jobs are dropped, behind a plain header.**  A client's datagram with a header of 20
bytes passes exactly when its job is odd, and is dropped otherwise; a complete packet of another
protocol passes, whatever its header; a complete UDP packet with a header of 20 bytes and another
port passes; and every UDP packet is decided by the bytes at `36` and `49`. -/
theorem dropper_by_parity (f : Frame) :
    (∀ n, ClientJob f.bytes n → ipIhl f.bytes = 5 →
      udpDropper f = if n % 2 = 1 then .pass else .drop) ∧
    (CompletePacket f.bytes → ipProtocol f.bytes ≠ ipprotoUdp → udpDropper f = .pass) ∧
    (CompletePacket f.bytes → ipIhl f.bytes = 5 → ipProtocol f.bytes = ipprotoUdp →
      OtherPort f.bytes → udpDropper f = .pass) ∧
    (bpfNtohs (ethProto f.bytes) = ethPIp → 34 ≤ f.bytes.length →
      ipProtocol f.bytes = ipprotoUdp →
      udpDropper f =
        if f.bytes.length < 42 then .aborted
        else if bpfNtohs (udpDest f.bytes) ≠ 8080#16 then .pass
        else if f.bytes.length < 50 then .aborted
        else if (f.bytes.byte 49).toNat % 2 = 1 then .pass else .drop) :=
  ⟨fun _ => udpDropper_job, udpDropper_other_protocol, udpDropper_other_port, udpDropper_fixed⟩

/-- The headers of a packet of `len` bytes with UDP between two loopback addresses: `w` is the
byte of the version and the header length, and `fragOff` the fragment field. -/
def loopbackHeader (w len : U8) (fragOff : Bytes) : Bytes :=
  [4#8, 4#8, 4#8, 4#8, 4#8, 4#8, 8#8, 8#8, 8#8, 8#8, 8#8, 8#8, 0x08#8, 0x00#8] ++
    [w, 0#8, 0#8, len, 0#8, 0#8] ++ fragOff ++ [64#8, 17#8, 0#8, 0#8] ++
    [127#8, 0#8, 0#8, 2#8, 127#8, 0#8, 0#8, 1#8]

/-- The job `2` behind a header of 20 bytes. -/
def plainJob : Frame where
  bytes := loopbackHeader 0x45#8 36#8 [0x40#8, 0#8] ++
    [0x1f#8, 0x90#8, 0x1f#8, 0x90#8, 0#8, 16#8, 0#8, 0#8] ++ toBytes 2
  fits := by decide

theorem dropper_by_parity_plainJob :
    ClientJob plainJob.bytes 2 ∧ ipIhl plainJob.bytes = 5 ∧ udpDropper plainJob = .drop := by
  have hjob : ClientJob plainJob.bytes 2 := by
    refine ⟨by decide, ⟨⟨?_, ?_, ?_, ?_, ?_, ?_⟩, ?_, ?_, ?_⟩, ?_⟩ <;> decide +kernel
  have h₅ : ipIhl plainJob.bytes = 5 := by decide +kernel
  exact ⟨hjob, h₅, (dropper_by_parity plainJob).1 2 hjob h₅⟩

/-- The job `2` behind a header with the router-alert option. -/
def optionJob : Frame where
  bytes := loopbackHeader 0x46#8 40#8 [0x40#8, 0#8] ++ [0x94#8, 4#8, 0#8, 0#8] ++
    [0x1f#8, 0x90#8, 0x1f#8, 0x90#8, 0#8, 16#8, 0#8, 0#8] ++ toBytes 2
  fits := by decide

/-- A datagram to port 53 behind an option that ends in `8080`. -/
def optionQuery : Frame where
  bytes := loopbackHeader 0x46#8 40#8 [0x40#8, 0#8] ++ [0x94#8, 4#8, 0x1f#8, 0x90#8] ++
    [0x1f#8, 0x90#8, 0#8, 53#8, 0#8, 16#8, 0#8, 0#8] ++ toBytes 2
  fits := by decide

/-- The second fragment of a datagram, with `8080` where a first one has its port. -/
def secondFragment : Frame where
  bytes := loopbackHeader 0x45#8 36#8 [0#8, 1#8] ++
    [0#8, 0#8, 0x1f#8, 0x90#8, 0#8, 0#8, 0#8, 0#8] ++ toBytes 2
  fits := by decide

/-- An even job with an option in its header passes; a datagram to another port and a later
fragment are dropped. -/
theorem other_bytes_read :
    ¬ (∀ (f : Frame) (n : Nat), ClientJob f.bytes n →
        udpDropper f = if n % 2 = 1 then .pass else .drop) ∧
    ¬ (∀ f : Frame, CompletePacket f.bytes → OtherPort f.bytes → udpDropper f = .pass) ∧
    ¬ ∀ f : Frame, CompletePacket f.bytes → LaterFragment f.bytes → udpDropper f = .pass := by
  refine ⟨fun h => ?_, fun h => ?_, fun h => ?_⟩
  · have hjob : ClientJob optionJob.bytes 2 := by
      refine ⟨by decide, ⟨⟨?_, ?_, ?_, ?_, ?_, ?_⟩, ?_, ?_, ?_⟩, ?_⟩ <;> decide +kernel
    have hpass : udpDropper optionJob = .pass := by decide +kernel
    rw [h optionJob 2 hjob] at hpass
    cases hpass
  · have hpacket : CompletePacket optionQuery.bytes := by
      constructor <;> decide +kernel
    have hport : OtherPort optionQuery.bytes := ⟨by decide +kernel, by decide +kernel⟩
    have hdrop : udpDropper optionQuery = .drop := by decide +kernel
    rw [h optionQuery hpacket hport] at hdrop
    cases hdrop
  · have hpacket : CompletePacket secondFragment.bytes := by
      constructor <;> decide +kernel
    have hlater : LaterFragment secondFragment.bytes := by
      unfold LaterFragment
      decide +kernel
    have hdrop : udpDropper secondFragment = .drop := by decide +kernel
    rw [h secondFragment hpacket hlater] at hdrop
    cases hdrop

end EbpfLb
