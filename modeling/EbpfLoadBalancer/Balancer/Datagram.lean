import EbpfLoadBalancer.Balancer.Step

/-!
# Balancer — what a socket sends

`datagram` is the frame the sockets of `client.py` and `server.py` send to the balancer: a
20-byte IPv4 header that is no fragment, UDP to port 8080, and the payload.  With one byte of
payload it is a ping (`isPing_datagram`), with eight a job (`isJob_datagram`), and the fields
read at the fixed offsets are the ones put there.
-/

namespace EbpfLb
open Bytes

/-- The three headers before they are filled in. -/
def blankHeaders : Bytes := List.replicate 42 0#8

@[simp] theorem length_blankHeaders : blankHeaders.length = 42 := List.length_replicate

/-- A UDP datagram from `src` to port 8080 of `dst`. -/
def datagram (smac dmac : Vector U8 6) (src dst : U32) (payload : Bytes) : Bytes :=
  let f := blankHeaders ++ payload
  let f := f.store 0 dmac.toList
  let f := f.store 6 smac.toList
  let f := f.put 12 (bpfHtons ethPIp)
  let f := f.put 14 0x45#8                                             -- version 4, IHL 5
  let f := f.put 16 (bpfHtons (BitVec.ofNat 16 (28 + payload.length)))
  let f := f.put 20 0x0040#16                                          -- DF, offset 0
  let f := f.put 22 64#8                                               -- TTL
  let f := f.put 23 ipprotoUdp
  let f := f.put 26 src
  let f := f.put 30 dst
  let f := f.put 24 (ipChecksum (f.read 14 20).toList)
  let f := f.put 36 (bpfHtons 8080#16)
  f.put 38 (bpfHtons (BitVec.ofNat 16 (8 + payload.length)))

/-- A field of the headers is read back. -/
theorem load_header {w : Nat} {f : Bytes} (v : BitVec w) {off : Nat} (hf : 42 ≤ f.length)
    (hw : w = 8 * (w / 8)) (ho : off + w / 8 ≤ 42) : (f.put off v).load w off = v :=
  load_put_same f v hw (Nat.le_trans ho hf)

section
variable (smac dmac : Vector U8 6) (src dst : U32) (payload : Bytes)

@[simp] theorem length_datagram :
    (datagram smac dmac src dst payload).length = 42 + payload.length := by
  simp [datagram]

@[simp] theorem ipSaddr_datagram : ipSaddr (datagram smac dmac src dst payload) = src := by
  simp [datagram, ipSaddr, load_put_disjoint, load_header]

theorem addressed_datagram : Addressed (datagram smac dmac src dst payload) := by
  refine ⟨by simp, ?_, ?_, ?_⟩
  · simp [datagram, ethProto, load_put_disjoint, load_header]
    rfl
  · simp [datagram, ipProtocol, load_put_disjoint, load_header]
  · simp [datagram, udpDest, load_put_disjoint, load_header]
    rfl

theorem isPing_datagram {payload : Bytes} (h : payload.length = 1) :
    IsPing (datagram smac dmac src dst payload) :=
  ⟨addressed_datagram smac dmac src dst payload, by simp [payloadSize, h]⟩

theorem isJob_datagram {payload : Bytes} (h : payload.length = 8) :
    IsJob (datagram smac dmac src dst payload) :=
  ⟨addressed_datagram smac dmac src dst payload, by simp [payloadSize, h]⟩

end

/-- Past the headers a datagram is its payload. -/
theorem byte_datagram (smac dmac : Vector U8 6) (src dst : U32) (payload : Bytes) {i : Nat}
    (h : 42 ≤ i) : byte (datagram smac dmac src dst payload) i = payload.getD (i - 42) 0 := by
  have hs : ∀ (g vs : Bytes) (o : Nat), o + vs.length ≤ 42 → byte (g.store o vs) i = g.byte i :=
    fun g vs o ho => by
      rw [byte_store, if_neg]
      omega
  have hb : byte (blankHeaders ++ payload) i = payload.getD (i - 42) 0 := by
    have hl : blankHeaders.length ≤ i := by simpa using h
    simp [byte, List.getElem?_append_right hl]
  simp [datagram, put, hs, hb]

theorem payload64_datagram (smac dmac : Vector U8 6) (src dst : U32) (v : U64) :
    payload64 (datagram smac dmac src dst (toLE 8 v.toNat)) = v := by
  have hr : (read (datagram smac dmac src dst (toLE 8 v.toNat)) 42 8).toList = toLE 8 v.toNat := by
    refine List.ext_getElem (by simp) fun i _ hi => ?_
    simp [byte_datagram, List.getElem?_eq_getElem hi]
  rw [payload64, load, hr, ofLE_toLE]
  apply BitVec.eq_of_toNat_eq
  rw [BitVec.toNat_ofNat]
  omega

/-- A ping of the host at `a`, with the byte `b`. -/
def pingOf (b : U8) (a : U32) : Frame :=
  ⟨datagram (Vector.replicate 6 2#8) (Vector.replicate 6 4#8) a 0x0100007f#32 [b], by simp⟩

/-- A ping of the host at `a`: the byte `'D'`. -/
def pingFrom (a : U32) : Frame := pingOf 0x44#8 a

/-- A client's job. -/
def jobOf (v : U64) : Frame :=
  ⟨datagram (Vector.replicate 6 8#8) (Vector.replicate 6 4#8) 0x0200007f#32 0x0100007f#32
    (toLE 8 v.toNat), by simp⟩

theorem isPing_pingOf (b : U8) (a : U32) : IsPing (pingOf b a).bytes := by
  simp only [pingOf]
  exact isPing_datagram _ _ _ _ rfl

theorem ipSaddr_pingOf (b : U8) (a : U32) : ipSaddr (pingOf b a).bytes = a := by
  simp only [pingOf, ipSaddr_datagram]

theorem byte_pingOf (b : U8) (a : U32) : (pingOf b a).bytes.byte 42 = b := by
  simp [pingOf, byte_datagram]

@[simp] theorem isPing_pingFrom (a : U32) : IsPing (pingFrom a).bytes := isPing_pingOf _ a

@[simp] theorem ipSaddr_pingFrom (a : U32) : ipSaddr (pingFrom a).bytes = a := ipSaddr_pingOf _ a

@[simp] theorem isJob_jobOf (v : U64) : IsJob (jobOf v).bytes := by
  simp only [jobOf]
  exact isJob_datagram _ _ _ _ (by simp)

@[simp] theorem payload64_jobOf (v : U64) : payload64 (jobOf v).bytes = v := by
  simp only [jobOf, payload64_datagram]

/-- The frame `f`, whose tail grows by zero bytes if asked to. -/
def growing (f : Frame) : Input := ⟨f, some (Vector.replicate 7 0#8)⟩

end EbpfLb
