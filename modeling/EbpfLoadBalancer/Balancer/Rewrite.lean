import EbpfLoadBalancer.Model.LoadBalancer

/-!
# Balancer — the rewritten frame

`send_to_backend` overwrites the two MAC addresses, the two IPv4 addresses, the two lengths and
the two checksums, and nothing past the UDP header: the addresses it leaves are those of the
slot (`ipDaddr_rewrite`, `ipSaddr_rewrite`, `ethDest_rewrite`), and the payload is untouched
(`payload64_rewrite`, `read_payload_rewrite`).
-/

namespace EbpfLb
open Bytes

variable {info : DestInfo} {f : Bytes}

/-- The frame with its addresses and lengths overwritten. -/
def addressedTo (info : DestInfo) (f : Bytes) : Bytes :=
  let f := f.put 26 info.daddr
  let f := f.put 30 info.saddr
  let f := f.store 6 (ethDest f).toList
  let f := f.store 0 info.dmac.toList
  let f := f.put 16 (bpfHtons (BitVec.ofNat 16 (f.length - 14)))
  f.put 38 (bpfHtons (BitVec.ofNat 16 (f.length - 34)))

/-- The frame `udp_checksum` is computed of. -/
def unsummed (info : DestInfo) (f : Bytes) : Bytes :=
  let f := (addressedTo info f).put 24 0#16
  (f.put 24 (ipChecksum (f.read 14 20).toList)).put 40 0#16

theorem rewrite_eq :
    rewrite info f = (unsummed info f).put 40 (udpChecksum (unsummed info f)) := rfl

@[simp] theorem length_addressedTo : (addressedTo info f).length = f.length := by
  simp [addressedTo]

@[simp] theorem length_unsummed : (unsummed info f).length = f.length := by simp [unsummed]

@[simp] theorem length_rewrite : (rewrite info f).length = f.length := by simp [rewrite]

theorem ipDaddr_rewrite (h : 42 ≤ f.length) : ipDaddr (rewrite info f) = info.saddr := by
  have hp : ((f.put 26 info.daddr).put 30 info.saddr).load 32 30 = info.saddr :=
    load_put_same _ _ rfl (by simp; omega)
  simp [rewrite, ipDaddr, load_put_disjoint, load_store_disjoint, hp]

theorem ipSaddr_rewrite (h : 42 ≤ f.length) : ipSaddr (rewrite info f) = info.daddr := by
  have hp : (f.put 26 info.daddr).load 32 26 = info.daddr := load_put_same _ _ rfl (by omega)
  simp [rewrite, ipSaddr, load_put_disjoint, load_store_disjoint, hp]

theorem ethDest_rewrite (h : 42 ≤ f.length) : ethDest (rewrite info f) = info.dmac := by
  simp only [rewrite, ethDest]
  rw [read_put_disjoint _ _ (by decide), read_put_disjoint _ _ (by decide),
    read_put_disjoint _ _ (by decide), read_put_disjoint _ _ (by decide),
    read_put_disjoint _ _ (by decide), read_put_disjoint _ _ (by decide)]
  exact read_store_same _ _ (by simp; omega)

/-- No byte past the UDP header changes. -/
theorem read_payload_rewrite {off n : Nat} (h : 42 ≤ off) :
    (rewrite info f).read off n = f.read off n := by
  have hs : ∀ (g : Bytes) (o : Nat) (vs : Vector U8 6), o + 6 ≤ 42 →
      (g.store o vs.toList).read off n = g.read off n :=
    fun g o vs ho => read_store_disjoint g _ (.inr (by simp; omega))
  have hp : ∀ (w : Nat) (g : Bytes) (o : Nat) (v : BitVec w), o + w / 8 ≤ 42 →
      (g.put o v).read off n = g.read off n :=
    fun w g o v ho => read_put_disjoint g v (.inr (by omega))
  simp [rewrite, hs, hp]

theorem payload64_rewrite : payload64 (rewrite info f) = payload64 f :=
  load_congr (read_payload_rewrite (Nat.le_refl 42))

/-- The source address becomes the address the frame was sent to. -/
theorem ethSource_rewrite (h : 42 ≤ f.length) : ethSource (rewrite info f) = ethDest f := by
  simp only [rewrite, ethSource, ethDest]
  rw [read_put_disjoint _ _ (by decide), read_put_disjoint _ _ (by decide),
    read_put_disjoint _ _ (by decide), read_put_disjoint _ _ (by decide),
    read_put_disjoint _ _ (by decide), read_put_disjoint _ _ (by decide),
    read_store_disjoint _ _ (by simp), read_store_same _ _ (by simp; omega),
    read_put_disjoint _ _ (by decide), read_put_disjoint _ _ (by decide)]

theorem ipTotLen_rewrite (h : 42 ≤ f.length) :
    ipTotLen (rewrite info f) = bpfHtons (BitVec.ofNat 16 (f.length - 14)) := by
  have hl : ∀ (g : Bytes) (v : U16), g.length = f.length → (g.put 16 v).load 16 16 = v :=
    fun g v hg => load_put_same g v rfl (by omega)
  simp [rewrite, ipTotLen, load_put_disjoint, hl]

theorem udpLen_rewrite (h : 42 ≤ f.length) :
    udpLen (rewrite info f) = bpfHtons (BitVec.ofNat 16 (f.length - 34)) := by
  have hl : ∀ (g : Bytes) (v : U16), g.length = f.length → (g.put 38 v).load 16 38 = v :=
    fun g v hg => load_put_same g v rfl (by omega)
  simp [rewrite, udpLen, load_put_disjoint, hl]

/-! ### Byte by byte -/

/-- The bytes of the addresses and the lengths. -/
def Overwritten (i : Nat) : Prop :=
  i < 12 ∨ (16 ≤ i ∧ i < 18) ∨ (26 ≤ i ∧ i < 34) ∨ (38 ≤ i ∧ i < 40)

/-- The bytes of the two checksums. -/
def InChecksum (i : Nat) : Prop := (24 ≤ i ∧ i < 26) ∨ (40 ≤ i ∧ i < 42)

/-- Every other byte stays. -/
theorem byte_rewrite {i : Nat} (ho : ¬ Overwritten i) (hc : ¬ InChecksum i) :
    (rewrite info f).byte i = f.byte i := by
  unfold Overwritten at ho
  unfold InChecksum at hc
  rw [rewrite_eq, unsummed, byte_put_disjoint _ _ (by omega), byte_put_disjoint _ _ (by omega),
    byte_put_disjoint _ _ (by omega), byte_put_disjoint _ _ (by omega), addressedTo,
    byte_put_disjoint _ _ (by omega), byte_put_disjoint _ _ (by omega), byte_store,
    if_neg (by rw [Vector.length_toList]; omega), byte_store,
    if_neg (by rw [Vector.length_toList]; omega), byte_put_disjoint _ _ (by omega),
    byte_put_disjoint _ _ (by omega)]

end EbpfLb
