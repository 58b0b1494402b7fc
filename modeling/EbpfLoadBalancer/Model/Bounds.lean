import EbpfLoadBalancer.Model.Accesses
import EbpfLoadBalancer.Support.OnesComplement

/-!
# Model — Bounds

With every access checked the two programs do what they do without checks (`accesses_in_bounds`): on
no packet, whatever the maps hold and however the tail grows, does one of them read or write a byte
at or past `data_end`.  Each function is covered by the bounds its callers have tested: the
rewriting by the three headers, the loop of `udp_checksum` by its own test in each round, the
payload by the test before it.
-/

namespace EbpfLb
open Bytes Bpf OnesComplement

variable {f : Bytes}

/-! ### The checksums -/

theorem load_word (f : Bytes) (off : Nat) :
    f.load 16 off = word (f.byte off) (f.byte (off + 1)) := by
  refine BitVec.eq_of_toNat_eq ?_
  rw [toNat_load16, word, toNat_word]

theorem ipSum?_eq {buf n : Nat} (h : buf + n ≤ f.length) (sum : U64) :
    ipSum? f buf n sum = some (ipSum sum (f.read buf n).toList) := by
  fun_induction ipSum? f buf n sum with
  | case1 buf n sum ih =>
      rw [load?_of_le (by omega), Option.bind_eq_bind, Option.bind_some, ih _ (by omega),
        toList_read_succ, toList_read_succ, ipSum, load_word]
  | case2 buf sum =>
      rw [load?_of_le (by omega), Option.bind_eq_bind, Option.bind_some, toList_read_succ,
        load_eight]
      rfl
  | case3 buf sum => rfl

theorem ipChecksum?_eq {buf n : Nat} (h : buf + n ≤ f.length) :
    ipChecksum? f buf n = some (ipChecksum (f.read buf n).toList) := by
  rw [ipChecksum?, ipSum?_eq h]
  rfl

/-- The loop stops where its copy on the bytes that are left does. -/
theorem udpSum?_eq (f : Bytes) (n : Nat) (csum : U16) (buf : Nat) :
    ∃ buf', udpSum? f n csum buf = some ((udpSum n csum (f.drop buf)).1, buf') ∧
      (udpSum n csum (f.drop buf)).2 = f.drop buf' := by
  fun_induction udpSum? f n csum buf with
  | case1 csum buf =>
      refine ⟨buf, ?_, ?_⟩ <;> cases f.drop buf <;> simp [udpSum]
  | case2 n csum buf hlt =>
      have hshort : (f.drop buf).length < 2 := by
        rw [List.length_drop]
        omega
      refine ⟨buf, ?_⟩
      match f.drop buf, hshort with
      | [], _ => simp [udpSum]
      | [b], _ => simp [udpSum]
  | case3 n csum buf hle ih =>
      rw [load?_of_le (by omega), Option.bind_eq_bind, Option.bind_some,
        drop_eq_byte_cons (by omega), drop_eq_byte_cons (by omega), udpSum, ← load_word]
      exact ih _

theorem udpChecksum?_eq (h : 42 ≤ f.length) : udpChecksum? f = some (udpChecksum f) := by
  have hload : ∀ w off, off + w / 8 ≤ 42 → f.load? w off = some (f.load w off) :=
    fun w off ho => load?_of_le (Nat.le_trans ho h)
  unfold udpChecksum? udpChecksum ipSaddr ipDaddr ipProtocol udpLen
  simp only [hload 32 26 (by decide), hload 32 30 (by decide), hload 8 23 (by decide),
    hload 16 38 (by decide), Option.bind_eq_bind, Option.bind_some]
  generalize 0#16 + (f.load 32 26).setWidth 16 + (f.load 32 26 >>> 16).setWidth 16 +
    (f.load 32 30).setWidth 16 + (f.load 32 30 >>> 16).setWidth 16 +
    (f.load 8 23).setWidth 16 <<< 8 + f.load 16 38 = csum
  obtain ⟨buf', hsum, hrest⟩ := udpSum?_eq f (maxUdpLength / 2) csum 34
  rw [hsum, Option.bind_some]
  cases hd : udpSum (maxUdpLength / 2) csum (f.drop 34) with
  | mk s buf =>
      rw [hd] at hrest
      obtain rfl : buf = f.drop buf' := hrest
      by_cases hlt : buf' + 1 ≤ f.length
      · rw [if_pos hlt, load?_of_le (by omega), drop_eq_byte_cons (by omega), load_eight]
        rfl
      · rw [if_neg hlt, List.drop_eq_nil_of_le (by omega)]
        rfl

/-! ### Sending -/

theorem rewrite?_eq (info : DestInfo) (h : 42 ≤ f.length) :
    rewrite? info f = some (rewrite info f) := by
  have hput : ∀ {w : Nat} (g : Bytes) (off : Nat) (v : BitVec w), g.length = f.length →
      off + w / 8 ≤ 42 → g.put? off v = some (g.put off v) :=
    fun g off v hg ho => put?_of_le (by omega)
  have hstore : ∀ (g : Bytes) (off : Nat) (vs : Vector U8 6), g.length = f.length →
      off + 6 ≤ 42 → g.store? off vs.toList = some (g.store off vs.toList) :=
    fun g off vs hg ho => store?_of_le (by rw [Vector.length_toList]; omega)
  unfold rewrite?
  simp only [Option.bind_eq_bind]
  rw [hput _ _ _ rfl (by decide), Option.bind_some, hput _ _ _ (by simp) (by decide),
    Option.bind_some, read?_of_le (by simp; omega), Option.bind_some,
    hstore _ _ _ (by simp) (by decide), Option.bind_some, hstore _ _ _ (by simp) (by decide),
    Option.bind_some, hput _ _ _ (by simp) (by decide), Option.bind_some,
    hput _ _ _ (by simp) (by decide), Option.bind_some, hput _ _ _ (by simp) (by decide),
    Option.bind_some, ipChecksum?_eq (by simp; omega), Option.bind_some,
    hput _ _ _ (by simp) (by decide), Option.bind_some, hput _ _ _ (by simp) (by decide),
    Option.bind_some, udpChecksum?_eq (by simp; omega), Option.bind_some,
    hput _ _ _ (by simp) (by decide)]
  rfl

theorem sendToBackend?_eq (key : U32) {c : Ctx} (h : 42 ≤ c.frame.length) :
    sendToBackend? key c = some (sendToBackend key c) := by
  rw [sendToBackend?, sendToBackend]
  cases c.maps.servers.lookup key with
  | none => rfl
  | some info =>
      simp only [Ctx.mark, Ctx.setServers, rewrite?_eq _ h, Option.bind_eq_bind, Option.bind_some]
      rfl

/-! ### Pings and jobs -/

section
variable {c : Ctx}

theorem register?_eq (key : U32) (h : 42 ≤ c.frame.length) :
    register? key c = some (register key c) := by
  have hload : ∀ off, off + 4 ≤ 42 → c.frame.load? 32 off = some (c.frame.load 32 off) :=
    fun off ho => load?_of_le (Nat.le_trans ho h)
  have hmac : c.frame.read? 6 6 = some (ethSource c.frame) := read?_of_le (by omega)
  rw [register?, register, Ctx.mark]
  simp only [hload 26 (by decide), hload 30 (by decide), hmac, Option.bind_eq_bind,
    Option.bind_some, Ctx.setServers, ipSaddr, ipDaddr]
  cases c.maps.serverCnt.lookup 0#32 <;> rfl

/-- After the growth the headers' bounds are tested again, and the payload's after the dequeue. -/
theorem sendQueued?_eq (tail : Option (Vector U8 7)) (key : U32) :
    sendQueued? tail key c = some (sendQueued tail key c) := by
  rw [sendQueued?, sendQueued]
  simp only
  split
  · rfl
  split
  · rfl
  split
  · rfl
  split
  · rfl
  · rename_i hlen
    rw [put?_of_le (by simpa using hlen), Option.bind_eq_bind, Option.bind_some]
    exact sendToBackend?_eq key (by simp at hlen ⊢; omega)

theorem complete?_eq (tail : Option (Vector U8 7)) (key : U32) (info : DestInfo) :
    complete? tail key info c = some (complete tail key info c) := by
  rw [complete?, complete]
  simp only
  -- the increment, within the bound or cut to it
  split <;>
  · split
    · rfl
    · split
      · rfl
      · exact sendQueued?_eq tail _

theorem backendPing?_eq (tail : Option (Vector U8 7)) (h : 42 ≤ c.frame.length) :
    backendPing? tail c = some (backendPing tail c) := by
  rw [backendPing?, backendPing, load?_of_le (by omega), Option.bind_eq_bind, Option.bind_some,
    ← ipSaddr]
  cases serverKey c.maps (ipSaddr c.frame) with
  | none => rfl
  | some found =>
      obtain ⟨key, maps⟩ := found
      simp only
      cases maps.servers.lookup key with
      | none => exact register?_eq key h
      | some info =>
          simp only
          split
          · exact register?_eq key h
          · exact complete?_eq tail key info

theorem clientJob?_eq (h : 42 ≤ c.frame.length) : clientJob? c = some (clientJob c) := by
  rw [clientJob?, clientJob]
  simp only
  split
  · split
    · rfl
    · rw [load?_of_le (by simp at *; omega)]
      rfl
  · exact sendToBackend?_eq _ h

end

/-! ### The programs -/

theorem loadBalancer?_eq (tail : Option (Vector U8 7)) (m : Maps) (ctx : Frame) :
    loadBalancer? tail m ctx = some (loadBalancer tail m ctx) := by
  rw [loadBalancer?, loadBalancer]
  simp only [Option.bind_eq_bind]
  split
  · rfl
  rw [load?_of_le (by omega), Option.bind_some, ← ethProto]
  split
  · rfl
  split
  · rfl
  rw [load?_of_le (by omega), Option.bind_some, ← ipProtocol]
  split
  · rfl
  split
  · rfl
  rw [load?_of_le (by omega), Option.bind_some, ← udpDest]
  split
  · rfl
  have h₄₂ : 42 ≤ ctx.bytes.length := by omega
  split
  · exact backendPing?_eq tail h₄₂
  split
  · exact clientJob?_eq h₄₂
  · rfl

theorem udpDropper?_eq (ctx : Frame) : udpDropper? ctx = some (udpDropper ctx) := by
  rw [udpDropper?, udpDropper]
  simp only
  split
  · rfl
  rw [load?_of_le (by omega), Option.bind_eq_bind, Option.bind_some, ← ethProto]
  split
  · rfl
  split
  · rfl
  rw [load?_of_le (by omega), Option.bind_eq_bind, Option.bind_some, ← ipProtocol]
  split
  · rfl
  split
  · rfl
  rw [load?_of_le (by omega), Option.bind_eq_bind, Option.bind_some, ← udpDest]
  split
  · rfl
  split
  · rfl
  rw [load?_of_le (by omega), Option.bind_some, ← payload64]
  split <;> rfl

/-- **No access outside the packet.**  For every packet, whatever the maps hold and however the tail
grows: `load_balancer` and `udp_dropper` with every load and store checked never fail, and do what
they do without the checks. -/
theorem accesses_in_bounds (f : Frame) :
    (∀ tail m, loadBalancer? tail m f = some (loadBalancer tail m f)) ∧
      udpDropper? f = some (udpDropper f) :=
  ⟨fun tail m => loadBalancer?_eq tail m f, udpDropper?_eq f⟩

end EbpfLb
