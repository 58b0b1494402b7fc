import EbpfLoadBalancer.Balancer.Provenance
import EbpfLoadBalancer.Balancer.Datagram

/-!
# Balancer — the address index and the slots agree

A registration writes three maps and reads no result.  `Registry` relates the three: every
address on record names the slot that holds it, every occupied slot is on record, the occupied
slots are the first `|ip_to_key|` ones, and while there is room the counter is their number.  Of a
move they see a registration, or a completion's sender put on record, and no more (`Move.indexed`).

The counter keeps moving once the table is full, and wraps; the invariant says nothing of it
then, and needs nothing.  A key below `MAX_SERVERS` it may hand out names an occupied slot, so
the ping is taken for a completion, and the insertion under that key fails because `ip_to_key`
is full (`Registry.note_of_occupied`).

A registered slot is one with a nonzero `saddr`, so the invariant is about pings from nonzero
addresses, and about nonzero addresses: an empty slot holds `0.0.0.0`, which is never on record.
-/

namespace EbpfLb
open Bpf

/-- `f`, if it is a ping, does not come from `0.0.0.0`. -/
def FromHost (f : Bytes) : Prop := IsPing f → ipSaddr f ≠ 0#32

/-- `ip_to_key`, `servers` and `server_cnt` agree. -/
structure Registry (m : Maps) : Prop where
  /-- An address on record names the slot that holds it. -/
  slot : ∀ a key, m.ipToKey.lookup a = some key →
    ∃ k : Slot, key = slotKey k ∧ (m.servers k).saddr = a ∧ a ≠ 0#32
  /-- An occupied slot is on record. -/
  known : ∀ k : Slot, (m.servers k).saddr ≠ 0#32 →
    m.ipToKey.lookup (m.servers k).saddr = some (slotKey k)
  /-- The occupied slots are the first ones. -/
  filled : ∀ k : Slot, (m.servers k).saddr ≠ 0#32 ↔ k.val < m.ipToKey.size
  /-- While there is room, the counter is the next slot. -/
  counter : m.ipToKey.size < maxServers → (m.serverCnt 0).toNat = m.ipToKey.size

theorem registry_empty : Registry Maps.empty where
  slot _ _ h := by cases h
  known _ h := absurd rfl h
  filled _ := ⟨fun h => absurd rfl h, fun h => absurd h (Nat.not_lt_zero _)⟩
  counter _ := rfl

namespace Maps
variable {m : Maps} {a key : U32}

theorem keyOf_known (h : m.ipToKey.lookup a = some key) : m.keyOf a = key := by
  rw [keyOf, h, Option.getD_some]

theorem keyOf_unknown (h : m.ipToKey.lookup a = none) :
    (m.keyOf a).toNat = (m.serverCnt 0).toNat := by
  have hlt := (m.serverCnt 0).isLt
  rw [keyOf, h, Option.getD_none, BitVec.toNat_setWidth]
  omega

/-- A full index takes no new address. -/
theorem note_full (hs : m.ipToKey.size = maxServers) (a : U32) : m.note a = m := by
  rw [note]
  split
  · rename_i h
    rw [HashMap.update_full h hs]
  · rfl

theorem note_ipToKey (h : m.ipToKey.lookup a = none) :
    (m.note a).ipToKey = m.ipToKey.update a (m.keyOf a) := by
  rw [note, if_pos h]

/-- With room, a new address is put on record under its key. -/
theorem lookup_note (h : m.ipToKey.lookup a = none) (hs : m.ipToKey.size < maxServers) (b : U32) :
    (m.note a).ipToKey.lookup b = if b = a then some (m.keyOf a) else m.ipToKey.lookup b := by
  rw [note_ipToKey h, HashMap.lookup_insert h hs]

theorem size_note (h : m.ipToKey.lookup a = none) (hs : m.ipToKey.size < maxServers) :
    (m.note a).ipToKey.size = m.ipToKey.size + 1 := by
  rw [note_ipToKey h, HashMap.size_insert h hs]

/-- The addresses in the slots after a registration at `k`. -/
theorem saddr_registered (m : Maps) (k : Slot) (f : Bytes) (j : Slot) :
    (((m.note (ipSaddr f)).set k (newInfo f)).bump.servers j).saddr =
      if j = k then ipSaddr f else (m.servers j).saddr := by
  simp only [bump_servers, set_servers, note_servers, Function.update_apply]
  split <;> rfl

end Maps

/-- What a move leaves of the index, the counter and the addresses in the slots. -/
inductive Indexed (m : Maps) (f : Bytes) (n : Maps) : Prop
  | refuse (hp : IsPing f) (hk : maxServers ≤ (m.keyOf (ipSaddr f)).toNat)
      (hn : n = (m.note (ipSaddr f)).bump) : Indexed m f n
  | register (k : Slot) (hp : IsPing f) (hk : m.keyOf (ipSaddr f) = slotKey k)
      (h₀ : (m.servers k).saddr = 0#32)
      (hn : n = ((m.note (ipSaddr f)).set k (newInfo f)).bump) : Indexed m f n
  /-- A completion: its sender may be put on record. -/
  | complete (k : Slot) (hk : m.keyOf (ipSaddr f) = slotKey k) (hr : (m.servers k).saddr ≠ 0#32)
      (hi : n.ipToKey = (m.note (ipSaddr f)).ipToKey)
      (hs : ∀ j : Slot, (n.servers j).saddr = (m.servers j).saddr)
      (hc : n.serverCnt = m.serverCnt) : Indexed m f n
  | same (hi : n.ipToKey = m.ipToKey)
      (hs : ∀ j : Slot, (n.servers j).saddr = (m.servers j).saddr)
      (hc : n.serverCnt = m.serverCnt) : Indexed m f n

theorem Move.indexed {tail : Option (Vector U8 7)} {m : Maps} {f : Frame} {o : Outcome}
    (h : Move tail m f o) : Indexed m f.bytes o.maps := by
  have hcredit : ∀ k j : Slot, (((m.note (ipSaddr f.bytes)).credit k).servers j).saddr =
      (m.servers j).saddr := by
    intro k j
    rw [Maps.note_credit_servers, saddr_of_identity (identity_credit m k j)]
  have hcnt := m.note_serverCnt (ipSaddr f.bytes)
  cases h with
  | other | wait => exact .same rfl (fun _ => rfl) rfl
  | refuse hp hk => exact .refuse hp hk rfl
  | register k hp hk h₀ => exact .register k hp hk h₀ rfl
  | done k hp hk hr | stuck k hp hk hr => exact .complete k hk hr rfl (hcredit k) hcnt
  | drain k j v rest bs hp hk hr =>
      refine .complete k hk hr rfl (fun l => ?_) hcnt
      exact (saddr_of_identity (identity_charge _ j l)).trans (hcredit k l)
  | send k => exact .same rfl (fun j => saddr_of_identity (identity_charge m k j)) rfl

section
variable {m m' : Maps} {a : U32} {k : Slot}

/-- Only the index, the slots' addresses and, while there is room, the counter matter. -/
theorem Registry.congr (h : Registry m) (hi : m'.ipToKey = m.ipToKey)
    (hs : ∀ k : Slot, (m'.servers k).saddr = (m.servers k).saddr)
    (hc : m.ipToKey.size < maxServers → m'.serverCnt 0 = m.serverCnt 0) : Registry m' where
  slot a key hl := by
    obtain ⟨k, hk, ha⟩ := h.slot a key (hi ▸ hl)
    exact ⟨k, hk, by rwa [hs k]⟩
  known k hk := by
    rw [hs k] at hk ⊢
    rw [hi]
    exact h.known k hk
  filled k := by rw [hs k, hi]; exact h.filled k
  counter hlt := by
    rw [hi] at hlt ⊢
    rw [hc hlt]
    exact h.counter hlt

/-- With room, the counter names a free slot. -/
theorem Registry.free_of_room (h : Registry m) (hl : m.ipToKey.lookup a = none)
    (hs : m.ipToKey.size < maxServers) (hk : m.keyOf a = slotKey k) :
    (m.servers k).saddr = 0#32 := by
  have hkey := Maps.keyOf_unknown hl
  rw [hk, slotKey_toNat, h.counter hs] at hkey
  by_contra hr
  have := (h.filled k).mp hr
  omega

/-- A ping taken to an occupied slot leaves the index as it is: its address is on record, or the
index is full. -/
theorem Registry.note_of_occupied (h : Registry m) (hk : m.keyOf a = slotKey k)
    (hr : (m.servers k).saddr ≠ 0#32) : m.note a = m := by
  by_cases hl : m.ipToKey.lookup a = none
  · by_cases hs : m.ipToKey.size < maxServers
    · exact absurd (h.free_of_room hl hs hk) hr
    · exact Maps.note_full (Nat.le_antisymm m.ipToKey.size_le (Nat.not_lt.mp hs)) a
  · exact Maps.note_of_known hl

/-- A ping taken past the last slot finds the index full. -/
theorem Registry.note_of_past (h : Registry m) (hk : maxServers ≤ (m.keyOf a).toNat) :
    m.ipToKey.size = maxServers := by
  cases hl : m.ipToKey.lookup a with
  | some key =>
      obtain ⟨k, rfl, -⟩ := h.slot a key hl
      exact absurd (Maps.keyOf_known hl) (ne_slotKey_of_past hk k)
  | none =>
      rw [Maps.keyOf_unknown hl] at hk
      by_contra hs
      have hlt : m.ipToKey.size < maxServers := Nat.lt_of_le_of_ne m.ipToKey.size_le hs
      rw [h.counter hlt] at hk
      omega

/-- A ping taken to an empty slot comes from an address not on record, and the slot is the next
one. -/
theorem Registry.fresh_of_empty (h : Registry m) (ha : a ≠ 0#32) (hk : m.keyOf a = slotKey k)
    (h₀ : (m.servers k).saddr = 0#32) :
    m.ipToKey.lookup a = none ∧ k.val = m.ipToKey.size ∧ (m.serverCnt 0).toNat = k.val := by
  have hl : m.ipToKey.lookup a = none := by
    cases hl : m.ipToKey.lookup a with
    | none => rfl
    | some key =>
        obtain ⟨j, rfl, hj, -⟩ := h.slot a key hl
        obtain rfl := slotKey_injective ((Maps.keyOf_known hl).symm.trans hk)
        exact absurd (hj.symm.trans h₀) ha
  have hge : m.ipToKey.size ≤ k.val := Nat.not_lt.mp fun hlt => (h.filled k).mpr hlt h₀
  have hcnt := h.counter (Nat.lt_of_le_of_lt hge k.isLt)
  have hkey := Maps.keyOf_unknown hl
  rw [hk, slotKey_toNat] at hkey
  exact ⟨hl, by omega, by omega⟩

/-- A registration keeps the agreement. -/
theorem Registry.register (h : Registry m) {f : Bytes} (ha : ipSaddr f ≠ 0#32)
    (hk : m.keyOf (ipSaddr f) = slotKey k) (h₀ : (m.servers k).saddr = 0#32) :
    Registry ((m.note (ipSaddr f)).set k (newInfo f)).bump := by
  obtain ⟨hl, hks, hcnt⟩ := h.fresh_of_empty ha hk h₀
  have hroom : m.ipToKey.size < maxServers := hks ▸ k.isLt
  have hlook := Maps.lookup_note hl hroom
  have hsize := Maps.size_note hl hroom
  have hsrv := Maps.saddr_registered m k f
  rw [hk] at hlook
  constructor
  · intro b key hb
    simp only [Maps.bump_ipToKey, Maps.set_ipToKey, hlook] at hb
    split at hb
    · rename_i e
      cases hb
      exact ⟨k, rfl, by rw [hsrv, if_pos rfl, e], e ▸ ha⟩
    · -- the slot of an older address was occupied, so it is not `k`
      obtain ⟨j, rfl, hj, hb₀⟩ := h.slot b key hb
      refine ⟨j, rfl, ?_, hb₀⟩
      rw [hsrv, if_neg fun e => hb₀ (by rw [← hj, e, h₀]), hj]
  · intro j hj
    simp only [hsrv, Maps.bump_ipToKey, Maps.set_ipToKey, hlook] at hj ⊢
    by_cases e : j = k
    · rw [if_pos e, if_pos rfl, e]
    · -- and an older slot's address was on record, so it is not the new one
      rw [if_neg e] at hj ⊢
      have hknown := h.known j hj
      rw [if_neg fun e' => ?_, hknown]
      rw [e', hl] at hknown
      cases hknown
  · intro j
    simp only [hsrv, Maps.bump_ipToKey, Maps.set_ipToKey, hsize]
    by_cases e : j = k
    · rw [if_pos e, e]
      exact ⟨fun _ => by omega, fun _ => ha⟩
    · rw [if_neg e, h.filled j]
      have : j.val ≠ k.val := fun e' => e (Fin.ext e')
      omega
  · intro _
    have h1 : (1#16).toNat = 1 := rfl
    have hk3 : k.val < 3 := k.isLt
    simp only [Maps.bump_serverCnt, Maps.set_serverCnt, Maps.note_serverCnt, Maps.bump_ipToKey,
      Maps.set_ipToKey, hsize, BitVec.toNat_add, h1]
    omega

/-- Every move keeps the agreement, a ping's into an empty slot if it comes from a host. -/
theorem Move.registry {tail : Option (Vector U8 7)} {f : Frame} {o : Outcome} (h : Registry m)
    (hf : IsPing f.bytes → (∃ k : Slot, (m.servers k).saddr = 0#32) → ipSaddr f.bytes ≠ 0#32)
    (hmv : Move tail m f o) : Registry o.maps := by
  cases hmv.indexed with
  | refuse hp hk hn =>
      -- the counter moves, but the invariant does not look at it in a full index
      have hs := h.note_of_past hk
      rw [hn, Maps.note_full hs]
      exact h.congr rfl (fun _ => rfl) fun hlt => absurd hlt (by omega)
  | register k hp hk h₀ hn =>
      rw [hn]
      exact h.register (hf hp ⟨k, h₀⟩) hk h₀
  | complete k hk hr hi hs hc =>
      rw [h.note_of_occupied hk hr] at hi
      exact h.congr hi hs fun _ => congrFun hc 0
  | same hi hs hc => exact h.congr hi hs fun _ => congrFun hc 0

end

theorem registry_after {is : List Input} (hz : ∀ i ∈ is, FromHost i.frame.bytes) :
    Registry (lb.after Maps.empty is) := by
  have h : CreditBound (lb.after Maps.empty is) ∧ Registry (lb.after Maps.empty is) :=
    (lb.along_of_forall hz Maps.empty).invariant (P := fun m => CreditBound m ∧ Registry m)
      (fun m i h hf => ⟨creditBound_step i h.1,
        (loadBalancer_move i.tail i.frame h.1).registry h.2 fun hp _ => hf hp⟩)
      ⟨creditBound_empty, registry_empty⟩
  exact h.2

/-- **Registry consistency.**  After every run over pings from nonzero addresses, `ip_to_key` is
injective with values below `MAX_SERVERS`, it takes an address to a slot exactly when the address
is nonzero and the slot holds it, and the occupied slots are the first `|ip_to_key|` ones. -/
theorem registry_consistent {is : List Input} (hz : ∀ i ∈ is, FromHost i.frame.bytes) :
    (∀ a b key, (lb.after Maps.empty is).ipToKey.lookup a = some key →
      (lb.after Maps.empty is).ipToKey.lookup b = some key → a = b) ∧
    (∀ a key, (lb.after Maps.empty is).ipToKey.lookup a = some key → key.toNat < maxServers) ∧
    (∀ a key, (lb.after Maps.empty is).ipToKey.lookup a = some key ↔
      a ≠ 0#32 ∧ ∃ k : Slot, key = slotKey k ∧ ((lb.after Maps.empty is).servers k).saddr = a) ∧
    ∀ k : Slot, ((lb.after Maps.empty is).servers k).saddr ≠ 0#32 ↔
      k.val < (lb.after Maps.empty is).ipToKey.size := by
  have h := registry_after hz
  refine ⟨fun a b key ha hb => ?_, fun a key ha => ?_, fun a key => ⟨fun ha => ?_, ?_⟩, h.filled⟩
  · obtain ⟨k, rfl, hk, -⟩ := h.slot a key ha
    obtain ⟨j, hj, hb, -⟩ := h.slot b _ hb
    rw [← hk, ← hb, slotKey_injective hj]
  · obtain ⟨k, rfl, -⟩ := h.slot a key ha
    rw [slotKey_toNat]
    exact k.isLt
  · obtain ⟨k, hkey, hk, ha₀⟩ := h.slot a key ha
    exact ⟨ha₀, k, hkey, hk⟩
  · rintro ⟨ha₀, k, rfl, rfl⟩
    exact h.known k ha₀

/-- Two hosts, the first of which completes a job. -/
theorem registry_consistent_two_hosts :
    let m := lb.after Maps.empty
      [growing (pingFrom 1#32), growing (pingFrom 2#32), growing (pingFrom 1#32)]
    (∀ a b key, m.ipToKey.lookup a = some key → m.ipToKey.lookup b = some key → a = b) ∧
    (∀ a key, m.ipToKey.lookup a = some key → key.toNat < maxServers) ∧
    (∀ a key, m.ipToKey.lookup a = some key ↔
      a ≠ 0#32 ∧ ∃ k : Slot, key = slotKey k ∧ (m.servers k).saddr = a) ∧
    ∀ k : Slot, (m.servers k).saddr ≠ 0#32 ↔ k.val < m.ipToKey.size :=
  registry_consistent (by simp [growing, FromHost])

/-- At `0.0.0.0` the two disagree from the start: an empty slot holds it, and it is not on
record. -/
theorem registry_inconsistent_at_zero :
    ¬ ∀ is : List Input, (∀ i ∈ is, FromHost i.frame.bytes) → ∀ (a key : U32),
      (lb.after Maps.empty is).ipToKey.lookup a = some key ↔
        ∃ k : Slot, key = slotKey k ∧ ((lb.after Maps.empty is).servers k).saddr = a := by
  intro h
  have h₀ := (h [] (by simp) 0#32 (slotKey 0)).mpr ⟨0, rfl, rfl⟩
  cases h₀

end EbpfLb
