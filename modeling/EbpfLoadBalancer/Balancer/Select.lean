import EbpfLoadBalancer.Model.LoadBalancer

/-!
# Balancer — the selection is an argmax

`get_available_backend` runs the same test at slots `0`, `1`, `2` and keeps a running maximum.
`Scanned n sel` says what the running pair means after the first `n` slots: the sentinel and
zero when none of them has a credit, and otherwise the first slot of greatest credit among the
registered ones (`consider_scanned`).  After the third test that is the specification
(`getAvailableBackend_spec`): `Exhausted` when no registered backend has a credit, `LeastLoaded`
at the slot returned.

The selected key is one of the three slots, so the second lookup never fails and no
`nullSelected` is marked.
-/

namespace EbpfLb
open Bpf

abbrev Slot := Fin maxServers
abbrev Servers := ArrayMap maxServers DestInfo

/-- The key of a slot. -/
def slotKey (k : Slot) : U32 := BitVec.ofNat 32 k.val

@[simp] theorem slotKey_toNat (k : Slot) : (slotKey k).toNat = k.val := by
  have : k.val < 3 := k.isLt
  simp only [slotKey, BitVec.toNat_ofNat]
  omega

theorem slotKey_ne (k : Slot) : slotKey k ≠ -1#32 := by
  revert k
  decide

/-- A key past the last slot is no slot's. -/
theorem ne_slotKey_of_past {key : U32} (h : maxServers ≤ key.toNat) (k : Slot) :
    key ≠ slotKey k := by
  rintro rfl
  rw [slotKey_toNat] at h
  exact absurd k.isLt (Nat.not_lt.mpr h)

theorem slotKey_injective : Function.Injective slotKey := by
  intro j k h
  have := congrArg BitVec.toNat h
  exact Fin.ext (by simpa using this)

@[simp] theorem lookup_slotKey (s : Servers) (k : Slot) : s.lookup (slotKey k) = some (s k) := by
  rw [ArrayMap.lookup_of_lt (by simp)]
  simp

@[simp] theorem update_slotKey (s : Servers) (k : Slot) (v : DestInfo) :
    s.update (slotKey k) v = Function.update s k v := by
  rw [ArrayMap.update_of_lt (by simp)]
  simp

/-- A key below `maxServers` is a slot's. -/
theorem exists_slotKey {key : U32} (h : key.toNat < maxServers) : ∃ k : Slot, key = slotKey k :=
  ⟨⟨key.toNat, h⟩, BitVec.eq_of_toNat_eq (by simp)⟩

/-! ### The specification -/

/-- No registered backend has a credit. -/
def Exhausted (s : Servers) : Prop := ∀ k : Slot, (s k).saddr ≠ 0#32 → (s k).freeThreads = 0#16

/-- `k` is registered, has a credit, and is the first slot of greatest credit among the
registered ones. -/
structure LeastLoaded (s : Servers) (k : Slot) : Prop where
  registered : (s k).saddr ≠ 0#32
  pos : 0 < (s k).freeThreads.toNat
  max : ∀ j, (s j).saddr ≠ 0#32 → (s j).freeThreads.toNat ≤ (s k).freeThreads.toNat
  first : ∀ j < k, (s j).saddr ≠ 0#32 → (s j).freeThreads.toNat < (s k).freeThreads.toNat

instance (s : Servers) : Decidable (Exhausted s) :=
  inferInstanceAs (Decidable (∀ k : Slot, (s k).saddr ≠ 0#32 → (s k).freeThreads = 0#16))

theorem LeastLoaded.not_exhausted {s : Servers} {k : Slot} (h : LeastLoaded s k) :
    ¬ Exhausted s := by
  intro he
  have := h.pos
  rw [he k h.registered] at this
  simp at this

/-! ### The scan -/

/-- What `selected_key` and `max_free_threads` mean after the first `n` slots. -/
def Scanned (s : Servers) (n : Nat) (sel : U32 × U16) : Prop :=
  (sel = (-1#32, 0#16) ∧ ∀ j : Slot, j.val < n → (s j).saddr ≠ 0#32 → (s j).freeThreads = 0#16) ∨
  ∃ k : Slot, k.val < n ∧ sel = (slotKey k, (s k).freeThreads) ∧ (s k).saddr ≠ 0#32 ∧
    0 < (s k).freeThreads.toNat ∧
    (∀ j : Slot, j.val < n → (s j).saddr ≠ 0#32 →
      (s j).freeThreads.toNat ≤ (s k).freeThreads.toNat) ∧
    ∀ j < k, (s j).saddr ≠ 0#32 → (s j).freeThreads.toNat < (s k).freeThreads.toNat

theorem scanned_zero (s : Servers) : Scanned s 0 (-1#32, 0#16) :=
  .inl ⟨rfl, fun _ h => absurd h (Nat.not_lt_zero _)⟩

/-- A slot that does not beat the running maximum leaves the pair as it is. -/
theorem Scanned.skip {s : Servers} {sel : U32 × U16} {k : Slot} (h : Scanned s k.val sel)
    (hk : (s k).saddr ≠ 0#32 → (s k).freeThreads.toNat ≤ sel.2.toNat) :
    Scanned s (k.val + 1) sel := by
  rcases h with ⟨rfl, hz⟩ | ⟨i, hi, rfl, hr, hp, hm, hf⟩
  · refine .inl ⟨rfl, fun j hj hs => ?_⟩
    rcases Nat.lt_succ_iff_lt_or_eq.mp hj with hj | hj
    · exact hz j hj hs
    · obtain rfl := Fin.ext hj
      exact BitVec.eq_of_toNat_eq (by simpa using hk hs)
  · refine .inr ⟨i, by omega, rfl, hr, hp, fun j hj hs => ?_, hf⟩
    rcases Nat.lt_succ_iff_lt_or_eq.mp hj with hj | hj
    · exact hm j hj hs
    · obtain rfl := Fin.ext hj
      exact hk hs

/-- A slot that beats it becomes the selected one. -/
theorem Scanned.take {s : Servers} {sel : U32 × U16} {k : Slot} (h : Scanned s k.val sel)
    (hr : (s k).saddr ≠ 0#32) (hk : sel.2.toNat < (s k).freeThreads.toNat) :
    Scanned s (k.val + 1) (slotKey k, (s k).freeThreads) := by
  have hlt : ∀ j : Slot, j.val < k.val → (s j).saddr ≠ 0#32 →
      (s j).freeThreads.toNat < (s k).freeThreads.toNat := by
    intro j hj hs
    rcases h with ⟨rfl, hz⟩ | ⟨i, -, rfl, -, -, hm, -⟩
    · rw [hz j hj hs]
      exact hk
    · exact Nat.lt_of_le_of_lt (hm j hj hs) hk
  refine .inr ⟨k, Nat.lt_succ_self _, rfl, hr, by omega, fun j hj hs => ?_, hlt⟩
  rcases Nat.lt_succ_iff_lt_or_eq.mp hj with hj | hj
  · exact (hlt j hj hs).le
  · rw [Fin.ext hj]

/-- One copy of the test extends the scan by its slot. -/
theorem consider_scanned {s : Servers} {sel : U32 × U16} (k : Slot) (h : Scanned s k.val sel) :
    Scanned s (k.val + 1) (consider s (slotKey k) sel) := by
  simp only [consider, lookup_slotKey]
  split
  · rename_i hr
    split
    · exact h.take hr ‹_›
    · exact h.skip fun _ => Nat.not_lt.mp ‹_›
  · rename_i hr
    exact h.skip fun h => absurd h hr

/-- **The selection.**  Either no registered backend has a credit and the sentinel comes back,
or the first registered slot of greatest credit does. -/
theorem getAvailableBackend_spec (s : Servers) :
    (getAvailableBackend s = (-1#32, []) ∧ Exhausted s) ∨
    ∃ k : Slot, getAvailableBackend s = (slotKey k, []) ∧ LeastLoaded s k := by
  have h : Scanned s 3 (consider s 2#32 (consider s 1#32 (consider s 0#32 (-1#32, 0#16)))) :=
    consider_scanned 2 (consider_scanned 1 (consider_scanned 0 (scanned_zero s)))
  rcases h with ⟨e, hz⟩ | ⟨k, -, e, hr, hp, hm, hf⟩
  · refine .inl ⟨?_, fun j => hz j j.isLt⟩
    rw [getAvailableBackend, e]
    rfl
  · refine .inr ⟨k, ?_, hr, hp, fun j => hm j j.isLt, hf⟩
    rw [getAvailableBackend, e]
    simp only [if_neg (slotKey_ne k), lookup_slotKey]

/-! ### Against the specification -/

theorem LeastLoaded.unique {s : Servers} {j k : Slot} (hj : LeastLoaded s j)
    (hk : LeastLoaded s k) : j = k := by
  rcases lt_trichotomy j k with h | h | h
  · exact absurd (hk.first j h hj.registered) (Nat.not_lt.mpr (hj.max k hk.registered))
  · exact h
  · exact absurd (hj.first k h hk.registered) (Nat.not_lt.mpr (hk.max j hj.registered))

/-- The arrays have the same registered slots, with the same content. -/
def SameRegistered (s t : Servers) : Prop :=
  ∀ k : Slot, (s k).saddr ≠ 0#32 ∨ (t k).saddr ≠ 0#32 → s k = t k

section
variable {s t : Servers}

theorem SameRegistered.symm (h : SameRegistered s t) : SameRegistered t s := by
  intro k hk
  exact (h k hk.symm).symm

theorem SameRegistered.exhausted (h : SameRegistered s t) (he : Exhausted s) : Exhausted t := by
  intro k hk
  have e := h k (.inr hk)
  rw [← e] at hk ⊢
  exact he k hk

theorem SameRegistered.leastLoaded (h : SameRegistered s t) {k : Slot} (hk : LeastLoaded s k) :
    LeastLoaded t k := by
  have e := h k (.inl hk.registered)
  constructor
  · exact e ▸ hk.registered
  · exact e ▸ hk.pos
  · intro j hj
    have ej := h j (.inr hj)
    rw [← e, ← ej]
    exact hk.max j (ej ▸ hj)
  · intro j hjk hj
    have ej := h j (.inr hj)
    rw [← e, ← ej]
    exact hk.first j hjk (ej ▸ hj)

end

/-- **Least-loaded selection.**  The sentinel comes back exactly when no registered backend has a
credit, and the key of a slot exactly when it is the first registered one of greatest credit; one
of the two always does.  The `return XDP_ABORTED` is not reached, and the slots with `saddr == 0`
have no influence; the array is only read. -/
theorem getAvailableBackend_leastLoaded (s : Servers) :
    ((getAvailableBackend s).1 = -1#32 ↔ Exhausted s) ∧
    (∀ k : Slot, (getAvailableBackend s).1 = slotKey k ↔ LeastLoaded s k) ∧
    (¬ Exhausted s → ∃ k : Slot, (getAvailableBackend s).1 = slotKey k) ∧
    (getAvailableBackend s).2 = [] ∧
    ∀ t, SameRegistered s t → getAvailableBackend t = getAvailableBackend s := by
  rcases getAvailableBackend_spec s with ⟨e, he⟩ | ⟨k, e, hk⟩
  · rw [e]
    refine ⟨⟨fun _ => he, fun _ => rfl⟩, fun j => ⟨fun hj => ?_, fun hj => ?_⟩, fun hn => ?_, rfl,
      fun t ht => ?_⟩
    · exact absurd hj.symm (slotKey_ne j)
    · exact absurd he hj.not_exhausted
    · exact absurd he hn
    · rcases getAvailableBackend_spec t with ⟨et, -⟩ | ⟨j, -, hj⟩
      · exact et
      · exact absurd he (ht.symm.leastLoaded hj).not_exhausted
  · rw [e]
    refine ⟨⟨fun h => ?_, fun he => ?_⟩, fun j => ⟨fun hj => ?_, fun hj => ?_⟩, fun _ => ⟨k, rfl⟩,
      rfl, fun t ht => ?_⟩
    · exact absurd h (slotKey_ne k)
    · exact absurd he hk.not_exhausted
    · exact slotKey_injective hj ▸ hk
    · rw [hk.unique hj]
    · rcases getAvailableBackend_spec t with ⟨-, he⟩ | ⟨j, et, hj⟩
      · exact absurd (ht.symm.exhausted he) hk.not_exhausted
      · rw [et, (ht.leastLoaded hk).unique hj]

end EbpfLb
