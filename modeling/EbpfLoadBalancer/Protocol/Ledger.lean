import EbpfLoadBalancer.Protocol.System

/-!
# Protocol — what a frame does to the credits of one slot

For a registered slot a step of the balancer is one equation (`Move.ledger`): its credits and the
job sent to it, if one is, make its credits before and the completion credited to it, if one is,
up to `MAX_THREADS`.  Both sides count: a completion that drains the queue credits one slot and
charges one, possibly the same.

Among the hosts of a deployment a ping is credited to nobody but its sender
(`Registry.credited_host`).  A host not on record leaves room in the index, since there are no
more hosts than slots, so the slot it is taken to is empty.
-/

namespace EbpfLb
open Bpf

/-- The jobs the outcome sends to `a`. -/
def sentTo (o : Outcome) (a : U32) : Nat := if o.verdict = .tx ∧ ipDaddr o.frame = a then 1 else 0

/-- The completions the frame brings to slot `k`. -/
def completesAt (m : Maps) (f : Bytes) (k : Slot) : Nat :=
  if IsPing f ∧ m.keyOf (ipSaddr f) = slotKey k then 1 else 0

section
variable {m : Maps} {f : Frame} {o : Outcome} {j k : Slot}

/-- Two registered slots hold two addresses. -/
theorem Registry.slot_unique (h : Registry m) (hk : (m.servers k).saddr ≠ 0#32)
    (e : (m.servers j).saddr = (m.servers k).saddr) : j = k := by
  have hj := h.known j (e ▸ hk)
  rw [e, h.known k hk] at hj
  exact (slotKey_injective (Option.some.inj hj)).symm

theorem completesAt_of_key (hp : IsPing f.bytes) (hk : m.keyOf (ipSaddr f.bytes) = slotKey j) :
    completesAt m f.bytes k = if j = k then 1 else 0 := by
  rw [completesAt, hk]
  by_cases e : j = k
  · rw [if_pos ⟨hp, congrArg slotKey e⟩, if_pos e]
  · rw [if_neg fun h => e (slotKey_injective h.2), if_neg e]

/-- A frame rewritten towards the slot `j` is sent to the slot `k` when they are one. -/
theorem sentTo_rewrite (h : Registry m) (hk : (m.servers k).saddr ≠ 0#32) {info : DestInfo}
    {g : Bytes} (hg : 42 ≤ g.length) (hi : info.saddr = (m.servers j).saddr) (n : Maps)
    (ps : List Point) :
    sentTo ⟨⟨rewrite info g, n, ps⟩, .tx⟩ (m.servers k).saddr = if j = k then 1 else 0 := by
  simp only [sentTo, ipDaddr_rewrite hg, hi, true_and]
  by_cases e : j = k
  · rw [if_pos e, if_pos (by rw [e])]
  · rw [if_neg e, if_neg fun hs => e (h.slot_unique hk hs)]

/-- A step that sends nothing, credits nothing to the slot and leaves it as it is. -/
theorem ledger_still (hle : (m.servers k).freeThreads.toNat ≤ maxThreads.toNat)
    (hs : o.maps.servers k = m.servers k) (hv : o.verdict ≠ .tx)
    (hc : ¬ (IsPing f.bytes ∧ m.keyOf (ipSaddr f.bytes) = slotKey k)) :
    (o.maps.servers k).freeThreads.toNat + sentTo o (m.servers k).saddr =
      min ((m.servers k).freeThreads.toNat + completesAt m f.bytes k) maxThreads.toNat := by
  have hx : sentTo o (m.servers k).saddr = 0 := if_neg fun h => hv h.1
  have hy : completesAt m f.bytes k = 0 := if_neg hc
  rw [hs, hx, hy, Nat.add_zero, Nat.min_eq_left hle]

theorem freeThreads_credit (hm : CreditBound m) (j : Slot) :
    ((m.credit j).servers k).freeThreads.toNat =
      min ((m.servers k).freeThreads.toNat + if j = k then 1 else 0) maxThreads.toNat := by
  rw [Maps.credit_servers]
  by_cases e : j = k
  · rw [if_pos e.symm, if_pos e, e, credited_toNat (hm k)]
  · rw [if_neg (Ne.symm e), if_neg e, Nat.add_zero, Nat.min_eq_left (hm k)]

theorem freeThreads_charge (hp : 0 < (m.servers j).freeThreads.toNat) :
    ((m.charge j).servers k).freeThreads.toNat + (if j = k then 1 else 0) =
      (m.servers k).freeThreads.toNat := by
  rw [Maps.charge_servers]
  by_cases e : j = k
  · subst e
    rw [if_pos rfl, if_pos rfl, charged_toNat hp]
    omega
  · rw [if_neg (Ne.symm e), if_neg e, Nat.add_zero]

/-- **The ledger of a slot.** -/
theorem Move.ledger {tail : Option (Vector U8 7)} (hm : CreditBound m) (h : Registry m)
    (hmv : Move tail m f o) (hk : (m.servers k).saddr ≠ 0#32) :
    (o.maps.servers k).freeThreads.toNat + sentTo o (m.servers k).saddr =
      min ((m.servers k).freeThreads.toNat + completesAt m f.bytes k) maxThreads.toNat := by
  cases hmv with
  | other hp =>
      refine ledger_still (hm k) rfl ?_ fun h' => hp h'.1
      split <;> exact nofun
  | refuse hp hkey =>
      exact ledger_still (hm k) (by simp) nofun fun h' => ne_slotKey_of_past hkey k h'.2
  | register j hp hkey h₀ =>
      have e : k ≠ j := fun e => hk (e ▸ h₀)
      refine ledger_still (hm k) (by simp [e]) nofun fun h' => ?_
      exact e (slotKey_injective (h'.2.symm.trans hkey))
  | done j hp hkey =>
      have hx : ∀ n ps, sentTo ⟨⟨f.bytes, n, ps⟩, .drop⟩ (m.servers k).saddr = 0 :=
        fun _ _ => if_neg (by simp)
      rw [hx, completesAt_of_key hp hkey, Nat.add_zero, Maps.note_credit_servers,
        freeThreads_credit hm]
  | stuck j hp hkey =>
      have hx : ∀ n ps, sentTo ⟨⟨f.bytes, n, ps⟩, .aborted⟩ (m.servers k).saddr = 0 :=
        fun _ _ => if_neg (by simp)
      rw [hx, completesAt_of_key hp hkey, Nat.add_zero, Maps.popped_servers,
        Maps.note_credit_servers, freeThreads_credit hm]
  | drain j l v rest bs' hp hkey hr hq ht hl =>
      have hpos : 0 <
          (((m.note (ipSaddr f.bytes)).credit j).popped.servers l).freeThreads.toNat := by
        rw [Maps.popped_servers, Maps.note_credit_servers]
        exact hl.pos
      rw [sentTo_rewrite (j := l) h hk (by simp [hp.length])
          (saddr_of_identity ((identity_charged _).trans (identity_credit m j l))),
        freeThreads_charge hpos, Maps.popped_servers, Maps.note_credit_servers,
        freeThreads_credit hm, completesAt_of_key hp hkey]
  | send j hj hl =>
      have hc : completesAt m f.bytes k = 0 := if_neg fun h' => h'.1.not_isJob hj
      rw [sentTo_rewrite (j := j) h hk (by have := hj.length; omega)
          (saddr_of_identity (identity_charged (m.servers j))),
        freeThreads_charge hl.pos, hc, Nat.add_zero, Nat.min_eq_left (hm k)]
  | wait hj => exact ledger_still (hm k) rfl nofun fun h' => h'.1.not_isJob hj

end

/-! ### Hosts -/

section
variable {D : Deployment} {m : Maps}

/-- The registered addresses are hosts'. -/
def HostsOnly (D : Deployment) (m : Maps) : Prop :=
  ∀ k : Slot, (m.servers k).saddr ≠ 0#32 → ∃ h, (m.servers k).saddr = D.addr h

/-- A host not on record leaves a slot free. -/
theorem Registry.room (hr : Registry m) (hh : HostsOnly D m) {h : Fin D.hosts}
    (hl : m.ipToKey.lookup (D.addr h) = none) : m.ipToKey.size < maxServers := by
  by_contra hfull
  have hocc : ∀ k : Slot, (m.servers k).saddr ≠ 0#32 := fun k =>
    (hr.filled k).mpr (Nat.lt_of_lt_of_le k.isLt (Nat.not_lt.mp hfull))
  -- each slot would hold a host, two slots two hosts, and none of them `h`
  choose g hg using fun k => hh k (hocc k)
  have hinj : Function.Injective g := fun j k e =>
    hr.slot_unique (hocc k) ((hg j).trans (e ▸ (hg k).symm))
  have hnot : ¬ Function.Surjective g := by
    intro hs
    obtain ⟨k, hk⟩ := hs h
    have hknown := hr.known k (hocc k)
    rw [hg k, hk, hl] at hknown
    cases hknown
  have hlt := Fintype.card_lt_of_injective_not_surjective g hinj hnot
  rw [Fintype.card_fin, Fintype.card_fin] at hlt
  exact absurd D.few (Nat.not_le.mpr hlt)

/-- A host's ping taken to a registered slot is the slot's host's. -/
theorem Registry.credited_host (hr : Registry m) (hh : HostsOnly D m) {h : Fin D.hosts} {k : Slot}
    (hk : (m.servers k).saddr ≠ 0#32) :
    m.keyOf (D.addr h) = slotKey k ↔ (m.servers k).saddr = D.addr h := by
  constructor
  · intro hkey
    cases hl : m.ipToKey.lookup (D.addr h) with
    | some key =>
        obtain ⟨j, rfl, hj, -⟩ := hr.slot _ _ hl
        obtain rfl := slotKey_injective ((Maps.keyOf_known hl).symm.trans hkey)
        exact hj
    | none =>
        exact absurd (hr.free_of_room hl (hr.room hh hl) hkey) hk
  · intro e
    exact Maps.keyOf_known (e ▸ hr.known k hk)

end

end EbpfLb
