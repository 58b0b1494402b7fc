import EbpfLoadBalancer.Balancer.Counter

/-!
# Balancer — the places in the table

A host takes a place when its first ping is taken to the slot the counter names.  The counter is
the number of places taken as long as every pass through the registration branch takes one, and
two kinds of ping pass through it and take none.

A ping of a new host that finds every slot taken (`RefusedPing`) is refused by the index and by
the slots, and counted.  The counter is the number of addresses on record, and a refused ping
leaves the maps as they were, exactly in the runs without such a ping (`refusals_intact_iff`).

A ping from `0.0.0.0` that finds a slot free (`ZeroJoin`) is put on record and counted, and the
slot it is written to is as empty as before; the counter never names that slot again.  Without
such a ping a free place can always be taken (`place_taken`).
-/

namespace EbpfLb
open Bpf

/-- `f` is a ping of a host in no slot, and every slot is taken. -/
def RefusedPing (m : Maps) (f : Bytes) : Prop :=
  IsPing f ∧ (∀ k : Slot, (m.servers k).saddr ≠ 0#32) ∧
    ∀ k : Slot, (m.servers k).saddr ≠ ipSaddr f

/-- `f` is a ping from `0.0.0.0`, and a slot is free. -/
def ZeroJoin (m : Maps) (f : Bytes) : Prop :=
  IsPing f ∧ ipSaddr f = 0#32 ∧ ∃ k : Slot, (m.servers k).saddr = 0#32

instance (m : Maps) (f : Bytes) : Decidable (RefusedPing m f) :=
  inferInstanceAs (Decidable (_ ∧ (∀ _ : Slot, _) ∧ ∀ _ : Slot, _))

instance (m : Maps) (f : Bytes) : Decidable (ZeroJoin m f) :=
  inferInstanceAs (Decidable (_ ∧ _ ∧ ∃ _ : Slot, _))

/-- The counter is the number of addresses on record. -/
structure CountAgrees (m : Maps) : Prop where
  count : (m.serverCnt 0).toNat = m.ipToKey.size
  bound : (m.serverCnt 0).toNat ≤ maxServers

/-- In every state of the run on `is` the counter is the number of addresses on record, and every
refused ping of it leaves the maps as they were. -/
structure RefusalsIntact (is : List Input) : Prop where
  counted : ∀ pre post, is = pre ++ post → CountAgrees (lb.after Maps.empty pre)
  intact : ∀ pre i post, is = pre ++ i :: post →
    RefusedPing (lb.after Maps.empty pre) i.frame.bytes →
    (lb.out (lb.after Maps.empty pre) i).maps = lb.after Maps.empty pre

/-- The ping `f` ends with its sender on record and in a slot with all its credits, and no slot
that was taken has changed. -/
def TakesPlace (m : Maps) (f : Bytes) (n : Maps) : Prop :=
  ∃ k : Slot, n.ipToKey.lookup (ipSaddr f) = some (slotKey k) ∧
    (n.servers k).saddr = ipSaddr f ∧ (n.servers k).freeThreads = maxThreads ∧
    ∀ j : Slot, (m.servers j).saddr ≠ 0#32 → n.servers j = m.servers j

/-! ### The index and the places -/

section
variable {m : Maps} {a : U32} {k : Slot}

/-- A host in no slot is not on record. -/
theorem Registry.unknown (h : Registry m) (ha : ∀ k : Slot, (m.servers k).saddr ≠ a) :
    m.ipToKey.lookup a = none := by
  cases hl : m.ipToKey.lookup a with
  | none => rfl
  | some key =>
      obtain ⟨k, -, hk, -⟩ := h.slot a key hl
      exact absurd hk (ha k)

/-- A free slot leaves room in the index. -/
theorem Registry.size_lt (h : Registry m) (h₀ : (m.servers k).saddr = 0#32) :
    m.ipToKey.size < maxServers := by
  have hk : ¬ k.val < m.ipToKey.size := fun hlt => (h.filled k).mpr hlt h₀
  have := k.isLt
  omega

/-- With every slot taken, the index is full. -/
theorem Registry.size_eq (h : Registry m) (hr : ∀ k : Slot, (m.servers k).saddr ≠ 0#32) :
    m.ipToKey.size = maxServers := by
  have hlast : 2 < m.ipToKey.size := (h.filled 2).mp (hr 2)
  exact Nat.le_antisymm m.ipToKey.size_le hlast

/-- With room, a new host is taken to a free slot. -/
theorem Registry.next (h : Registry m) (hl : m.ipToKey.lookup a = none)
    (hs : m.ipToKey.size < maxServers) :
    ∃ k : Slot, m.keyOf a = slotKey k ∧ (m.servers k).saddr = 0#32 := by
  have hkey : (m.keyOf a).toNat < maxServers := by
    rw [Maps.keyOf_unknown hl, h.counter hs]
    exact hs
  obtain ⟨k, hk⟩ := exists_slotKey hkey
  exact ⟨k, hk, h.free_of_room hl hs hk⟩

end

/-! ### Refused registrations -/

section
variable {m : Maps} {i : Input}

/-- With the counter right, a refused ping is taken past the last slot and moves the counter. -/
theorem RefusedPing.bumps (h : Registry m) (hc : CountAgrees m)
    (hr : RefusedPing m i.frame.bytes) (hmv : Move i.tail m i.frame (lb.out m i)) :
    (lb.out m i).maps = m.bump := by
  obtain ⟨hp, htaken, hnew⟩ := hr
  have hfull := h.size_eq htaken
  have hkey : maxServers ≤ (m.keyOf (ipSaddr i.frame.bytes)).toNat := by
    rw [Maps.keyOf_unknown (h.unknown hnew), hc.count, hfull]
  have hpast := ne_slotKey_of_past hkey
  generalize lb.out m i = o at hmv
  cases hmv with
  | refuse => rw [Maps.note_full hfull]
  | other hp' => exact absurd hp hp'
  | register k _ hk | done k _ hk | drain k _ _ _ _ _ hk | stuck k _ hk =>
      exact absurd hk (hpast k)
  | send _ hj | wait hj => exact absurd hj hp.not_isJob

theorem CountAgrees.not_bump (hc : CountAgrees m) : m.bump ≠ m := by
  intro e
  have h1 : (1#16).toNat = 1 := rfl
  have hcnt : (m.bump.serverCnt 0).toNat = (m.serverCnt 0).toNat := by rw [e]
  have := hc.bound
  rw [Maps.bump_serverCnt, BitVec.toNat_add, h1] at hcnt
  omega

/-- A ping of a host past the last slot is a refused one. -/
theorem Registry.refusedPing (h : Registry m) {f : Bytes} (hp : IsPing f) (ha : ipSaddr f ≠ 0#32)
    (hk : maxServers ≤ (m.keyOf (ipSaddr f)).toNat) : RefusedPing m f := by
  have hfull := h.note_of_past hk
  refine ⟨hp, fun k => (h.filled k).mpr (by rw [hfull]; exact k.isLt), fun k e => ?_⟩
  have hknown := h.known k (e ▸ ha)
  rw [e] at hknown
  exact ne_slotKey_of_past hk k (Maps.keyOf_known hknown)

/-- Every move that is no refused ping keeps the counter right. -/
theorem Move.countAgrees {o : Outcome} (h : Registry m) (hc : CountAgrees m)
    (hf : FromHost i.frame.bytes) (hr : ¬ RefusedPing m i.frame.bytes)
    (hmv : Move i.tail m i.frame o) : CountAgrees o.maps := by
  cases hmv.indexed with
  | refuse hp hk hn => exact absurd (h.refusedPing hp (hf hp) hk) hr
  | register k hp hk h₀ hn =>
      -- one address more, and the counter one further
      obtain ⟨hl, hks, hcnt⟩ := h.fresh_of_empty (hf hp) hk h₀
      have hk3 : k.val < 3 := k.isLt
      have h1 : (1#16).toNat = 1 := rfl
      have hsize : o.maps.ipToKey.size = m.ipToKey.size + 1 := by
        rw [hn, Maps.bump_ipToKey, Maps.set_ipToKey, Maps.size_note hl (h.size_lt h₀)]
      have hnext : (o.maps.serverCnt 0).toNat = (m.serverCnt 0).toNat + 1 := by
        rw [hn, Maps.bump_serverCnt, Maps.set_serverCnt, Maps.note_serverCnt, BitVec.toNat_add, h1]
        omega
      exact ⟨by omega, by omega⟩
  | complete k hk hr hi hs hc' =>
      rw [h.note_of_occupied hk hr] at hi
      exact ⟨by rw [hc', hi, hc.count], by rw [hc']; exact hc.bound⟩
  | same hi hs hc' => exact ⟨by rw [hc', hi, hc.count], by rw [hc']; exact hc.bound⟩

end

theorem countAgrees_empty : CountAgrees Maps.empty := ⟨rfl, Nat.zero_le _⟩

/-- Without a refused ping the counter is right. -/
theorem countAgrees_after {is : List Input} (hz : ∀ i ∈ is, FromHost i.frame.bytes)
    (hr : lb.Along (fun m i => ¬ RefusedPing m i.frame.bytes) Maps.empty is) :
    CountAgrees (lb.after Maps.empty is) := by
  have hboth := Machine.along_and.mpr ⟨lb.along_of_forall hz Maps.empty, hr⟩
  have h : CreditBound (lb.after Maps.empty is) ∧ Registry (lb.after Maps.empty is) ∧
      CountAgrees (lb.after Maps.empty is) := by
    refine hboth.invariant (P := fun m => CreditBound m ∧ Registry m ∧ CountAgrees m) ?_
      ⟨creditBound_empty, registry_empty, countAgrees_empty⟩
    rintro m i ⟨hb, hreg, hc⟩ ⟨hf, hr⟩
    have hmv := loadBalancer_move i.tail i.frame hb
    exact ⟨creditBound_step i hb, hmv.registry hreg fun hp _ => hf hp,
      hmv.countAgrees hreg hc hf hr⟩
  exact h.2.2

/-- **Refused registrations leave the state intact only where there are none.**  In a run whose
pings come from nonzero addresses, the counter is the number of addresses on record throughout,
and every refused ping leaves the maps as they were, exactly when no ping is refused. -/
theorem refusals_intact_iff {is : List Input} (hz : ∀ i ∈ is, FromHost i.frame.bytes) :
    RefusalsIntact is ↔ lb.Along (fun m i => ¬ RefusedPing m i.frame.bytes) Maps.empty is := by
  constructor
  · intro h
    rw [Machine.along_iff]
    intro pre i post e hr
    have hreg : Registry (lb.after Maps.empty pre) :=
      registry_after fun j hj => hz j (by rw [e]; exact List.mem_append_left _ hj)
    have hc := h.counted pre (i :: post) e
    have hkept := h.intact pre i post e hr
    rw [hr.bumps hreg hc (lb_move pre i)] at hkept
    exact hc.not_bump hkept
  · intro h
    constructor
    · rintro pre post rfl
      exact countAgrees_after (fun i hi => hz i (List.mem_append_left _ hi))
        (Machine.along_append.mp h).1
    · intro pre i post e hr
      exact absurd hr (Machine.along_iff.mp h pre i post e)

/-- Three hosts and a fourth. -/
def fourHosts : List Input := threeHosts ++ [fourth]

theorem fromHost_fourHosts : ∀ i ∈ fourHosts, FromHost i.frame.bytes := by
  have hjob : FromHost (jobOf 7#64).bytes := fun hp => absurd (isJob_jobOf 7#64) hp.not_isJob
  simpa [fourHosts, threeHosts, fourth, growing, FromHost] using hjob

theorem refusals_intact_iff_fourHosts :
    RefusalsIntact fourHosts ↔
      lb.Along (fun m i => ¬ RefusedPing m i.frame.bytes) Maps.empty fourHosts :=
  refusals_intact_iff fromHost_fourHosts

/-- The fourth host is counted, and is not on record. -/
theorem refused_ping_counted :
    ¬ ∀ is : List Input, (∀ i ∈ is, FromHost i.frame.bytes) → RefusalsIntact is := by
  intro h
  have hcount := (h fourHosts fromHost_fourHosts).counted fourHosts [] (List.append_nil _).symm
  have hne : ((lb.after Maps.empty fourHosts).serverCnt 0).toNat ≠
      (lb.after Maps.empty fourHosts).ipToKey.size := by decide +kernel
  exact hne hcount.count

/-! ### Free places -/

section
variable {m : Maps} {i : Input} {o : Outcome}

/-- A new host's ping takes the first free slot. -/
theorem Move.takesPlace (h : Registry m) (hp : IsPing i.frame.bytes) {k : Slot}
    (h₀ : (m.servers k).saddr = 0#32)
    (hnew : ∀ k : Slot, (m.servers k).saddr ≠ ipSaddr i.frame.bytes)
    (hmv : Move i.tail m i.frame o) : TakesPlace m i.frame.bytes o.maps := by
  have hl := h.unknown hnew
  obtain ⟨l, hkey, hfree⟩ := h.next hl (h.size_lt h₀)
  cases hmv with
  | other hp' => exact absurd hp hp'
  | refuse _ hpast => exact absurd hkey (ne_slotKey_of_past hpast l)
  | send _ hj | wait hj => exact absurd hj hp.not_isJob
  | done j _ hj hr | drain j _ _ _ _ _ hj hr | stuck j _ hj hr =>
      obtain rfl := slotKey_injective (hkey.symm.trans hj)
      exact absurd hfree hr
  | register j _ hj hj₀ =>
      refine ⟨j, ?_, ?_, ?_, fun l hr => ?_⟩
      · rw [Maps.bump_ipToKey, Maps.set_ipToKey, Maps.lookup_note hl (h.size_lt h₀), if_pos rfl, hj]
      · rw [Maps.bump_servers, Maps.set_servers, Function.update_self, newInfo]
      · rw [Maps.bump_servers, Maps.set_servers, Function.update_self, newInfo]
      · -- the slot written to was empty, so it is not a registered one
        have hne : l ≠ j := fun e => hr (e ▸ hj₀)
        rw [Maps.bump_servers, Maps.set_servers, Function.update_of_ne hne, Maps.note_servers]

end

theorem registry_after_joins {is : List Input}
    (hz : lb.Along (fun m i => ¬ ZeroJoin m i.frame.bytes) Maps.empty is) :
    Registry (lb.after Maps.empty is) := by
  have h : CreditBound (lb.after Maps.empty is) ∧ Registry (lb.after Maps.empty is) := by
    refine hz.invariant (P := fun m => CreditBound m ∧ Registry m) ?_
      ⟨creditBound_empty, registry_empty⟩
    rintro m i ⟨hb, hreg⟩ hz
    have hmv := loadBalancer_move i.tail i.frame hb
    exact ⟨creditBound_step i hb, hmv.registry hreg fun hp h₀ e => hz ⟨hp, e, h₀⟩⟩
  exact h.2

/-- **A free place can be taken while none was burnt.**  In every run in which no ping from
`0.0.0.0` finds a slot free, a ping of a host in no slot takes a place whenever there is one.  The
host's address is nonzero: a free slot holds `0.0.0.0`. -/
theorem place_taken {is : List Input}
    (hz : lb.Along (fun m i => ¬ ZeroJoin m i.frame.bytes) Maps.empty is) {i : Input}
    (hp : IsPing i.frame.bytes)
    (hfree : ∃ k : Slot, ((lb.after Maps.empty is).servers k).saddr = 0#32)
    (hnew : ∀ k : Slot, ((lb.after Maps.empty is).servers k).saddr ≠ ipSaddr i.frame.bytes) :
    TakesPlace (lb.after Maps.empty is) i.frame.bytes (lb.out (lb.after Maps.empty is) i).maps := by
  obtain ⟨k, h₀⟩ := hfree
  exact Move.takesPlace (registry_after_joins hz) hp h₀ hnew (lb_move is i)

/-- One host, and a second. -/
theorem place_taken_second :
    TakesPlace (lb.after Maps.empty [growing (pingFrom 1#32)]) (pingFrom 2#32).bytes
      (lb.out (lb.after Maps.empty [growing (pingFrom 1#32)]) (growing (pingFrom 2#32))).maps :=
  place_taken (i := growing (pingFrom 2#32))
    (by rw [Machine.Along]; exact ⟨by decide +kernel, trivial⟩) (isPing_pingFrom _)
    (by decide +kernel) (by decide +kernel)

/-- Three pings from `0.0.0.0`. -/
def zeroPings : List Input := List.replicate 3 (growing (pingFrom 0#32))

/-- With every slot empty, the first host is refused. -/
theorem place_burnt :
    ¬ ∀ (is : List Input) (i : Input), IsPing i.frame.bytes → ipSaddr i.frame.bytes ≠ 0#32 →
      (∃ k : Slot, ((lb.after Maps.empty is).servers k).saddr = 0#32) →
      (∀ k : Slot, ((lb.after Maps.empty is).servers k).saddr ≠ ipSaddr i.frame.bytes) →
      TakesPlace (lb.after Maps.empty is) i.frame.bytes
        (lb.out (lb.after Maps.empty is) i).maps := by
  intro h
  have hsrc : ipSaddr (growing (pingFrom 1#32)).frame.bytes = 1#32 := ipSaddr_pingFrom _
  have hempty : ∀ k : Slot, ((lb.after Maps.empty zeroPings).servers k).saddr = 0#32 := by
    decide +kernel
  have hstill : ∀ k : Slot, ((lb.out (lb.after Maps.empty zeroPings)
      (growing (pingFrom 1#32))).maps.servers k).saddr = 0#32 := by decide +kernel
  obtain ⟨k, -, hk, -⟩ := h zeroPings (growing (pingFrom 1#32)) (isPing_pingFrom _)
    (by rw [hsrc]; decide) ⟨0, hempty 0⟩ (fun k => by rw [hempty k, hsrc]; decide)
  rw [hsrc, hstill k] at hk
  exact absurd hk (by decide)

end EbpfLb
