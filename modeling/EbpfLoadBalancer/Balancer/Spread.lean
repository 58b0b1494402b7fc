import EbpfLoadBalancer.Balancer.Dispatching

/-!
# Balancer — the jobs are spread

The selection takes a slot with the most credits, so what it sends leaves the credits of the
registered backends as level as they were, up to one (`burst_spread_evenly`).  Behind a completion
it selects once the completion is credited, and no slot is left with more than one credit over the
one it has charged (`Move.tx_level`).
-/

namespace EbpfLb
open Bpf

/-- The credits of the registered backends differ by `d` at most. -/
def LevelCredits (d : Nat) (m : Maps) : Prop :=
  ∀ j k : Slot, (m.servers j).saddr ≠ 0#32 → (m.servers k).saddr ≠ 0#32 →
    (m.servers j).freeThreads.toNat ≤ (m.servers k).freeThreads.toNat + d

instance (d : Nat) (m : Maps) : Decidable (LevelCredits d m) :=
  inferInstanceAs (Decidable (∀ _ _ : Slot, _))

section
variable {tail : Option (Vector U8 7)} {m : Maps} {f : Frame} {o : Outcome} {d : Nat}

theorem levelCredits_iff : LevelCredits d m ↔
    Dispatch.Level (fun k => (m.servers k).saddr ≠ 0#32) d m.dispatch.credit := by
  constructor
  · intro h j k hj hk
    rw [Maps.dispatch_credit_apply hj, Maps.dispatch_credit_apply hk]
    exact h j k hj hk
  · intro h j k hj hk
    have hjk := h j k hj hk
    rwa [Maps.dispatch_credit_apply hj, Maps.dispatch_credit_apply hk] at hjk

/-- A job sent straight on leaves the credits level. -/
theorem LevelCredits.charge (h : LevelCredits d m) (hd : 1 ≤ d) {k : Slot}
    (hk : LeastLoaded m.servers k) : LevelCredits d (m.charge k) := by
  have hsaddr : ∀ j : Slot, ((m.charge k).servers j).saddr = (m.servers j).saddr := fun j =>
    saddr_of_identity (identity_charge m k j)
  have hmax : ∀ j, (m.servers j).saddr ≠ 0#32 → m.dispatch.credit j ≤ m.dispatch.credit k := by
    intro j hj
    rw [Maps.dispatch_credit_apply hj, Maps.dispatch_credit_apply hk.registered]
    exact hk.max j hj
  have hlevel := (levelCredits_iff.mp h).spend hd hmax
  rw [levelCredits_iff, Maps.dispatch_charge hk.registered hk.pos]
  simpa only [hsaddr] using hlevel

/-- A frame that is no ping leaves the credits level. -/
theorem Move.level (h : LevelCredits d m) (hd : 1 ≤ d) (hp : ¬ IsPing f.bytes)
    (hmv : Move tail m f o) : LevelCredits d o.maps := by
  cases hmv with
  | other | wait => exact h
  | send k _ hk => exact h.charge hd hk
  | refuse hp' | register _ hp' | done _ hp' | drain _ _ _ _ _ hp' | stuck _ hp' =>
      exact absurd hp' hp

/-- After a job is sent no backend has more than one credit over the one it is sent to. -/
theorem LeastLoaded.charged_max {k : Slot} (h : LeastLoaded m.servers k) {j : Slot}
    (hj : (m.servers j).saddr ≠ 0#32) :
    ((m.charge k).servers j).freeThreads.toNat ≤
      ((m.charge k).servers k).freeThreads.toNat + 1 := by
  have hmax := h.max j hj
  have hpos := h.pos
  have hk : ((m.charge k).servers k).freeThreads.toNat =
      (m.servers k).freeThreads.toNat - 1 := by
    rw [Maps.charge_servers, if_pos rfl, charged_toNat hpos]
  rw [hk, Maps.charge_servers]
  split
  · rw [charged_toNat hpos]
    omega
  · omega

/-- **A job goes to a backend with the most credits**, straight or off the queue: afterwards no
registered backend has more than one over it. -/
theorem Move.tx_level (hmv : Move tail m f o) (ht : o.verdict = .tx) :
    ∃ k : Slot, (o.maps.servers k).saddr = ipDaddr o.frame ∧
      ∀ j : Slot, (o.maps.servers j).saddr ≠ 0#32 →
        (o.maps.servers j).freeThreads.toNat ≤ (o.maps.servers k).freeThreads.toNat + 1 := by
  cases hmv with
  | other => split at ht <;> cases ht
  | refuse | register | done | stuck | wait => cases ht
  | send k hj hk =>
      have hf : 42 ≤ f.bytes.length := by
        have := hj.length
        omega
      refine ⟨k, ?_, fun j hj => hk.charged_max ?_⟩
      · rw [ipDaddr_rewrite hf]
        exact saddr_of_identity (identity_charge m k k)
      · rwa [saddr_of_identity (identity_charge m k j)] at hj
  | drain k l v rest bs hp hk hr hq ht' hl =>
      have hs : ((m.note (ipSaddr f.bytes)).credit k).popped.servers = (m.credit k).servers :=
        m.note_credit_servers _ k
      refine ⟨l, ?_, fun j hj => ?_⟩
      · rw [ipDaddr_rewrite (by simp [hp.length]), saddr_of_identity (identity_charge _ l l), hs]
        rfl
      · rw [← hs] at hl
        refine hl.charged_max ?_
        rwa [saddr_of_identity (identity_charge _ l j)] at hj

end

/-- **A burst is spread evenly.**  While no ping arrives, whatever jobs and other frames do: the
credits of any two registered backends differ by as much as they did at most, or by one. -/
theorem burst_spread_evenly (is : List Input) {js : List Input} {d : Nat} (hd : 1 ≤ d)
    (hl : LevelCredits d (lb.after Maps.empty is)) (hj : ∀ i ∈ js, ¬ IsPing i.frame.bytes) :
    LevelCredits d (lb.after Maps.empty (is ++ js)) := by
  rw [Machine.after_append]
  exact ((lb.along_of_forall hj _).invariant
    (P := fun m => CreditBound m ∧ LevelCredits d m)
    (fun m i h hp => ⟨creditBound_step i h.1,
      (loadBalancer_move i.tail i.frame h.1).level h.2 hd hp⟩) ⟨creditBound_after is, hl⟩).2

theorem burst_spread_evenly_threeJobs :
    LevelCredits 1 (lb.after Maps.empty ([growing (pingFrom 1#32), growing (pingFrom 2#32)] ++
      List.replicate 3 (growing (jobOf 7#64)))) := by
  refine burst_spread_evenly _ (Nat.le_refl 1) (by decide +kernel) fun i hi => ?_
  rw [List.eq_of_mem_replicate hi]
  exact fun hp => hp.not_isJob (isJob_jobOf 7#64)

end EbpfLb
