import EbpfLoadBalancer.Balancer.Credits

/-!
# Balancer — where a job is sent

A slot's identity is everything in it but its credits.  A move either keeps the identity of a
slot or fills an empty slot from its own ping (`Move.slot`), so a registered slot holds the
addresses of one ping of the run's past (`recorded_after`) and never changes them
(`identity_stable`).  A frame sent out carries the identity of one registered slot
(`Move.tx`), hence the addresses of one earlier ping.
-/

namespace EbpfLb
open Bpf

/-- Everything in a slot but its credits. -/
def DestInfo.identity (info : DestInfo) : U32 × U32 × Vector U8 6 :=
  (info.saddr, info.daddr, info.dmac)

@[simp] theorem identity_credited (info : DestInfo) : info.credited.identity = info.identity := rfl
@[simp] theorem identity_charged (info : DestInfo) : info.charged.identity = info.identity := rfl

theorem saddr_of_identity {i j : DestInfo} (h : i.identity = j.identity) : i.saddr = j.saddr :=
  (Prod.mk.injEq .. ▸ h).1

@[simp] theorem identity_credit (m : Maps) (k j : Slot) :
    ((m.credit k).servers j).identity = (m.servers j).identity := by
  rw [Maps.credit_servers]
  split
  · rename_i h
    rw [h, identity_credited]
  · rfl

@[simp] theorem identity_charge (m : Maps) (k j : Slot) :
    ((m.charge k).servers j).identity = (m.servers j).identity := by
  rw [Maps.charge_servers]
  split
  · rename_i h
    rw [h, identity_charged]
  · rfl

section
variable {tail : Option (Vector U8 7)} {m : Maps} {f : Frame} {o : Outcome}

/-- A slot keeps its identity, or it was empty and holds what the ping `f` carries. -/
theorem Move.slot (h : Move tail m f o) (j : Slot) :
    (o.maps.servers j).identity = (m.servers j).identity ∨
    (m.servers j).saddr = 0#32 ∧ IsPing f.bytes ∧ o.maps.servers j = newInfo f.bytes := by
  cases h with
  | other | wait => exact .inl rfl
  | refuse => exact .inl (by simp)
  | register k hp hk h₀ =>
      by_cases e : j = k
      · subst e
        exact .inr ⟨h₀, hp, by simp⟩
      · exact .inl (by simp [e])
  | done | drain | stuck | send => exact .inl (by simp)

/-- A registered slot keeps its backend. -/
theorem Move.slot_of_registered (h : Move tail m f o) {j : Slot}
    (hr : (m.servers j).saddr ≠ 0#32) :
    (o.maps.servers j).identity = (m.servers j).identity := by
  rcases h.slot j with hid | ⟨h₀, -, -⟩
  · exact hid
  · exact absurd h₀ hr

/-- What goes out is a 50-byte frame rewritten towards one registered slot. -/
theorem Move.tx (h : Move tail m f o) (ht : o.verdict = .tx) :
    ∃ (j : Slot) (info : DestInfo) (g : Bytes), (m.servers j).saddr ≠ 0#32 ∧
      info.identity = (m.servers j).identity ∧ g.length = 50 ∧ o.frame = rewrite info g := by
  cases h with
  | other => split at ht <;> cases ht
  | refuse | register | done | stuck | wait => cases ht
  | drain k j v rest bs hp hk hr hq ht' hj =>
      refine ⟨j, _, _, ?_, ?_, ?_, rfl⟩
      · rw [← saddr_of_identity (identity_credit m k j)]
        exact hj.registered
      · rw [identity_charged, identity_credit]
      · simp [hp.length]
  | send k hj hk => exact ⟨k, _, _, hk.registered, identity_charged _, hj.length, rfl⟩

end

/-! ### Along a run -/

/-- The slot holds the addresses of the ping `f`. -/
def RecordedFrom (info : DestInfo) (f : Bytes) : Prop :=
  IsPing f ∧ info.identity = (ipSaddr f, ipDaddr f, ethSource f)

/-- Every registered slot holds the addresses of one ping among the inputs so far. -/
theorem recorded_after (is : List Input) (k : Slot)
    (hk : ((lb.after Maps.empty is).servers k).saddr ≠ 0#32) :
    ∃ i ∈ is, RecordedFrom ((lb.after Maps.empty is).servers k) i.frame.bytes := by
  refine lb.after_induction (P := fun is m => ∀ k : Slot, (m.servers k).saddr ≠ 0#32 →
    ∃ i ∈ is, RecordedFrom (m.servers k) i.frame.bytes) ?_ ?_ is k hk
  · exact fun _ h => absurd rfl h
  · intro is i ih k hk
    rcases (lb_move is i).slot k with h | ⟨-, hp, h⟩
    · obtain ⟨j, hj, hpj, hr⟩ := ih k (saddr_of_identity h ▸ hk)
      exact ⟨j, List.mem_append_left _ hj, hpj, h.trans hr⟩
    · exact ⟨i, by simp, hp, congrArg DestInfo.identity h⟩

/-- A registered slot keeps its identity for the rest of the run. -/
theorem identity_stable (is js : List Input) (k : Slot)
    (hk : ((lb.after Maps.empty is).servers k).saddr ≠ 0#32) :
    ((lb.after Maps.empty (is ++ js)).servers k).identity =
      ((lb.after Maps.empty is).servers k).identity := by
  induction js using List.reverseRecOn with
  | nil => rw [List.append_nil]
  | append_singleton js j ih =>
      rw [← List.append_assoc, lb.after_snoc]
      exact ((lb_move (is ++ js) j).slot_of_registered (saddr_of_identity ih ▸ hk)).trans ih

/-- **Dispatch provenance and stable identity.**  Whatever is sent out goes to the MAC and IPv4
address of one single earlier ping, from the address that ping was sent to; and a registered
slot never changes its addresses. -/
theorem dispatch_provenance (is : List Input) :
    (∀ i : Input, (lb.out (lb.after Maps.empty is) i).verdict = .tx →
      ∃ j ∈ is, IsPing j.frame.bytes ∧ ipSaddr j.frame.bytes ≠ 0#32 ∧
        ethDest (lb.out (lb.after Maps.empty is) i).frame = ethSource j.frame.bytes ∧
        ipDaddr (lb.out (lb.after Maps.empty is) i).frame = ipSaddr j.frame.bytes ∧
        ipSaddr (lb.out (lb.after Maps.empty is) i).frame = ipDaddr j.frame.bytes) ∧
    ∀ (js : List Input) (k : Slot), ((lb.after Maps.empty is).servers k).saddr ≠ 0#32 →
      ((lb.after Maps.empty (is ++ js)).servers k).saddr =
          ((lb.after Maps.empty is).servers k).saddr ∧
        ((lb.after Maps.empty (is ++ js)).servers k).daddr =
          ((lb.after Maps.empty is).servers k).daddr ∧
        ((lb.after Maps.empty (is ++ js)).servers k).dmac =
          ((lb.after Maps.empty is).servers k).dmac := by
  refine ⟨fun i ht => ?_, fun js k hk => ?_⟩
  · obtain ⟨k, info, g, hr, hid, hl, hf⟩ := (lb_move is i).tx ht
    obtain ⟨j, hj, hp, hrec⟩ := recorded_after is k hr
    have hinfo := hid.trans hrec
    simp only [DestInfo.identity, Prod.mk.injEq] at hinfo
    obtain ⟨hs, hd, hm⟩ := hinfo
    have hg : 42 ≤ g.length := by omega
    refine ⟨j, hj, hp, ?_, ?_, ?_, ?_⟩
    · rwa [← hs, saddr_of_identity hid]
    · rw [hf, ethDest_rewrite hg, hm]
    · rw [hf, ipDaddr_rewrite hg, hs]
    · rw [hf, ipSaddr_rewrite hg, hd]
  · simpa only [DestInfo.identity, Prod.mk.injEq] using identity_stable is js k hk

end EbpfLb
