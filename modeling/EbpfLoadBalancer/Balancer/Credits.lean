import EbpfLoadBalancer.Balancer.Step

/-!
# Balancer — the credits stay within bounds

`CreditBound` is kept by every move, whatever the frame and whatever becomes of the growth of
its tail: an increment is clamped, and a decrement is applied to the slot the selection returned,
which has a credit.  `Point.Safe` says this of the places a step passes, and that the three
places where the program would find its maps at odds are not among them.
-/

namespace EbpfLb
open Bpf

/-- What the code relies on at a place: an increment does not wrap, a decrement takes a credit
of a registered backend, and the failure branches are not taken. -/
def Point.Safe : Point → Prop
  | .registered => True
  | .credit _ info => info.freeThreads.toNat ≤ maxThreads.toNat
  | .charge _ info => info.saddr ≠ 0#32 ∧ 1 ≤ info.freeThreads.toNat
  | .unavailable | .nullSelected | .backendNotFound => False

theorem creditBound_empty : CreditBound Maps.empty := fun _ => Nat.zero_le _

section
variable {m m' : Maps} {k : Slot}

theorem CreditBound.of_servers (hm : CreditBound m) (h : m'.servers = m.servers) :
    CreditBound m' := by
  intro j
  rw [h]
  exact hm j

theorem CreditBound.set (hm : CreditBound m) {info : DestInfo}
    (h : info.freeThreads.toNat ≤ maxThreads.toNat) : CreditBound (m.set k info) := by
  intro j
  rw [Maps.set_servers, Function.update_apply]
  split
  · exact h
  · exact hm j

theorem CreditBound.credit (hm : CreditBound m) (k : Slot) : CreditBound (m.credit k) :=
  hm.set (by rw [credited_toNat (hm k)]; exact Nat.min_le_right _ _)

theorem CreditBound.charge (hm : CreditBound m) (hk : 0 < (m.servers k).freeThreads.toNat) :
    CreditBound (m.charge k) :=
  hm.set (by rw [charged_toNat hk]; have := hm k; omega)

end

/-- Every move keeps the bound and passes safe places only. -/
theorem Move.creditBound {tail : Option (Vector U8 7)} {m : Maps} {f : Frame} {o : Outcome}
    (hm : CreditBound m) (h : Move tail m f o) :
    CreditBound o.maps ∧ ∀ p ∈ o.trace, p.Safe := by
  have hn : CreditBound (m.note (ipSaddr f.bytes)) := hm.of_servers (m.note_servers _)
  cases h with
  | other => exact ⟨hm, by simp⟩
  | refuse => exact ⟨hn, by simp [Point.Safe]⟩
  | register k => exact ⟨hn.set (Nat.le_refl _), by simp [Point.Safe]⟩
  | done k => exact ⟨hn.credit k, by simpa [Point.Safe] using hm k⟩
  | drain k j v rest bs hp hk hr hq ht hj =>
      have hs : ((m.note (ipSaddr f.bytes)).credit k).popped.servers = (m.credit k).servers :=
        m.note_credit_servers _ k
      refine ⟨CreditBound.charge ((hn.credit k).of_servers rfl) (by rw [hs]; exact hj.pos), ?_⟩
      simp only [List.mem_cons, List.not_mem_nil, or_false, forall_eq_or_imp, forall_eq]
      exact ⟨hm k, hj.registered, hj.pos⟩
  | stuck k => exact ⟨(hn.credit k).of_servers rfl, by simpa [Point.Safe] using hm k⟩
  | send k _ hk => exact ⟨hm.charge hk.pos, by simpa [Point.Safe] using ⟨hk.registered, hk.pos⟩⟩
  | wait => exact ⟨hm.of_servers rfl, by simp⟩

theorem creditBound_step {m : Maps} (i : Input) (hm : CreditBound m) : CreditBound (lb.step m i) :=
  ((loadBalancer_move i.tail i.frame hm).creditBound hm).1

theorem creditBound_after (is : List Input) : CreditBound (lb.after Maps.empty is) :=
  lb.after_invariant creditBound_empty (fun _ i hm => creditBound_step i hm) is

/-- Every step from a reachable state is a move. -/
theorem lb_move (is : List Input) (i : Input) :
    Move i.tail (lb.after Maps.empty is) i.frame (lb.out (lb.after Maps.empty is) i) :=
  loadBalancer_move i.tail i.frame (creditBound_after is)

/-- **Credit bounds in an open network.**  After every run, over any frames and any outcomes of
the tail growth, every slot has at most `MAX_THREADS` credits, and the next step, on any frame,
passes safe places only. -/
theorem credits_safe (is : List Input) :
    (∀ k : Slot, ((lb.after Maps.empty is).servers k).freeThreads.toNat ≤ maxThreads.toNat) ∧
    ∀ i : Input, ∀ p ∈ (lb.out (lb.after Maps.empty is) i).trace, p.Safe :=
  ⟨creditBound_after is, fun i => ((lb_move is i).creditBound (creditBound_after is)).2⟩

end EbpfLb
