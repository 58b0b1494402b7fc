import EbpfLoadBalancer.Protocol.Flow

/-!
# Protocol — the books balance

`Audited` is what the auditor's figures bear out for the slot of a registered host, one inequality
each way: its credits and what is outstanding exceed `MAX_THREADS` by the surplus at most, and
fall short of it by the jobs lost at most.  Every change keeps both.  Outside the balancer a change
is a flow of the accounts (`Account.Flow`), in which a job the process turns away loses nothing: it
holds five more.  The balancer's step is the ledger of the slot (`Move.ledger`), in which an
increment that is clamped loses nothing either, since the slot is then at `MAX_THREADS`.
-/

namespace EbpfLb
open Bpf

variable {D : Deployment}

/-- What the figures bear out for the slot of a registered host. -/
structure Audited (s : System D) (a : Audit D) : Prop where
  upper : ∀ (k : Slot) (h : Fin D.hosts), (s.maps.servers k).saddr = D.addr h →
    (s.maps.servers k).freeThreads.toNat + s.outstanding h ≤ maxThreads.toNat + a.surplus h
  lower : ∀ (k : Slot) (h : Fin D.hosts), (s.maps.servers k).saddr = D.addr h →
    maxThreads.toNat ≤ (s.maps.servers k).freeThreads.toNat + s.inFlight h + s.held h +
      s.pings h + a.lost h

theorem audited_initial : Audited (.initial : System D) ⟨fun _ => 0, fun _ => 0⟩ where
  upper _ h hk := absurd hk.symm (D.nonzero h)
  lower _ h hk := absurd hk.symm (D.nonzero h)

section
variable {s s' : System D} {a : Audit D}

theorem not_justRegistered_of_maps (hm : s'.maps = s.maps) (h : Fin D.hosts) :
    ¬ JustRegistered s s' h := by
  rintro ⟨hn, hr⟩
  exact hn (hm ▸ hr)

/-- A change outside the balancer keeps the inequalities. -/
theorem Audited.outside {e : Event D} (h : Audited s a) (hm : s'.maps = s.maps)
    (hf : ∀ g, Account.Flow (e = .die g) (s.account g) (s'.account g)) :
    Audited s' (a.next s s') := by
  constructor
  · intro k g hk
    rw [hm] at hk ⊢
    have hsur : (a.next s s').surplus g = a.surplus g + (s'.gen g - s.gen g) :=
      if_neg (not_justRegistered_of_maps hm g)
    have hold := h.upper k g hk
    have hup : s'.outstanding g ≤ s.outstanding g + (s'.gen g - s.gen g) := (hf g).outstanding_le
    omega
  · intro k g hk
    rw [hm] at hk ⊢
    have hlost : (a.next s s').lost g = a.lost g + if s'.server g = none then s.held g else 0 :=
      if_neg (not_justRegistered_of_maps hm g)
    have hold := h.lower k g hk
    have hlow := (hf g).settled
    simp only [System.account, Option.isNone_iff_eq_none] at hlow
    rcases hlow with hl | hfull <;> omega

/-! ### The balancer -/

variable {m : Msg D} {f : Frame}

theorem inFlight_balanced (hm : m ∈ s.net) (hf : m.toBalancer = some f) (o : Outcome)
    (g : Fin D.hosts) : (s.balanced m o).inFlight g = s.inFlight g + sentTo o (D.addr g) := by
  have hno : m.isDispatchTo g = false := by
    cases m with
    | job | ping => rfl
    | dispatch => cases hf
  have ht := System.inFlight_take hm g
  rw [hno] at ht
  rw [System.balanced, sentTo]
  split
  · rename_i hv
    rw [System.inFlight_send, ← ht]
    simp [hv, System.inFlight]
  · rename_i hv
    rw [if_neg fun h => hv h.1, ← ht]
    rfl

theorem pings_balanced (hm : m ∈ s.net) (o : Outcome) (g : Fin D.hosts) :
    (s.balanced m o).pings g + (if m.isPingOf g then 1 else 0) = s.pings g := by
  have ht := System.pings_take hm g
  rw [← ht, System.balanced]
  split
  · rw [System.pings_send]
    rfl
  · rfl

theorem held_balanced (m : Msg D) (o : Outcome) (g : Fin D.hosts) :
    (s.balanced m o).held g = s.held g := by rw [System.held, System.balanced_server]; rfl

theorem pending_balanced (m : Msg D) (o : Outcome) (g : Fin D.hosts) :
    (s.balanced m o).pending g = s.pending g := by
  rw [System.pending, System.balanced_server]
  rfl

/-- A ping of the host in the slot, and nothing else, is a completion there. -/
theorem completesAt_of_host (hs : Sound s) (hf : m.toBalancer = some f) {k : Slot}
    {g : Fin D.hosts} (hk : (s.maps.servers k).saddr = D.addr g) :
    completesAt s.maps f.bytes k = if m.isPingOf g then 1 else 0 := by
  have hne : (s.maps.servers k).saddr ≠ 0#32 := hk ▸ D.nonzero g
  cases m with
  | job j =>
      cases hf
      exact if_neg fun h => h.1.not_isJob j.isJob
  | ping p =>
      cases hf
      have hcr := hs.registry.credited_host hs.hosts (h := p.host) hne
      rw [hk, D.injective.eq_iff, eq_comm (a := g)] at hcr
      simp only [completesAt, p.isPing, p.source, hcr, true_and, isPingOf_ping, decide_eq_true_eq]
  | dispatch => cases hf

/-- After the balancer's step a host's slot was the host's before, or the host has just been
registered there by its ping. -/
theorem registered_balanced (hs : Sound s) (hf : m.toBalancer = some f)
    (tail : Option (Vector U8 7)) {k : Slot} {g : Fin D.hosts}
    (hk : ((loadBalancer tail s.maps f).maps.servers k).saddr = D.addr g) :
    (s.maps.servers k).saddr = D.addr g ∨
      JustRegistered s (s.balanced m (loadBalancer tail s.maps f)) g ∧
        (loadBalancer tail s.maps f).maps.servers k = newInfo f.bytes ∧ m.isPingOf g := by
  have hmv := loadBalancer_move tail f hs.bound
  have hreg := hmv.registry hs.registry fun hp _ => Msg.fromHost hf hp
  rcases hmv.slot k with hid | ⟨h₀, hp, hnew⟩
  · exact .inl ((saddr_of_identity hid).symm.trans hk)
  · refine .inr ⟨⟨?_, k, by rwa [System.balanced_maps]⟩, hnew, ?_⟩
    · rintro ⟨j, hj⟩
      have hj' : ((loadBalancer tail s.maps f).maps.servers j).saddr = D.addr g := by
        have hid := hmv.slot_of_registered (hj ▸ D.nonzero g : (s.maps.servers j).saddr ≠ 0#32)
        exact (saddr_of_identity hid).trans hj
      obtain rfl := hreg.slot_unique (hk ▸ D.nonzero g) (hj'.trans hk.symm)
      exact D.nonzero g (hj.symm.trans h₀)
    · obtain ⟨p, rfl, hsrc⟩ := Msg.ping_source hf hp
      rw [hnew] at hk
      simpa using D.injective (hsrc.symm.trans hk)

/-- The balancer's step keeps the books: at a slot that was registered by its ledger, and a slot
registered in it starts from what is outstanding. -/
theorem Audited.balanced (h : Audited s a) (hs : Sound s) (hm : m ∈ s.net)
    (hf : m.toBalancer = some f) (tail : Option (Vector U8 7)) :
    Audited (s.balanced m (loadBalancer tail s.maps f))
      (a.next s (s.balanced m (loadBalancer tail s.maps f))) := by
  have hmv := loadBalancer_move tail f hs.bound
  have hcase : ∀ (k : Slot) (g : Fin D.hosts),
      ((loadBalancer tail s.maps f).maps.servers k).saddr = D.addr g →
        (s.maps.servers k).saddr = D.addr g ∨
          JustRegistered s (s.balanced m (loadBalancer tail s.maps f)) g ∧
            (loadBalancer tail s.maps f).maps.servers k = newInfo f.bytes ∧ m.isPingOf g :=
    fun _ _ => registered_balanced hs hf tail
  set o := loadBalancer tail s.maps f
  have hmaps := s.balanced_maps m o
  have hledger : ∀ (k : Slot) (g : Fin D.hosts), (s.maps.servers k).saddr = D.addr g →
      (o.maps.servers k).freeThreads.toNat + sentTo o (D.addr g) =
        min ((s.maps.servers k).freeThreads.toNat + if m.isPingOf g then 1 else 0)
          maxThreads.toNat := by
    intro k g hk
    have hl := hmv.ledger hs.bound hs.registry (k := k) (hk ▸ D.nonzero g)
    rwa [hk, completesAt_of_host hs hf hk] at hl
  constructor
  · intro k g hk
    rw [hmaps] at hk ⊢
    rcases hcase k g hk with hold | ⟨hjust, hnew, -⟩
    · -- what becomes outstanding is paid for by the ledger of the slot
      have hn : ¬ JustRegistered s (s.balanced m o) g := fun hj => hj.1 ⟨k, hold⟩
      have hsur : (a.next s (s.balanced m o)).surplus g = a.surplus g := by
        simp only [Audit.next, if_neg hn, System.balanced_gen, Nat.sub_self, Nat.add_zero]
      have hup := h.upper k g hold
      have hl := hledger k g hold
      have hp := pings_balanced hm o g
      rw [hsur, System.outstanding, inFlight_balanced hm hf, held_balanced, pending_balanced]
      rw [System.outstanding] at hup
      omega
    · -- the auditor books what is outstanding at a registration
      have hsur : (a.next s (s.balanced m o)).surplus g = (s.balanced m o).outstanding g :=
        if_pos hjust
      rw [hsur, hnew]
      exact Nat.le_refl _
  · intro k g hk
    rw [hmaps] at hk ⊢
    rcases hcase k g hk with hold | ⟨-, hnew, -⟩
    · have hn : ¬ JustRegistered s (s.balanced m o) g := fun hj => hj.1 ⟨k, hold⟩
      have hlost : a.lost g ≤ (a.next s (s.balanced m o)).lost g := by
        simp only [Audit.next, if_neg hn]
        exact Nat.le_add_right _ _
      have hlow := h.lower k g hold
      have hl := hledger k g hold
      have hp := pings_balanced hm o g
      rw [inFlight_balanced hm hf, held_balanced]
      omega
    · have hfull : (o.maps.servers k).freeThreads.toNat = maxThreads.toNat := by rw [hnew]; rfl
      omega

/-- **What is booked keeps the books balanced.** -/
theorem Audited.booked {e : Event D} (h : Audited s a) (hs : Sound s) (hb : Booked s e s') :
    Audited s' (a.next s s') := by
  cases hb with
  | flow hm hf => exact h.outside hm hf
  | balance m f tail hf hm hs' =>
      subst hs'
      exact h.balanced hs hm hf tail
  | reload _ hm =>
      -- no host is registered in the empty maps
      constructor
      · intro k g hk
        rw [hm] at hk
        exact absurd hk.symm (D.nonzero g)
      · intro k g hk
        rw [hm] at hk
        exact absurd hk.symm (D.nonzero g)

theorem Audited.change {e : Event D} (h : Audited s a) (hs : Sound s) (hc : Change s e s') :
    Audited s' (a.next s s') := h.booked hs (hc.booked hs)

end

/-- **The books balance after every run.** -/
theorem audited_after (es : List (Event D)) :
    Sound ((audited D).after auditedInitial es).1 ∧
      Audited ((audited D).after auditedInitial es).1 ((audited D).after auditedInitial es).2 := by
  refine (audited D).after_invariant (P := fun sa => Sound sa.1 ∧ Audited sa.1 sa.2)
    ⟨sound_initial, audited_initial⟩ (fun sa e h => ?_) es
  have hc := protocol_change sa.1 e
  exact ⟨h.1.change hc, h.2.change h.1 hc⟩

end EbpfLb
