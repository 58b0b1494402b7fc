import EbpfLoadBalancer.Protocol.Conservation
import EbpfLoadBalancer.Protocol.Restarts

/-!
# Protocol — a balancer reloaded under idle servers

A process sends its `'S'` once, at its start.  A balancer that is reloaded starts from empty maps,
and hears of a host again only by a ping: a `'D'` for a job it had sent before, or the `'S'` of the
next process.  So a host with nothing outstanding at the reload is never registered and never sent a
job again, as long as its process lives (`forgotten_at_reload`).  This is in the system of `System`,
where every message is delivered once.
-/

namespace EbpfLb
open Bpf

variable {D : Deployment}

/-- The balancer does not know the host, and nothing is to tell it. -/
structure Forgotten (s : System D) (h : Fin D.hosts) : Prop where
  unknown : ¬ Registered s.maps (D.addr h)
  alive : s.server h ≠ none
  quiet : s.Quiet h

/-- The account of a living process with nothing outstanding stays as it is. -/
theorem Account.Flow.of_quiet {dies : Prop} {x y : Account} (hf : Account.Flow dies x y)
    (hd : ¬ dies) (hx : x.absent = false) (hout : x.outstanding = 0) : y = x := by
  cases hf with
  | still => rfl
  | start => cases hx
  | hello | receive | refuse | answer =>
      simp only [Account.outstanding] at hout
      omega
  | die h => exact absurd h hd

section
variable {s s' : System D} {e : Event D} {h : Fin D.hosts}

theorem System.Quiet.outstanding (hq : s.Quiet h) : s.outstanding h = 0 := by
  obtain ⟨hin, hp, hpend, hh⟩ := hq
  rw [System.outstanding]
  omega

theorem System.quiet_of_outstanding (ho : s.outstanding h = 0) : s.Quiet h := by
  rw [System.outstanding] at ho
  exact ⟨by omega, by omega, by omega, by omega⟩

/-- After a reload the balancer knows nobody. -/
theorem forgotten_reload (ha : s.server h ≠ none) (hq : s.Quiet h) :
    Forgotten ((protocol D).step s .reload) h :=
  ⟨fun ⟨_, hk⟩ => D.nonzero h hk.symm, ha, hq⟩

theorem Change.forgotten (hs : Sound s) (he : e ≠ .die h) (hre : e ≠ .reload)
    (hf : Forgotten s h) (hc : Change s e s') : Forgotten s' h := by
  have hstay : s'.maps = s.maps → s'.account h = s.account h → Forgotten s' h := by
    intro hm ha
    refine ⟨hm ▸ hf.unknown, fun hn => hf.alive ?_, System.quiet_of_outstanding ?_⟩
    · have habs : (s'.server h).isNone = (s.server h).isNone := congrArg Account.absent ha
      rw [hn] at habs
      exact Option.isNone_iff_eq_none.mp habs.symm
    · exact (congrArg Account.outstanding ha).trans hf.quiet.outstanding
  cases hc.booked hs with
  | flow hm hflow =>
      refine hstay hm ((hflow h).of_quiet he ?_ hf.quiet.outstanding)
      rw [System.account, ← Bool.not_eq_true, Option.isNone_iff_eq_none]
      exact hf.alive
  | balance m f tail hb hm hs' =>
      subst hs'
      obtain ⟨hin, hp, hpend, hh⟩ := hf.quiet
      -- only a ping of the host's could register it, and the balancer sends to registered hosts
      have hnot : m.isPingOf h = false := by
        have hping := pings_balanced hm (loadBalancer tail s.maps f) h
        cases he : m.isPingOf h with
        | false => rfl
        | true =>
            rw [he, if_pos rfl] at hping
            omega
      have hsent : sentTo (loadBalancer tail s.maps f) (D.addr h) = 0 := by
        by_contra hne
        exact hf.unknown (registered_of_sentTo hs tail hne)
      refine ⟨?_, by rw [System.balanced_server]; exact hf.alive, ?_, ?_, ?_, ?_⟩
      · rintro ⟨k, hk⟩
        rw [System.balanced_maps] at hk
        rcases registered_balanced hs hb tail hk with hold | ⟨-, -, hp⟩
        · exact hf.unknown ⟨k, hold⟩
        · rw [hnot] at hp
          cases hp
      · rw [inFlight_balanced hm hb, hin, hsent]
      · have hping := pings_balanced hm (loadBalancer tail s.maps f) h
        omega
      · rw [pending_balanced, hpend]
      · rw [held_balanced, hh]
  | reload he => exact absurd he hre

/-- **Nothing but the death of its process brings the host back.** -/
theorem Forgotten.step (hs : Sound s) (he : e ≠ .die h) (hf : Forgotten s h) :
    Forgotten ((protocol D).step s e) h := by
  by_cases hre : e = .reload
  · subst hre
    exact forgotten_reload hf.alive hf.quiet
  · exact (protocol_change s e).forgotten hs he hre hf

end

/-- **An idle server is forgotten at a reload.**  When the balancer is reloaded while nothing of a
host is outstanding and its process lives, the host is not registered and nothing is in flight to it
or held by it in any state from then on, as long as its process does not die. -/
theorem forgotten_at_reload {es es' : List (Event D)} {h : Fin D.hosts}
    (ha : ((protocol D).after .initial es).server h ≠ none)
    (hq : ((protocol D).after .initial es).Quiet h) (he : ∀ e ∈ es', e ≠ .die h) :
    ¬ Registered ((protocol D).after .initial (es ++ .reload :: es')).maps (D.addr h) ∧
      ((protocol D).after .initial (es ++ .reload :: es')).Quiet h := by
  have hs := sound_after es
  generalize hes : (protocol D).after .initial es = s at ha hq hs
  rw [Machine.after_append, hes, Machine.after_cons]
  have hrun : Sound ((protocol D).after ((protocol D).step s .reload) es') ∧
      Forgotten ((protocol D).after ((protocol D).step s .reload) es') h :=
    ((protocol D).along_of_forall he _).invariant
      (P := fun s => Sound s ∧ Forgotten s h)
      (fun s e hf he => ⟨sound_step s e hf.1, hf.2.step hf.1 he⟩)
      ⟨sound_step s _ hs, forgotten_reload ha hq⟩
  exact ⟨hrun.2.unknown, hrun.2.quiet⟩

/-- The process has answered its job, the balancer is reloaded, and a client sends another one. -/
def reloadRun : List (Event oneHost) :=
  [.client fourSeconds, .balance (.job fourSeconds) zeros]

theorem forgotten_at_reload_oneJob :
    ¬ Registered ((protocol oneHost).after .initial (oneJob ++ .reload :: reloadRun)).maps
        (oneHost.addr host) ∧
      ((protocol oneHost).after .initial (oneJob ++ .reload :: reloadRun)).Quiet host :=
  forgotten_at_reload (by decide +kernel) ⟨by decide +kernel, by decide +kernel,
    by decide +kernel, by decide +kernel⟩ (by simp [reloadRun])

end EbpfLb
