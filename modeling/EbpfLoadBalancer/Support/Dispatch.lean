import Mathlib.Algebra.Order.Group.Nat
import Mathlib.Algebra.Order.Group.Multiset
import Mathlib.Data.Multiset.Basic

/-!
# Support — Dispatch

A dispatcher that hands jobs to workers against credits, and what it is for.  A worker joins with
some credits; a job goes to a worker with a credit and uses it up; a completion gives one back,
up to a limit; and a job that finds no credit anywhere waits in a queue of bounded length, or is
refused when the queue is full.  A completion that finds jobs waiting hands out the oldest.

* **Balance** (`Run.balance`).  Along every run, what was waiting and what arrived is what was
  sent, what was refused and what is waiting.
* **Work conservation** (`Step.conserving`).  No job waits while a credit is free: every event
  keeps this but one, a worker that joins with credits while jobs wait (`Event.Late`), and that
  one always breaks it (`Step.not_conserving`).
* **Order** (`Run.fifo`).  As long as it is kept, the jobs leave in the order they came: a job is
  sent directly only when nothing waits, and a completion spends the one credit it frees on the
  oldest.
* **Spread** (`Level.spend`).  Credits that differ by `d` at most keep doing so while every job goes
  to a worker with the most of them.
-/

namespace Dispatch
variable {κ α : Type*}

/-- The credits of the workers, and the jobs waiting, oldest first. -/
structure State (κ α : Type*) where
  credit : κ → Nat
  queue : List α

/-- What can happen. -/
inductive Event (κ α : Type*)
  /-- Nothing. -/
  | idle
  /-- Worker `k` joins with `n` credits. -/
  | join (k : κ) (n : Nat)
  /-- Worker `k` completes a job, and none is waiting. -/
  | done (k : κ)
  /-- Worker `k` completes a job, and the oldest, `v`, goes to `j`. -/
  | drain (k j : κ) (v : α)
  /-- The job `v` arrives and goes to `k`. -/
  | send (k : κ) (v : α)
  /-- The job `v` arrives and waits. -/
  | wait (v : α)
  /-- The job `v` arrives and is refused. -/
  | refuse (v : α)

namespace Event

def arrived : Event κ α → List α
  | send _ v | wait v | refuse v => [v]
  | _ => []

def accepted : Event κ α → List α
  | send _ v | wait v => [v]
  | _ => []

def refused : Event κ α → List α
  | refuse v => [v]
  | _ => []

def sent : Event κ α → List α
  | drain _ _ v | send _ v => [v]
  | _ => []

theorem arrived_eq (e : Event κ α) : e.arrived = e.accepted ++ e.refused := by cases e <;> rfl

/-- A worker joins with credits while jobs wait. -/
def Late (s : State κ α) : Event κ α → Prop
  | join _ n => s.queue ≠ [] ∧ 0 < n
  | _ => False

end Event

/-- No credit is free. -/
def State.Exhausted (s : State κ α) : Prop := ∀ k, s.credit k = 0

/-- No job waits while a credit is free. -/
def State.Conserving (s : State κ α) : Prop := s.queue ≠ [] → s.Exhausted

variable [DecidableEq κ]

/-- One more credit for `k`, up to `limit`. -/
def restore (limit : Nat) (c : κ → Nat) (k : κ) : κ → Nat :=
  Function.update c k (min (c k + 1) limit)

/-- One credit of `k`'s used up. -/
def spend (c : κ → Nat) (k : κ) : κ → Nat := Function.update c k (c k - 1)

/-- The steps, with at most `cap` jobs waiting and at most `limit` credits restored. -/
inductive Step (cap limit : Nat) : State κ α → Event κ α → State κ α → Prop
  | idle (s) : Step cap limit s .idle s
  | join (s) (k : κ) (n : Nat) (h : s.credit k = 0) :
      Step cap limit s (.join k n) ⟨Function.update s.credit k n, s.queue⟩
  | done (s) (k : κ) (hq : s.queue = []) :
      Step cap limit s (.done k) ⟨restore limit s.credit k, s.queue⟩
  | drain (s) (k j : κ) (v : α) (rest : List α) (hq : s.queue = v :: rest)
      (hj : 0 < restore limit s.credit k j) :
      Step cap limit s (.drain k j v) ⟨spend (restore limit s.credit k) j, rest⟩
  | send (s) (k : κ) (v : α) (hk : 0 < s.credit k) :
      Step cap limit s (.send k v) ⟨spend s.credit k, s.queue⟩
  | wait (s) (v : α) (he : s.Exhausted) (hc : s.queue.length < cap) :
      Step cap limit s (.wait v) ⟨s.credit, s.queue ++ [v]⟩
  | refuse (s) (v : α) (he : s.Exhausted) (hc : s.queue.length = cap) :
      Step cap limit s (.refuse v) s

/-! ### One step -/

section
variable {cap limit : Nat} {s s' : State κ α} {e : Event κ α}

theorem Step.balance (h : Step cap limit s e s') :
    (s.queue : Multiset α) + e.arrived = e.sent + e.refused + s'.queue := by
  cases h with
  | idle | join | done | refuse => simp [Event.arrived, Event.sent, Event.refused, add_comm]
  | drain k j v rest hq =>
      simp only [hq, Event.arrived, Event.sent, Event.refused, Multiset.coe_add]
      simp
  | send | wait =>
      simp only [Event.arrived, Event.sent, Event.refused, Multiset.coe_add, Multiset.coe_eq_coe]
      simp

/-- Only a late worker leaves jobs waiting beside a free credit. -/
theorem Step.conserving (h : Step cap limit s e s') (hs : s.Conserving) (hl : ¬ e.Late s) :
    s'.Conserving := by
  intro hq'
  cases h with
  | idle | refuse => exact hs hq'
  | join k n =>
      intro j
      have hn : n = 0 := Nat.eq_zero_of_not_pos fun hn => hl ⟨hq', hn⟩
      show Function.update s.credit k n j = 0
      rw [Function.update_apply, hn]
      split
      · rfl
      · exact hs hq' j
  | done k hq => exact absurd hq hq'
  | drain k j v rest hq hj =>
      -- nobody had a credit, so the completion frees one, and the job takes it
      have he : s.Exhausted := hs (by simp [hq])
      have hjk : j = k := by
        by_contra hjk
        rw [restore, Function.update_of_ne hjk, he j] at hj
        exact Nat.lt_irrefl 0 hj
      subst hjk
      intro i
      show spend (restore limit s.credit j) j i = 0
      by_cases hi : i = j
      · subst hi
        simp only [spend, restore, Function.update_self, he i]
        omega
      · rw [spend, Function.update_of_ne hi, restore, Function.update_of_ne hi, he i]
  | send k v hk => exact absurd (hs hq' k) hk.ne'
  | wait v he => exact he

/-- A late worker always does. -/
theorem Step.not_conserving (h : Step cap limit s e s') (hl : e.Late s) : ¬ s'.Conserving := by
  intro hs'
  cases h with
  | join k n =>
      have hk : Function.update s.credit k n k = 0 := hs' hl.1 k
      rw [Function.update_self] at hk
      exact hl.2.ne' hk
  | idle | done | drain | send | wait | refuse => exact hl

/-- With no job waiting beside a free credit, jobs leave from the front and join at the back. -/
theorem Step.fifo (h : Step cap limit s e s') (hs : s.Conserving) :
    e.sent ++ s'.queue = s.queue ++ e.accepted := by
  cases h with
  | idle | join | done | refuse | wait => simp [Event.sent, Event.accepted]
  | drain k j v rest hq => simp [Event.sent, Event.accepted, hq]
  | send k v hk =>
      have hq : s.queue = [] := by
        by_contra hq
        exact hk.ne' (hs hq k)
      simp [Event.sent, Event.accepted, hq]

end

/-! ### Runs -/

/-- A run whose events all meet `C` where they happen. -/
inductive Run (cap limit : Nat) (C : State κ α → Event κ α → Prop) :
    State κ α → List (Event κ α) → State κ α → Prop
  | nil (s) : Run cap limit C s [] s
  | cons {s s' s'' e es} (hC : C s e) (h : Step cap limit s e s') (t : Run cap limit C s' es s'') :
      Run cap limit C s (e :: es) s''

section
variable {cap limit : Nat} {C : State κ α → Event κ α → Prop} {s s' : State κ α}
  {es : List (Event κ α)}

theorem Run.balance (h : Run cap limit C s es s') :
    (s.queue : Multiset α) + es.flatMap Event.arrived =
      es.flatMap Event.sent + es.flatMap Event.refused + s'.queue := by
  induction h with
  | nil s => simp
  | @cons s s' s'' e es _ h _ ih =>
      have hb := h.balance
      simp only [List.flatMap_cons, ← Multiset.coe_add]
      calc (s.queue : Multiset α) + (e.arrived + es.flatMap Event.arrived)
          = e.sent + e.refused + (s'.queue + es.flatMap Event.arrived) := by
            rw [← add_assoc, hb, add_assoc]
        _ = e.sent + e.refused +
            (es.flatMap Event.sent + es.flatMap Event.refused + s''.queue) := by
            rw [ih]
        _ = e.sent + es.flatMap Event.sent + (e.refused + es.flatMap Event.refused) +
            s''.queue := by
            ac_rfl

theorem Run.conserving (h : Run cap limit (fun s e => ¬ e.Late s) s es s') (hs : s.Conserving) :
    s'.Conserving := by
  induction h with
  | nil => exact hs
  | cons hC h _ ih => exact ih (h.conserving hs hC)

theorem Run.fifo (h : Run cap limit (fun s e => ¬ e.Late s) s es s') (hs : s.Conserving) :
    es.flatMap Event.sent ++ s'.queue = s.queue ++ es.flatMap Event.accepted := by
  induction h with
  | nil => simp
  | cons hC h _ ih =>
      rw [List.flatMap_cons, List.flatMap_cons, List.append_assoc, ih (h.conserving hs hC),
        ← List.append_assoc, h.fifo hs, List.append_assoc]

end

/-! ### Spread -/

/-- Among the workers in `S` the credits differ by `d` at most. -/
def Level (S : κ → Prop) (d : Nat) (c : κ → Nat) : Prop := ∀ j k, S j → S k → c j ≤ c k + d

/-- A credit spent where there are most leaves them as level, up to one. -/
theorem Level.spend {S : κ → Prop} {d : Nat} {c : κ → Nat} {k : κ} (h : Level S d c)
    (hd : 1 ≤ d) (hk : ∀ j, S j → c j ≤ c k) : Level S d (spend c k) := by
  intro i j hi hj
  have hij := h i j hi hj
  have hik := hk i hi
  simp only [Dispatch.spend, Function.update_apply]
  by_cases ei : i = k
  · subst ei
    by_cases ej : j = i
    · simp only [if_pos ej, if_true]
      omega
    · simp only [if_neg ej, if_true]
      omega
  · by_cases ej : j = k
    · subst ej
      simp only [if_neg ei, if_true]
      omega
    · simpa only [if_neg ei, if_neg ej] using hij

end Dispatch
