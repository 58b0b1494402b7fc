import EbpfLoadBalancer.Support.Machine
import Mathlib.Algebra.Order.Group.Multiset
import Mathlib.Data.Multiset.Basic

/-!
# Support — Relay

A relay between two networks.  A value is submitted and travels to the relay; the relay forwards
it, or keeps it in a queue of bounded length and forwards it later, oldest first, or refuses it
when the queue is full; a value forwarded travels on and is delivered.  The networks hold a value
for as long as they like and let values overtake each other, and may lose one or double it.  The
relay may spill the oldest value of its queue, and may be cleared, which loses its queue.

* **Balance** (`Step.balance`).  What was on its way and what is submitted or doubled is what is
  delivered, refused, cleared, spilled or lost, or on its way.
* **Refinement** (`balance_of_steps`).  A machine whose every step is a step of the relay keeps the
  balance of what its runs submit, double, deliver, refuse and lose.
* **Room** (`refused_of_steps`).  A run that starts with, submits and doubles no more than the queue
  can hold has nothing refused.
-/

namespace Relay
variable {α : Type*}

/-- The values on their way: to the relay, in its queue, oldest first, and from the relay. -/
structure State (α : Type*) where
  incoming : Multiset α
  queue : List α
  outgoing : Multiset α

/-- Everything on its way. -/
def State.total (s : State α) : Multiset α := s.incoming + (s.queue : Multiset α) + s.outgoing

inductive Event (α : Type*)
  /-- Nothing, as far as the values go. -/
  | idle
  | submit (v : α)
  /-- `v` reaches the relay and is sent on. -/
  | forward (v : α)
  /-- `v` reaches the relay and waits. -/
  | wait (v : α)
  /-- `v` reaches the relay and is refused. -/
  | refuse (v : α)
  /-- The oldest value, `v`, is sent on. -/
  | drain (v : α)
  | deliver (v : α)
  /-- The queue, which holds `vs`, is lost. -/
  | clear (vs : List α)
  /-- The oldest value, `v`, is taken off the queue and lost. -/
  | spill (v : α)
  /-- `v` is lost on its way to the relay. -/
  | loseIn (v : α)
  /-- `v` is lost on its way from the relay. -/
  | loseOut (v : α)
  /-- `v` is doubled on its way to the relay. -/
  | copyIn (v : α)
  /-- `v` is doubled on its way from the relay. -/
  | copyOut (v : α)

namespace Event

def submitted : Event α → List α
  | submit v => [v]
  | _ => []

def delivered : Event α → List α
  | deliver v => [v]
  | _ => []

def refused : Event α → List α
  | refuse v => [v]
  | _ => []

def cleared : Event α → List α
  | clear vs => vs
  | _ => []

def spilled : Event α → List α
  | spill v => [v]
  | _ => []

def lost : Event α → List α
  | loseIn v | loseOut v => [v]
  | _ => []

def copied : Event α → List α
  | copyIn v | copyOut v => [v]
  | _ => []

end Event

/-- The steps, with at most `cap` values waiting. -/
inductive Step (cap : Nat) : State α → Event α → State α → Prop
  | idle (s) : Step cap s .idle s
  | submit (i : Multiset α) (q : List α) (o : Multiset α) (v : α) :
      Step cap ⟨i, q, o⟩ (.submit v) ⟨v ::ₘ i, q, o⟩
  | forward (i : Multiset α) (q : List α) (o : Multiset α) (v : α) :
      Step cap ⟨v ::ₘ i, q, o⟩ (.forward v) ⟨i, q, v ::ₘ o⟩
  | wait (i : Multiset α) (q : List α) (o : Multiset α) (v : α) (hq : q.length < cap) :
      Step cap ⟨v ::ₘ i, q, o⟩ (.wait v) ⟨i, q ++ [v], o⟩
  | refuse (i : Multiset α) (q : List α) (o : Multiset α) (v : α) (hq : q.length = cap) :
      Step cap ⟨v ::ₘ i, q, o⟩ (.refuse v) ⟨i, q, o⟩
  | drain (i : Multiset α) (q : List α) (o : Multiset α) (v : α) :
      Step cap ⟨i, v :: q, o⟩ (.drain v) ⟨i, q, v ::ₘ o⟩
  | deliver (i : Multiset α) (q : List α) (o : Multiset α) (v : α) :
      Step cap ⟨i, q, v ::ₘ o⟩ (.deliver v) ⟨i, q, o⟩
  | clear (i : Multiset α) (q : List α) (o : Multiset α) :
      Step cap ⟨i, q, o⟩ (.clear q) ⟨i, [], o⟩
  | spill (i : Multiset α) (q : List α) (o : Multiset α) (v : α) :
      Step cap ⟨i, v :: q, o⟩ (.spill v) ⟨i, q, o⟩
  | loseIn (i : Multiset α) (q : List α) (o : Multiset α) (v : α) :
      Step cap ⟨v ::ₘ i, q, o⟩ (.loseIn v) ⟨i, q, o⟩
  | loseOut (i : Multiset α) (q : List α) (o : Multiset α) (v : α) :
      Step cap ⟨i, q, v ::ₘ o⟩ (.loseOut v) ⟨i, q, o⟩
  | copyIn (i : Multiset α) (q : List α) (o : Multiset α) (v : α) :
      Step cap ⟨i, q, o⟩ (.copyIn v) ⟨v ::ₘ i, q, o⟩
  | copyOut (i : Multiset α) (q : List α) (o : Multiset α) (v : α) :
      Step cap ⟨i, q, o⟩ (.copyOut v) ⟨i, q, v ::ₘ o⟩

variable {cap : Nat} {s s' : State α} {e : Event α}

/-- No value is lost or doubled but on the books. -/
theorem Step.balance (h : Step cap s e s') :
    s.total + e.submitted + e.copied =
      e.delivered + e.refused + e.cleared + e.spilled + e.lost + s'.total := by
  cases h with
  | idle =>
      simp [Event.submitted, Event.copied, Event.delivered, Event.refused, Event.cleared,
        Event.spilled, Event.lost]
  | submit i q o v | forward i q o v | refuse i q o v | drain i q o v | deliver i q o v
  | spill i q o v | loseIn i q o v | loseOut i q o v | copyIn i q o v | copyOut i q o v =>
      simp only [State.total, Event.submitted, Event.copied, Event.delivered, Event.refused,
        Event.cleared, Event.spilled, Event.lost, ← Multiset.singleton_add, ← Multiset.cons_coe,
        Multiset.coe_nil, zero_add, add_zero]
      ac_rfl
  | wait i q o v =>
      simp only [State.total, Event.submitted, Event.copied, Event.delivered, Event.refused,
        Event.cleared, Event.spilled, Event.lost, ← Multiset.singleton_add, ← Multiset.coe_add,
        Multiset.coe_nil, Multiset.coe_singleton, zero_add, add_zero]
      ac_rfl
  | clear i q o =>
      simp only [State.total, Event.submitted, Event.copied, Event.delivered, Event.refused,
        Event.cleared, Event.spilled, Event.lost, Multiset.coe_nil, zero_add, add_zero]
      ac_rfl

/-- A machine whose steps from states that meet `P` are steps of the relay keeps the balance of
its runs. -/
theorem balance_of_steps {σ ι ο : Type*} {M : Machine σ ι ο} {P : σ → Prop} {abs : σ → State α}
    {ev : σ → ι → Event α} (hP : ∀ s i, P s → P (M.step s i))
    (hs : ∀ s i, P s → Step cap (abs s) (ev s i) (abs (M.step s i))) {s : σ} (h : P s)
    (is : List ι) :
    (abs s).total + M.collect (fun s i => (ev s i).submitted) s is +
        M.collect (fun s i => (ev s i).copied) s is =
      M.collect (fun s i => (ev s i).delivered) s is +
        M.collect (fun s i => (ev s i).refused) s is +
        M.collect (fun s i => (ev s i).cleared) s is +
        M.collect (fun s i => (ev s i).spilled) s is +
        M.collect (fun s i => (ev s i).lost) s is + (abs (M.after s is)).total := by
  induction is generalizing s with
  | nil => simp [Machine.collect]
  | cons i is ih =>
      have hstep := (hs s i h).balance
      have hrest := ih (hP s i h)
      simp only [Machine.collect, Machine.after_cons, ← Multiset.coe_add]
      calc (abs s).total + (((ev s i).submitted : Multiset α) + _) +
            (((ev s i).copied : Multiset α) + _)
          = ((abs s).total + (ev s i).submitted + (ev s i).copied) +
              (M.collect (fun s i => (ev s i).submitted) (M.step s i) is +
                M.collect (fun s i => (ev s i).copied) (M.step s i) is) := by
            ac_rfl
        _ = (ev s i).delivered + (ev s i).refused + (ev s i).cleared + (ev s i).spilled +
              (ev s i).lost + ((abs (M.step s i)).total +
                M.collect (fun s i => (ev s i).submitted) (M.step s i) is +
                M.collect (fun s i => (ev s i).copied) (M.step s i) is) := by
            rw [hstep]
            ac_rfl
        _ = _ := by
            rw [hrest]
            ac_rfl

/-- Nothing more is on its way than was, has been submitted and has been doubled. -/
theorem Step.card_le (h : Step cap s e s') :
    Multiset.card s'.total ≤
      Multiset.card s.total + e.submitted.length + e.copied.length := by
  have hb := congrArg Multiset.card h.balance
  simp only [Multiset.card_add, Multiset.coe_card] at hb
  omega

/-- A value is refused only with a full queue behind it. -/
theorem Step.refused (h : Step cap s e s') (hs : Multiset.card s.total ≤ cap) :
    e.refused = [] := by
  cases h with
  | refuse i q o v hq =>
      simp only [State.total, Multiset.card_add, Multiset.card_cons, Multiset.coe_card] at hs
      omega
  | idle | submit | forward | wait | drain | deliver | clear | spill | loseIn | loseOut | copyIn
  | copyOut => rfl

/-- Nothing is refused in a run that starts with, submits and doubles no more than the queue can
hold. -/
theorem refused_of_steps {σ ι ο : Type*} {M : Machine σ ι ο} {P : σ → Prop} {abs : σ → State α}
    {ev : σ → ι → Event α} (hP : ∀ s i, P s → P (M.step s i))
    (hs : ∀ s i, P s → Step cap (abs s) (ev s i) (abs (M.step s i))) {s : σ} (h : P s)
    {is : List ι} (hc : Multiset.card (abs s).total +
      (M.collect (fun s i => (ev s i).submitted) s is).length +
      (M.collect (fun s i => (ev s i).copied) s is).length ≤ cap) :
    M.collect (fun s i => (ev s i).refused) s is = [] := by
  induction is generalizing s with
  | nil => rfl
  | cons i is ih =>
      simp only [Machine.collect, List.length_append] at hc
      have hstep := hs s i h
      have hle := hstep.card_le
      have hrest := ih (hP s i h) (by omega)
      show (ev s i).refused ++ _ = []
      rw [hstep.refused (by omega), hrest, List.append_nil]

end Relay
