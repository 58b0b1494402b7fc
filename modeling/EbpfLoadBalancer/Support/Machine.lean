import Mathlib.Algebra.GroupWithZero.Nat
import Mathlib.Data.List.Induction

/-!
# Support — Machine

A program that is run once per input: `out s i` is everything the run on `i` leaves behind when
it starts from the state `s`, and `next` reads the following state off it.

* `after s is` is the state after the inputs `is`; `after_induction` is induction along a run
  with the inputs so far in hand.
* `Along C s is`: every step of the run meets `C`, a condition on the state before the step and
  its input.  `Along.invariant` is the rule for invariants under such a condition.
* `collect g s is` gathers what `g` reads off each step, in order.
* `exists_after_of_decreasing` finds a run to where `Q` holds: as long as it does not, some step
  makes a measure smaller.
* `effective s is` are the inputs that change the state.  `effective_length_le` bounds their number
  by a measure that every change makes smaller, and by what the inputs add to it.
-/

/-- A program run once per input. -/
structure Machine (σ ι ο : Type*) where
  out : σ → ι → ο
  next : ο → σ

namespace Machine
variable {σ ι ο β : Type*} (M : Machine σ ι ο)

/-- The state after one input. -/
def step (s : σ) (i : ι) : σ := M.next (M.out s i)

/-- The state after the inputs `is`. -/
def after (s : σ) (is : List ι) : σ := is.foldl M.step s

@[simp] theorem after_nil (s : σ) : M.after s [] = s := rfl
@[simp] theorem after_cons (s : σ) (i : ι) (is : List ι) :
    M.after s (i :: is) = M.after (M.step s i) is := rfl

theorem after_append (s : σ) (is js : List ι) :
    M.after s (is ++ js) = M.after (M.after s is) js := List.foldl_append

theorem after_snoc (s : σ) (is : List ι) (i : ι) :
    M.after s (is ++ [i]) = M.step (M.after s is) i := after_append M s is [i]

/-- Induction along a run, with the inputs so far. -/
theorem after_induction {s : σ} {P : List ι → σ → Prop} (h₀ : P [] s)
    (hs : ∀ is i, P is (M.after s is) → P (is ++ [i]) (M.step (M.after s is) i)) (is : List ι) :
    P is (M.after s is) := by
  induction is using List.reverseRecOn with
  | nil => exact h₀
  | append_singleton is i ih =>
      rw [after_snoc]
      exact hs is i ih

/-- An invariant every step keeps holds after every run. -/
theorem after_invariant {s : σ} {P : σ → Prop} (h₀ : P s) (hs : ∀ s i, P s → P (M.step s i))
    (is : List ι) : P (M.after s is) :=
  M.after_induction (P := fun _ s => P s) h₀ (fun _ i h => hs _ i h) is

/-! ### Conditions on every step -/

/-- Every step of the run from `s` on `is` meets `C`. -/
def Along (C : σ → ι → Prop) : σ → List ι → Prop
  | _, [] => True
  | s, i :: is => C s i ∧ Along C (M.step s i) is

variable {M} {C : σ → ι → Prop}

instance decidableAlong [∀ s, DecidablePred (C s)] :
    ∀ (s : σ) (is : List ι), Decidable (M.Along C s is)
  | _, [] => isTrue trivial
  | s, i :: is => @instDecidableAnd _ _ _ (decidableAlong (M.step s i) is)

theorem along_append {s : σ} {is js : List ι} :
    M.Along C s (is ++ js) ↔ M.Along C s is ∧ M.Along C (M.after s is) js := by
  induction is generalizing s with
  | nil => simp [Along]
  | cons i is ih => simp [Along, ih, and_assoc]

/-- The condition at each step, by the inputs before it. -/
theorem along_iff {s : σ} {is : List ι} :
    M.Along C s is ↔ ∀ pre i post, is = pre ++ i :: post → C (M.after s pre) i := by
  constructor
  · rintro h pre i post rfl
    exact (along_append.mp h).2.1
  · intro h
    induction is generalizing s with
    | nil => trivial
    | cons i is ih =>
        refine ⟨h [] i is rfl, ih fun pre j post e => ?_⟩
        exact h (i :: pre) j post (by rw [e]; rfl)

/-- Two conditions on every step. -/
theorem along_and {D : σ → ι → Prop} {s : σ} {is : List ι} :
    M.Along (fun s i => C s i ∧ D s i) s is ↔ M.Along C s is ∧ M.Along D s is := by
  induction is generalizing s with
  | nil => simp [Along]
  | cons i is ih =>
      simp only [Along, ih]
      tauto

/-- A condition on the inputs alone. -/
theorem along_of_forall {C : ι → Prop} {is : List ι} (h : ∀ i ∈ is, C i) (s : σ) :
    M.Along (fun _ i => C i) s is := by
  induction is generalizing s with
  | nil => trivial
  | cons i is ih => exact ⟨h i (by simp), ih (fun j hj => h j (by simp [hj])) _⟩

/-- An invariant every step that meets `C` keeps holds after every run whose steps meet it. -/
theorem Along.invariant {P : σ → Prop} (hs : ∀ s i, P s → C s i → P (M.step s i)) {s : σ}
    {is : List ι} (h : M.Along C s is) (h₀ : P s) : P (M.after s is) := by
  induction is generalizing s with
  | nil => exact h₀
  | cons i is ih => exact ih h.2 (hs s i h₀ h.1)

/-- Induction along a run whose steps meet `C`, with the inputs so far. -/
theorem Along.induction {s : σ} {P : List ι → σ → Prop} {is : List ι} (h : M.Along C s is)
    (h₀ : P [] s)
    (hs : ∀ is i, P is (M.after s is) → C (M.after s is) i →
      P (is ++ [i]) (M.step (M.after s is) i)) : P is (M.after s is) := by
  induction is using List.reverseRecOn with
  | nil => exact h₀
  | append_singleton is i ih =>
      obtain ⟨h, hi⟩ := along_append.mp h
      rw [after_snoc]
      exact hs is i (ih h) hi.1

/-! ### What a run leaves behind -/

variable (M) in
/-- What `g` reads off each step, in order. -/
def collect (g : σ → ι → List β) : σ → List ι → List β
  | _, [] => []
  | s, i :: is => g s i ++ collect g (M.step s i) is

theorem collect_append (g : σ → ι → List β) (s : σ) (is js : List ι) :
    M.collect g s (is ++ js) = M.collect g s is ++ M.collect g (M.after s is) js := by
  induction is generalizing s with
  | nil => rfl
  | cons i is ih => simp [collect, ih]

theorem collect_snoc (g : σ → ι → List β) (s : σ) (is : List ι) (i : ι) :
    M.collect g s (is ++ [i]) = M.collect g s is ++ g (M.after s is) i := by
  rw [collect_append, collect, collect, List.append_nil]

/-- A run whose inputs leave nothing to read leaves nothing. -/
theorem collect_eq_nil {g : σ → ι → List β} {is : List ι} (h : ∀ s, ∀ i ∈ is, g s i = [])
    (s : σ) : M.collect g s is = [] := by
  induction is generalizing s with
  | nil => rfl
  | cons i is ih =>
      rw [collect, h s i (by simp), ih fun s j hj => h s j (by simp [hj])]
      rfl

/-- A run whose steps meet `C`, from where an invariant holds under which nothing is to be read. -/
theorem Along.collect_eq_nil {P : σ → Prop} {g : σ → ι → List β}
    (hs : ∀ s i, P s → C s i → P (M.step s i)) (hg : ∀ s i, P s → C s i → g s i = []) {s : σ}
    {is : List ι} (h : M.Along C s is) (h₀ : P s) : M.collect g s is = [] := by
  induction is generalizing s with
  | nil => rfl
  | cons i is ih =>
      rw [collect, hg s i h₀ h.1, ih h.2 (hs s i h₀ h.1)]
      rfl

/-- A function that every step extends by what `g` reads off it. -/
theorem after_eq_append_collect {f : σ → List β} {g : σ → ι → List β}
    (h : ∀ s i, f (M.step s i) = f s ++ g s i) (s : σ) (is : List ι) :
    f (M.after s is) = f s ++ M.collect g s is := by
  induction is generalizing s with
  | nil => simp [collect]
  | cons i is ih => rw [after_cons, ih, h, collect, List.append_assoc]

/-! ### Runs that end somewhere -/

theorem exists_after_of_decreasing {P Q : σ → Prop} {A : ι → Prop} (μ : σ → Nat)
    (hs : ∀ s, P s → ¬ Q s → ∃ i, A i ∧ P (M.step s i) ∧ μ (M.step s i) < μ s) {s : σ}
    (h : P s) : ∃ is, (∀ i ∈ is, A i) ∧ P (M.after s is) ∧ Q (M.after s is) := by
  induction hn : μ s using Nat.strongRecOn generalizing s with
  | ind n ih =>
      by_cases hq : Q s
      · exact ⟨[], by simp, h, hq⟩
      · obtain ⟨i, hi, hp, hlt⟩ := hs s h hq
        obtain ⟨is, his, hP, hQ⟩ := ih _ (hn ▸ hlt) hp rfl
        refine ⟨i :: is, fun j hj => ?_, hP, hQ⟩
        rcases List.mem_cons.mp hj with rfl | hj
        · exact hi
        · exact his j hj

/-! ### The steps that change something -/

variable (M) in
/-- The inputs of the run that change the state they find. -/
def effective [DecidableEq σ] : σ → List ι → List ι :=
  M.collect fun s i => if M.step s i = s then [] else [i]

/-- A measure that every change makes smaller, but for what its input adds, pays for the changes
of a run. -/
theorem effective_length_le [DecidableEq σ] {P : σ → Prop} (μ : σ → Nat) (c : ι → Nat)
    (hP : ∀ s i, P s → P (M.step s i))
    (hs : ∀ s i, P s → M.step s i = s ∨ μ (M.step s i) + 1 ≤ μ s + c i) {s : σ} (h : P s)
    (is : List ι) :
    μ (M.after s is) + (M.effective s is).length ≤ μ s + (is.map c).sum := by
  induction is generalizing s with
  | nil => simp [effective, collect]
  | cons i is ih =>
      have hrest := ih (hP s i h)
      simp only [effective, collect, after_cons, List.length_append, List.map_cons,
        List.sum_cons] at hrest ⊢
      rcases hs s i h with e | hlt
      · rw [e] at hrest ⊢
        simp only [if_true, List.length_nil]
        omega
      · have hone : (if M.step s i = s then [] else [i]).length ≤ 1 := by split <;> simp
        omega

end Machine
