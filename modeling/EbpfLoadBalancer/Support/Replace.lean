import Mathlib.Algebra.GroupWithZero.Nat
import Mathlib.Data.List.Basic
import Mathlib.Data.List.Perm.Basic

/-!
# Support — a list with one entry replaced

What a replacement leaves of a count, of a map and of what is gathered from the entries, in terms
of the two entries.
-/

namespace List
variable {α β : Type*} {l : List α} {i : Nat} {a : α}

/-- Replacing an entry moves a count by the two entries alone. -/
theorem countP_replaced (p : α → Bool) (h : l[i]? = some a) (b : α) :
    (l.set i b).countP p + (if p a then 1 else 0) = l.countP p + if p b then 1 else 0 := by
  obtain ⟨hi, rfl⟩ := List.getElem?_eq_some_iff.mp h
  have hpos : p l[i] = true → 0 < l.countP p := fun hp =>
    List.countP_pos_iff.mpr ⟨_, List.getElem_mem hi, hp⟩
  rw [List.countP_set hi]
  split
  · rename_i hp
    have := hpos hp
    omega
  · omega

/-- And what is gathered from the entries, up to order. -/
theorem flatMap_replaced (f : α → List β) (h : l[i]? = some a) (b : α) :
    (f a ++ (l.set i b).flatMap f).Perm (f b ++ l.flatMap f) := by
  induction l generalizing i with
  | nil => simp at h
  | cons c l ih =>
      cases i with
      | zero =>
          obtain rfl : c = a := by simpa using h
          rw [List.set_cons_zero, List.flatMap_cons, List.flatMap_cons]
          exact List.perm_append_comm_assoc ..
      | succ i =>
          have ih := ih (i := i) (by simpa using h)
          rw [List.set_cons_succ, List.flatMap_cons, List.flatMap_cons]
          calc f a ++ (f c ++ (l.set i b).flatMap f)
              ~ f c ++ (f a ++ (l.set i b).flatMap f) := List.perm_append_comm_assoc ..
            _ ~ f c ++ (f b ++ l.flatMap f) := ih.append_left _
            _ ~ f b ++ (f c ++ l.flatMap f) := List.perm_append_comm_assoc ..

theorem sum_map_replaced (f : α → Nat) (h : l[i]? = some a) (b : α) :
    ((l.set i b).map f).sum + f a = (l.map f).sum + f b := by
  have hp := (flatMap_replaced (fun x => [f x]) h b).sum_nat
  rw [← List.map_eq_flatMap, ← List.map_eq_flatMap] at hp
  simp only [List.cons_append, List.nil_append, List.sum_cons] at hp
  omega

/-- An entry with the same image does not change a map. -/
theorem map_replaced (f : α → β) (h : l[i]? = some a) {b : α} (hf : f b = f a) :
    (l.set i b).map f = l.map f := by
  obtain ⟨hi, rfl⟩ := List.getElem?_eq_some_iff.mp h
  rw [List.map_set, hf, ← List.getElem_map f (h := by simpa using hi), List.set_getElem_self]

end List
