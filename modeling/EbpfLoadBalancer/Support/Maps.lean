import EbpfLoadBalancer.Support.Bytes
import Mathlib.Data.List.Nodup
import Mathlib.Data.Fintype.Pi

/-!
# Support — Maps

The three kinds of BPF map, with the helpers' documented behaviour.  Each carries its capacity
in its type, and a map over capacity cannot be built.

* `HashMap`: at most `cap` keys, each once.  An update of a present key replaces its value; an
  update of an absent key inserts it, or fails and changes nothing when the map is full.
* `ArrayMap`: exactly `n` values, preallocated.  A lookup or update past the end fails.
* `QueueMap`: at most `cap` values, oldest first.  A push with `BPF_ANY` on a full queue fails
  and changes nothing; a pop removes the oldest, and leaves zero bytes when there is none.

An update returns the map alone: a failed update is the unchanged map.
-/

namespace Bpf

/-! ### Hash maps -/

/-- `BPF_MAP_TYPE_HASH`. -/
structure HashMap (cap : Nat) (κ ν : Type) where
  entries : List (κ × ν)
  nodup : (entries.map Prod.fst).Nodup
  bounded : entries.length ≤ cap
  deriving DecidableEq

namespace HashMap
variable {cap : Nat} {κ ν : Type}

def empty : HashMap cap κ ν := ⟨[], List.nodup_nil, Nat.zero_le _⟩

/-- The number of keys. -/
def size (m : HashMap cap κ ν) : Nat := m.entries.length

theorem size_le (m : HashMap cap κ ν) : m.size ≤ cap := m.bounded

variable [DecidableEq κ]

def lookup (m : HashMap cap κ ν) (k : κ) : Option ν := m.entries.lookup k

/-- `k ↦ v` in place of `k`'s entry. -/
def replaced (m : HashMap cap κ ν) (k : κ) (v : ν) : HashMap cap κ ν where
  entries := m.entries.map fun e => if e.1 = k then (e.1, v) else e
  nodup := by
    have h : (m.entries.map fun e => if e.1 = k then (e.1, v) else e).map Prod.fst =
        m.entries.map Prod.fst := by
      rw [List.map_map]
      exact List.map_congr_left fun e _ => by simp only [Function.comp]; split <;> rfl
    rw [h]
    exact m.nodup
  bounded := by simpa using m.bounded

theorem lookup_eq_none_iff {m : HashMap cap κ ν} {k : κ} :
    m.lookup k = none ↔ k ∉ m.entries.map Prod.fst := by
  rw [lookup, List.lookup_eq_none_iff, List.mem_map]
  constructor
  · rintro h ⟨e, he, rfl⟩
    simpa using h e he
  · intro h e he
    rw [bne_iff_ne]
    rintro rfl
    exact h ⟨e, he, rfl⟩

/-- `bpf_map_update_elem(&m, &k, &v, BPF_ANY)`. -/
def update (m : HashMap cap κ ν) (k : κ) (v : ν) : HashMap cap κ ν :=
  if h : m.lookup k = none then
    if hc : m.size < cap then
      ⟨(k, v) :: m.entries, List.nodup_cons.mpr ⟨lookup_eq_none_iff.mp h, m.nodup⟩, hc⟩
    else m
  else m.replaced k v

section
variable {m : HashMap cap κ ν} {k : κ}

theorem lookup_insert (h : m.lookup k = none) (hc : m.size < cap) (v : ν) (k' : κ) :
    (m.update k v).lookup k' = if k' = k then some v else m.lookup k' := by
  rw [update, dif_pos h, dif_pos hc]
  by_cases e : k' = k
  · simp [lookup, e]
  · simp [lookup, List.lookup_cons, e, beq_false_of_ne e]

theorem size_insert (h : m.lookup k = none) (hc : m.size < cap) (v : ν) :
    (m.update k v).size = m.size + 1 := by
  rw [update, dif_pos h, dif_pos hc]
  rfl

/-- An absent key is refused by a full map. -/
theorem update_full (h : m.lookup k = none) (hc : m.size = cap) (v : ν) : m.update k v = m := by
  rw [update, dif_pos h, dif_neg (by omega)]

end

end HashMap

/-! ### Arrays -/

/-- `BPF_MAP_TYPE_ARRAY`. -/
abbrev ArrayMap (n : Nat) (α : Type) := Fin n → α

namespace ArrayMap
variable {n : Nat} {α : Type}

def lookup (m : ArrayMap n α) (k : U32) : Option α :=
  if h : k.toNat < n then some (m ⟨k.toNat, h⟩) else none

/-- `bpf_map_update_elem(&m, &k, &v, BPF_ANY)`. -/
def update (m : ArrayMap n α) (k : U32) (v : α) : ArrayMap n α :=
  if h : k.toNat < n then Function.update m ⟨k.toNat, h⟩ v else m

theorem lookup_of_lt {m : ArrayMap n α} {k : U32} (h : k.toNat < n) :
    m.lookup k = some (m ⟨k.toNat, h⟩) := dif_pos h

theorem lookup_of_le {m : ArrayMap n α} {k : U32} (h : n ≤ k.toNat) : m.lookup k = none :=
  dif_neg (Nat.not_lt.mpr h)

theorem update_of_lt {m : ArrayMap n α} {k : U32} (h : k.toNat < n) (v : α) :
    m.update k v = Function.update m ⟨k.toNat, h⟩ v := dif_pos h

/-- A key past the end is refused. -/
theorem update_of_le {m : ArrayMap n α} {k : U32} (h : n ≤ k.toNat) (v : α) :
    m.update k v = m := dif_neg (Nat.not_lt.mpr h)

end ArrayMap

/-! ### Queues -/

/-- `BPF_MAP_TYPE_QUEUE`. -/
structure QueueMap (cap : Nat) (α : Type) where
  items : List α
  bounded : items.length ≤ cap
  deriving DecidableEq

namespace QueueMap
variable {cap : Nat} {α : Type}

def empty : QueueMap cap α := ⟨[], Nat.zero_le _⟩

/-- `bpf_map_push_elem(&q, &v, BPF_ANY)`. -/
def push (q : QueueMap cap α) (v : α) : QueueMap cap α :=
  if h : q.items.length < cap then ⟨q.items ++ [v], by rw [List.length_append]; exact h⟩ else q

/-- `bpf_map_peek_elem(&q, &v)`: the oldest value, or an error. -/
def peek (q : QueueMap cap α) : Option α := q.items.head?

/-- `bpf_map_pop_elem(&q, &v)`: the oldest value, or an error with `v` zeroed (`zero`), and the
queue without it. -/
def pop (q : QueueMap cap α) (zero : α) : α × QueueMap cap α :=
  (q.items.headD zero, ⟨q.items.tail, by
    have := q.bounded
    rw [List.length_tail]
    omega⟩)

@[ext] theorem ext {q q' : QueueMap cap α} (h : q.items = q'.items) : q = q' := by
  cases q
  cases q'
  simp_all

theorem items_push (q : QueueMap cap α) (v : α) :
    (q.push v).items = if q.items.length < cap then q.items ++ [v] else q.items := by
  rw [push]
  split <;> rfl

theorem push_full {q : QueueMap cap α} (h : q.items.length = cap) (v : α) : q.push v = q :=
  dif_neg (by omega)

theorem peek_eq_none_iff {q : QueueMap cap α} : q.peek = none ↔ q.items = [] := by simp [peek]

end QueueMap

end Bpf
