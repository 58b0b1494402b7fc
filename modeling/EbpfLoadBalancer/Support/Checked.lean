import EbpfLoadBalancer.Support.Bytes

/-!
# Support — Checked

Accesses to a byte buffer that fail outside it: each is the access of the same name without the
mark, when all its bytes lie within the buffer, and `none` otherwise.  A program written with them
is `some` exactly when it never leaves the buffer.  `load?_of_le` and its like discharge one access;
since no store changes the length (`length_store`, `length_put`), the bounds on a chain of them are
bounds on the first buffer.
-/

namespace Bytes
variable {f : Bytes} {off n w : Nat}

/-- The `n` bytes at `off`. -/
def read? (f : Bytes) (off n : Nat) : Option (Vector U8 n) :=
  if off + n ≤ f.length then some (f.read off n) else none

/-- `vs` written over the bytes at `off`. -/
def store? (f : Bytes) (off : Nat) (vs : Bytes) : Option Bytes :=
  if off + vs.length ≤ f.length then some (f.store off vs) else none

/-- The `w`-bit integer at `off`. -/
def load? (f : Bytes) (w off : Nat) : Option (BitVec w) :=
  if off + w / 8 ≤ f.length then some (f.load w off) else none

/-- The `w`-bit integer `v` written at `off`. -/
def put? {w : Nat} (f : Bytes) (off : Nat) (v : BitVec w) : Option Bytes :=
  if off + w / 8 ≤ f.length then some (f.put off v) else none

theorem read?_of_le (h : off + n ≤ f.length) : f.read? off n = some (f.read off n) := if_pos h

theorem store?_of_le {vs : Bytes} (h : off + vs.length ≤ f.length) :
    f.store? off vs = some (f.store off vs) := if_pos h

theorem load?_of_le (h : off + w / 8 ≤ f.length) : f.load? w off = some (f.load w off) := if_pos h

theorem put?_of_le {v : BitVec w} (h : off + w / 8 ≤ f.length) :
    f.put? off v = some (f.put off v) := if_pos h

/-! ### What is read, byte by byte -/

theorem toList_read_succ (f : Bytes) (off n : Nat) :
    (f.read off (n + 1)).toList = f.byte off :: (f.read (off + 1) n).toList := by
  refine List.ext_getElem (by simp) fun i _ _ => ?_
  cases i with
  | zero => simp
  | succ i =>
      simp [Nat.add_comm, Nat.add_left_comm]

theorem drop_eq_byte_cons (h : off < f.length) : f.drop off = f.byte off :: f.drop (off + 1) := by
  rw [List.drop_eq_getElem_cons h, byte, List.getD_eq_getElem?_getD, List.getElem?_eq_getElem h,
    Option.getD_some]

theorem load_eight (f : Bytes) (off : Nat) : f.load 8 off = f.byte off := by
  refine BitVec.eq_of_toNat_eq ?_
  rw [toNat_load f rfl]
  rfl

end Bytes
