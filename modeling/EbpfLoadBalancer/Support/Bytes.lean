import Mathlib.Data.Vector.Basic
import Mathlib.Tactic.Ring

/-!
# Support — Bytes

A byte buffer with loads and stores at an offset, as a program sees it that overlays structs on
memory: `f.read off n` is the `n` bytes at `off`, `f.store off vs` overwrites the bytes at `off`
and changes no length, `f.load w off` and `f.put off v` read and write a `w`-bit integer stored
least significant byte first.

The two facts everything else rests on are pointwise: `byte_store` says what a store leaves at
every index, and `byte_append` what a grown buffer holds.  A load after a store is then decided
by the offsets alone: it returns the stored integer (`load_put_same`) or what was there before
(`load_put_disjoint`).
-/

/-- One byte. -/
abbrev U8 := BitVec 8
/-- A 16-bit machine word. -/
abbrev U16 := BitVec 16
/-- A 32-bit machine word. -/
abbrev U32 := BitVec 32
/-- A 64-bit machine word. -/
abbrev U64 := BitVec 64

/-- A byte buffer. -/
abbrev Bytes := List U8

namespace Bytes

/-! ### Reading and overwriting -/

/-- The byte at `i`; zero past the end. -/
def byte (f : Bytes) (i : Nat) : U8 := f.getD i 0

/-- The `n` bytes at `off`. -/
def read (f : Bytes) (off n : Nat) : Vector U8 n := Vector.ofFn fun i => f.byte (off + i)

/-- `vs` written over the bytes at `off`; what would fall past the end is dropped. -/
def store : Bytes → Nat → Bytes → Bytes
  | [], _, _ => []
  | f, _, [] => f
  | _ :: f, 0, v :: vs => v :: store f 0 vs
  | b :: f, off + 1, vs => b :: store f off vs

@[simp] theorem length_store (f : Bytes) (off : Nat) (vs : Bytes) :
    (f.store off vs).length = f.length := by
  fun_induction store f off vs with
  | case1 | case2 => rfl
  | case3 _ _ _ _ ih | case4 _ _ _ _ _ ih => simp [ih]

@[simp] theorem byte_nil (i : Nat) : byte [] i = 0 := by simp [byte]
@[simp] theorem byte_cons_zero (b : U8) (f : Bytes) : byte (b :: f) 0 = b := rfl
@[simp] theorem byte_cons_succ (b : U8) (f : Bytes) (i : Nat) :
    byte (b :: f) (i + 1) = byte f i := rfl

/-- What a store leaves at every index. -/
theorem byte_store (f : Bytes) (off : Nat) (vs : Bytes) (i : Nat) :
    (f.store off vs).byte i =
      if off ≤ i ∧ i < off + vs.length ∧ i < f.length then vs.byte (i - off) else f.byte i := by
  fun_induction store f off vs generalizing i with
  | case1 => simp
  | case2 f off _ => simp; intros; omega
  | case3 b f v vs ih =>
      cases i with
      | zero => simp
      | succ i => simp [ih]
  | case4 b f off vs _ ih =>
      cases i with
      | zero => simp
      | succ i =>
          have hc : off ≤ i ∧ i < off + vs.length ∧ i < f.length ↔
              off + 1 ≤ i + 1 ∧ i + 1 < off + 1 + vs.length ∧ i + 1 < (b :: f).length := by
            rw [List.length_cons]
            omega
          simp only [byte_cons_succ, ih, hc, Nat.succ_eq_add_one, Nat.add_sub_add_right]

theorem byte_of_le {f : Bytes} {i : Nat} (h : f.length ≤ i) : f.byte i = 0 := by
  simp [byte, List.getD_eq_getElem?_getD, List.getElem?_eq_none h]

/-- A buffer grown at the end keeps its bytes. -/
theorem byte_append {f g : Bytes} {i : Nat} (h : i < f.length) : (f ++ g).byte i = f.byte i := by
  simp [byte, List.getD_eq_getElem?_getD, List.getElem?_append_left h]

@[simp] theorem getElem_read (f : Bytes) (off n i : Nat) (h : i < n) :
    (f.read off n)[i] = f.byte (off + i) := by
  simp [read]

theorem read_congr {f g : Bytes} {off n : Nat} (h : ∀ i < n, f.byte (off + i) = g.byte (off + i)) :
    f.read off n = g.read off n := by
  ext i hi
  simp [h i hi]

/-- A store elsewhere is not seen. -/
theorem read_store_disjoint (f vs : Bytes) {o off n : Nat}
    (h : off + n ≤ o ∨ o + vs.length ≤ off) : (f.store o vs).read off n = f.read off n := by
  refine read_congr fun i hi => ?_
  rw [byte_store, if_neg]
  omega

/-- A store is read back. -/
theorem read_store_same (f : Bytes) {off n : Nat} (vs : Vector U8 n) (h : off + n ≤ f.length) :
    (f.store off vs.toList).read off n = vs := by
  ext i hi
  rw [getElem_read, byte_store, if_pos (by simp; omega)]
  simp [byte, hi]

theorem byte_eq_of_read {f g : Bytes} {off n : Nat} (h : f.read off n = g.read off n) {i : Nat}
    (hi : off ≤ i ∧ i < off + n) : f.byte i = g.byte i := by
  obtain ⟨j, rfl⟩ := Nat.exists_eq_add_of_le hi.1
  rw [← getElem_read f off n j (by omega), ← getElem_read g off n j (by omega)]
  simp only [h]

theorem byte_toList_read (f : Bytes) (off n i : Nat) :
    byte (f.read off n).toList i = if i < n then f.byte (off + i) else 0 := by
  split
  · rename_i h
    rw [← getElem_read f off n i h, byte, List.getD_eq_getElem?_getD,
      List.getElem?_eq_getElem (by simpa using h)]
    rfl
  · exact byte_of_le (by simp; omega)

/-! ### What is left of a buffer after its first bytes -/

theorem byte_drop (f : Bytes) (n i : Nat) : byte (f.drop n) i = f.byte (n + i) := by
  simp [byte, List.getD_eq_getElem?_getD]

theorem ext_byte {f g : Bytes} (hl : f.length = g.length) (h : ∀ i, f.byte i = g.byte i) :
    f = g := by
  refine List.ext_getElem hl fun i hf hg => ?_
  simpa [byte, List.getD_eq_getElem?_getD, hf, hg] using h i

theorem drop_store (f vs : Bytes) (n off : Nat) :
    (f.store (n + off) vs).drop n = store (f.drop n) off vs := by
  refine ext_byte (by simp) fun i => ?_
  have hin : n + off ≤ n + i ∧ n + i < n + off + vs.length ∧ n + i < f.length ↔
      off ≤ i ∧ i < off + vs.length ∧ i < (f.drop n).length := by
    rw [List.length_drop]
    omega
  rw [byte_drop, byte_store, byte_store, byte_drop, if_congr hin rfl rfl,
    show n + i - (n + off) = i - off by omega]

/-! ### Little-endian integers -/

/-- The natural number the bytes spell, least significant first. -/
def ofLE : Bytes → Nat
  | [] => 0
  | b :: bs => b.toNat + 256 * ofLE bs

/-- The `n` bytes of `x`, least significant first. -/
def toLE : Nat → Nat → Bytes
  | 0, _ => []
  | n + 1, x => BitVec.ofNat 8 x :: toLE n (x / 256)

@[simp] theorem length_toLE (n x : Nat) : (toLE n x).length = n := by
  induction n generalizing x with
  | zero => rfl
  | succ n ih => simp [toLE, ih]

theorem ofLE_toLE (n x : Nat) : ofLE (toLE n x) = x % 256 ^ n := by
  induction n generalizing x with
  | zero => simp [toLE, ofLE, Nat.mod_one]
  | succ n ih =>
      have hb : (BitVec.ofNat 8 x).toNat = x % 256 := BitVec.toNat_ofNat x 8
      rw [toLE, ofLE, ih, hb, pow_succ', Nat.mod_mul]

theorem ofLE_lt (bs : Bytes) : ofLE bs < 256 ^ bs.length := by
  induction bs with
  | nil => exact Nat.one_pos
  | cons b bs ih =>
      have hb := b.isLt
      rw [ofLE, List.length_cons, pow_succ']
      omega

theorem toLE_ofLE (bs : Bytes) : toLE bs.length (ofLE bs) = bs := by
  induction bs with
  | nil => rfl
  | cons b bs ih =>
      have hb := b.isLt
      have hdiv : (b.toNat + 256 * ofLE bs) / 256 = ofLE bs := by omega
      have hlow : BitVec.ofNat 8 (b.toNat + 256 * ofLE bs) = b := by
        apply BitVec.eq_of_toNat_eq
        rw [BitVec.toNat_ofNat]
        omega
      rw [List.length_cons, toLE, ofLE, hdiv, ih, hlow]

/-- The `w`-bit integer at `off`. -/
def load (f : Bytes) (w off : Nat) : BitVec w := BitVec.ofNat w (ofLE (f.read off (w / 8)).toList)

/-- The `w`-bit integer `v` written at `off`. -/
def put {w : Nat} (f : Bytes) (off : Nat) (v : BitVec w) : Bytes :=
  f.store off (toLE (w / 8) v.toNat)

@[simp] theorem length_put {w : Nat} (f : Bytes) (off : Nat) (v : BitVec w) :
    (f.put off v).length = f.length := by
  simp [put]

theorem load_congr {f g : Bytes} {w off : Nat} (h : f.read off (w / 8) = g.read off (w / 8)) :
    f.load w off = g.load w off := by
  rw [load, load, h]

/-- An integer of whole bytes is the number they spell. -/
theorem toNat_load (f : Bytes) {w off : Nat} (hw : w = 8 * (w / 8)) :
    (f.load w off).toNat = ofLE (f.read off (w / 8)).toList := by
  have hlt := ofLE_lt (f.read off (w / 8)).toList
  have hp : (256 : Nat) ^ (w / 8) = 2 ^ w := by
    conv_rhs => rw [hw, pow_mul]
    norm_num
  rw [Vector.length_toList, hp] at hlt
  rw [load, BitVec.toNat_ofNat, Nat.mod_eq_of_lt hlt]

/-- Integers at the same place are the same only if their bytes are. -/
theorem byte_eq_of_load {f g : Bytes} {w off : Nat} (hw : w = 8 * (w / 8))
    (h : f.load w off = g.load w off) {i : Nat} (hi : off ≤ i ∧ i < off + w / 8) :
    f.byte i = g.byte i := by
  have hof : ofLE (f.read off (w / 8)).toList = ofLE (g.read off (w / 8)).toList := by
    rw [← toNat_load f hw, ← toNat_load g hw, h]
  have hread : (f.read off (w / 8)).toList = (g.read off (w / 8)).toList := by
    rw [← toLE_ofLE (f.read off (w / 8)).toList, ← toLE_ofLE (g.read off (w / 8)).toList, hof]
    simp
  exact byte_eq_of_read (Vector.toList_inj.mp hread) hi

theorem load_toList_read (f : Bytes) {w off n o : Nat} (h : o + w / 8 ≤ n) :
    load (f.read off n).toList w o = f.load w (off + o) := by
  have hread : read (f.read off n).toList o (w / 8) = f.read (off + o) (w / 8) := by
    ext i hi
    rw [getElem_read, getElem_read, byte_toList_read, if_pos (by omega), Nat.add_assoc]
  rw [load, load, hread]

theorem load_drop (f : Bytes) (w n off : Nat) : load (f.drop n) w off = f.load w (n + off) := by
  have hread : read (f.drop n) off (w / 8) = f.read (n + off) (w / 8) := by
    ext i hi
    rw [getElem_read, getElem_read, byte_drop, Nat.add_assoc]
  rw [load, load, hread]

/-- A load elsewhere does not see the integer. -/
theorem load_put_disjoint {w w' : Nat} (f : Bytes) (v : BitVec w) {o off : Nat}
    (h : off + w' / 8 ≤ o ∨ o + w / 8 ≤ off) : (f.put o v).load w' off = f.load w' off :=
  load_congr (read_store_disjoint f _ (by simpa using h))

theorem load_store_disjoint {w' : Nat} (f vs : Bytes) {o off : Nat}
    (h : off + w' / 8 ≤ o ∨ o + vs.length ≤ off) : (f.store o vs).load w' off = f.load w' off :=
  load_congr (read_store_disjoint f vs h)

theorem read_put_disjoint {w : Nat} (f : Bytes) (v : BitVec w) {o off n : Nat}
    (h : off + n ≤ o ∨ o + w / 8 ≤ off) : (f.put o v).read off n = f.read off n :=
  read_store_disjoint f _ (by simpa using h)

theorem byte_put_disjoint {w : Nat} (f : Bytes) (v : BitVec w) {off i : Nat}
    (h : i < off ∨ off + w / 8 ≤ i) : (f.put off v).byte i = f.byte i := by
  rw [put, byte_store, if_neg]
  rw [length_toLE]
  omega

/-- An integer written inside what is read. -/
theorem toList_read_put {w : Nat} (f : Bytes) (v : BitVec w) {off n : Nat} (o : Nat)
    (h : off + n ≤ f.length) :
    ((f.put (off + o) v).read off n).toList = put (f.read off n).toList o v := by
  refine ext_byte (by simp) fun i => ?_
  rw [byte_toList_read, put, put, byte_store, byte_store, byte_toList_read, length_toLE,
    Vector.length_toList]
  by_cases hi : i < n
  · have hin : off + o ≤ off + i ∧ off + i < off + o + w / 8 ∧ off + i < f.length ↔
        o ≤ i ∧ i < o + w / 8 ∧ i < n := by omega
    rw [if_pos hi, if_pos hi, if_congr hin rfl rfl, show off + i - (off + o) = i - o by omega]
  · rw [if_neg hi, if_neg hi, if_neg (by omega)]

/-- An integer of whole bytes is read back. -/
theorem load_put_same {w : Nat} (f : Bytes) (v : BitVec w) {off : Nat} (hw : w = 8 * (w / 8))
    (h : off + w / 8 ≤ f.length) : (f.put off v).load w off = v := by
  have hr : (f.put off v).read off (w / 8) = ⟨(toLE (w / 8) v.toNat).toArray, by simp⟩ := by
    have := read_store_same f (n := w / 8) ⟨(toLE (w / 8) v.toNat).toArray, by simp⟩ h
    simpa [put, Vector.toList] using this
  have hp : (256 : Nat) ^ (w / 8) = 2 ^ w := by
    conv_rhs => rw [hw, pow_mul]
    norm_num
  apply BitVec.eq_of_toNat_eq
  rw [load, hr, Vector.toList_mk, List.toList_toArray, ofLE_toLE, BitVec.toNat_ofNat, hp,
    Nat.mod_mod, Nat.mod_eq_of_lt v.isLt]

end Bytes
