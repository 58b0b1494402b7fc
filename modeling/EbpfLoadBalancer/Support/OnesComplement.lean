import EbpfLoadBalancer.Support.Bytes
import Mathlib.Data.Nat.ModEq

/-!
# Support — OnesComplement

One's-complement sums: words are added with the carry out of the top bit added back in at the
bottom.  `Folded w n r` says that `r` is the sum of `w`-bit words whose plain sum is `n`: it is
congruent to `n` modulo `2^w - 1`, and it is zero only when `n` is, so that of the two zeros a
nonzero sum takes the one of all ones.  This determines `r` (`Folded.unique`), so a program that
adds the carries back in some other order computes the same sum (`Folded.fold`).

The words of a byte buffer are little-endian, an odd last byte padded by zero.
-/

namespace OnesComplement

/-! ### Sums of words -/

section
variable {w n r r' : Nat}

/-- Addition with end-around carry. -/
def add (a b : BitVec w) : BitVec w := if a.toNat + b.toNat < 2 ^ w then a + b else a + b + 1

def sum : List (BitVec w) → BitVec w
  | [] => 0
  | a :: ws => add a (sum ws)

/-- `r` is `n` with every carry out of `w` bits added back in. -/
structure Folded (w n r : Nat) : Prop where
  lt : r < 2 ^ w
  mod : r ≡ n [MOD 2 ^ w - 1]
  zero : r = 0 ↔ n = 0

theorem folded_self (h : n < 2 ^ w) : Folded w n n := ⟨h, rfl, Iff.rfl⟩

/-- The two residues congruent to zero are told apart by the last field. -/
theorem Folded.unique (h : Folded w n r) (h' : Folded w n r') : r = r' := by
  have hmod := h.mod.trans h'.mod.symm
  have hlt := h.lt
  have hlt' := h'.lt
  have hz := h.zero.trans h'.zero.symm
  rcases Nat.eq_zero_or_pos r with h₀ | hpos
  · rw [h₀, hz.mp h₀]
  have hpos' : 0 < r' := Nat.pos_of_ne_zero fun e => hpos.ne' (hz.mpr e)
  -- both are at least one, so one less than each is below the modulus
  have hpred : r - 1 ≡ r' - 1 [MOD 2 ^ w - 1] := by
    refine Nat.ModEq.add_right_cancel' 1 ?_
    rwa [Nat.sub_add_cancel hpos, Nat.sub_add_cancel hpos']
  have heq := Nat.ModEq.eq_of_lt_of_lt hpred (by omega) (by omega)
  omega

/-- Adding the carries back in once. -/
theorem Folded.fold (h : Folded w (n % 2 ^ w + n / 2 ^ w) r) : Folded w n r := by
  have hpow := Nat.one_le_two_pow (n := w)
  have hn := Nat.mod_add_div n (2 ^ w)
  refine ⟨h.lt, h.mod.trans ?_, h.zero.trans ?_⟩
  · have hone : 2 ^ w ≡ 1 [MOD 2 ^ w - 1] := Nat.modEq_sub hpow
    calc n % 2 ^ w + n / 2 ^ w
        = n % 2 ^ w + 1 * (n / 2 ^ w) := by rw [one_mul]
      _ ≡ n % 2 ^ w + 2 ^ w * (n / 2 ^ w) [MOD 2 ^ w - 1] := (hone.symm.mul_right _).add_left _
      _ = n := hn
  · rw [Nat.add_eq_zero_iff]
    constructor
    · rintro ⟨hm, hd⟩
      rw [← hn, hm, hd]
      rfl
    · rintro rfl
      exact ⟨Nat.zero_mod _, Nat.zero_div _⟩

theorem toNat_add (a b : BitVec w) :
    (add a b).toNat =
      if a.toNat + b.toNat < 2 ^ w then a.toNat + b.toNat else a.toNat + b.toNat - (2 ^ w - 1) := by
  have ha := a.isLt
  have hb := b.isLt
  rw [add]
  split
  · rename_i h
    rw [BitVec.toNat_add, Nat.mod_eq_of_lt h]
  · rename_i h
    have hw : w ≠ 0 := by
      rintro rfl
      simp at ha hb
      omega
    have hone : (1 : BitVec w).toNat = 1 := BitVec.toNat_one (Nat.pos_of_ne_zero hw)
    rw [BitVec.toNat_add, BitVec.toNat_add, hone, Nat.mod_add_mod]
    have hsub : (a.toNat + b.toNat + 1) % 2 ^ w = a.toNat + b.toNat + 1 - 2 ^ w := by
      rw [Nat.mod_eq_sub_mod (by omega), Nat.mod_eq_of_lt (by omega)]
    omega

theorem folded_add {a b : BitVec w} (h : Folded w n b.toNat) :
    Folded w (a.toNat + n) (add a b).toNat := by
  have ha := a.isLt
  have hb := b.isLt
  have hz := h.zero
  have hmod : a.toNat + b.toNat ≡ a.toNat + n [MOD 2 ^ w - 1] := h.mod.add_left _
  refine ⟨(add a b).isLt, ?_, ?_⟩
  · rw [toNat_add]
    split
    · exact hmod
    · have hback : a.toNat + b.toNat - (2 ^ w - 1) + (2 ^ w - 1) = a.toNat + b.toNat := by omega
      refine Nat.ModEq.trans ?_ hmod
      conv_rhs => rw [← hback]
      exact Nat.add_modEq_right.symm
  · rw [toNat_add]
    split <;> omega

/-- The sum of words is their plain sum with the carries added back in. -/
theorem folded_sum (ws : List (BitVec w)) :
    Folded w (ws.map BitVec.toNat).sum (sum ws).toNat := by
  induction ws with
  | nil => exact folded_self (Nat.two_pow_pos w)
  | cons a ws ih => exact folded_add ih

/-- With the complement of the sum among the words, the sum is all ones. -/
theorem Folded.complement (h : Folded w n r) : Folded w (n + (2 ^ w - 1 - r)) (2 ^ w - 1) := by
  have hlt := h.lt
  have hz := h.zero
  refine ⟨by omega, ?_, by omega⟩
  calc 2 ^ w - 1 = r + (2 ^ w - 1 - r) := by omega
    _ ≡ n + (2 ^ w - 1 - r) [MOD 2 ^ w - 1] := h.mod.add_right _

end

/-! ### Byte order -/

/-- The two bytes of a word swapped. -/
def swap (a : U16) : U16 := a <<< 8 ||| a >>> 8

theorem toNat_swap (a : U16) : (swap a).toNat = 256 * (a.toNat % 256) + a.toNat / 256 := by
  have ha := a.isLt
  have hhi : (a <<< 8).toNat = (a.toNat % 256) <<< 8 := by
    rw [BitVec.toNat_shiftLeft, Nat.shiftLeft_eq, Nat.shiftLeft_eq]
    omega
  have hlo : (a >>> 8).toNat = a.toNat / 256 := by
    rw [BitVec.toNat_ushiftRight, Nat.shiftRight_eq_div_pow]
  have hlt : a.toNat / 256 < 2 ^ 8 := by omega
  rw [swap, BitVec.toNat_or, hhi, hlo, ← Nat.shiftLeft_add_eq_or_of_lt hlt, Nat.shiftLeft_eq]
  omega

theorem swap_swap (a : U16) : swap (swap a) = a := by
  have ha := a.isLt
  apply BitVec.eq_of_toNat_eq
  rw [toNat_swap, toNat_swap]
  omega

theorem swap_injective : Function.Injective swap := by
  intro a b h
  rw [← swap_swap a, h, swap_swap]

/-- The sum of the swapped words is the swapped sum: a swap is a multiplication by 256. -/
theorem sum_map_swap (ws : List U16) : sum (ws.map swap) = swap (sum ws) := by
  have hswap : ∀ a : U16, (swap a).toNat ≡ 256 * a.toNat [MOD 65535] := by
    intro a
    rw [toNat_swap]
    show _ % 65535 = _ % 65535
    omega
  have hzero : ∀ a : U16, (swap a).toNat = 0 ↔ a.toNat = 0 := by
    intro a
    rw [toNat_swap]
    omega
  have htotal : ((ws.map swap).map BitVec.toNat).sum ≡ 256 * (ws.map BitVec.toNat).sum
        [MOD 65535] ∧
      (((ws.map swap).map BitVec.toNat).sum = 0 ↔ (ws.map BitVec.toNat).sum = 0) := by
    induction ws with
    | nil => exact ⟨rfl, Iff.rfl⟩
    | cons a ws ih =>
        have hz := hzero a
        simp only [List.map_cons, List.sum_cons, Nat.mul_add]
        exact ⟨(hswap a).add ih.1, by omega⟩
  obtain ⟨-, hmod, hz⟩ := folded_sum ws
  have hfolded : Folded 16 ((ws.map swap).map BitVec.toNat).sum (swap (sum ws)).toNat :=
    ⟨(swap (sum ws)).isLt, (hswap _).trans ((hmod.mul_left 256).trans htotal.1.symm),
      (hzero _).trans (hz.trans htotal.2.symm)⟩
  exact BitVec.eq_of_toNat_eq ((folded_sum _).unique hfolded)

/-! ### The words of a buffer -/

section
variable (buf : Bytes)

/-- The 16-bit words of a buffer. -/
def words : Bytes → List U16
  | lo :: hi :: buf => (hi ++ lo) :: words buf
  | [b] => [b.setWidth 16]
  | [] => []

/-- Their plain sum. -/
def total : Nat := ((words buf).map BitVec.toNat).sum

theorem toNat_word (lo hi : U8) : (hi ++ lo : U16).toNat = lo.toNat + 256 * hi.toNat := by
  have hlo := lo.isLt
  have he : (hi ++ lo : U16).toNat = hi.toNat <<< 8 ||| lo.toNat := BitVec.toNat_append hi lo
  rw [he, ← Nat.shiftLeft_add_eq_or_of_lt hlo, Nat.shiftLeft_eq]
  omega

theorem toNat_pad (b : U8) : (b.setWidth 16).toNat = b.toNat := by
  have hb := b.isLt
  rw [BitVec.toNat_setWidth]
  omega

@[simp] theorem total_nil : total [] = 0 := rfl

@[simp] theorem total_singleton (b : U8) : total [b] = b.toNat := by
  simp only [total, words, List.map_cons, List.map_nil, List.sum_cons, List.sum_nil, toNat_pad,
    Nat.add_zero]

@[simp] theorem total_cons_cons (lo hi : U8) :
    total (lo :: hi :: buf) = lo.toNat + 256 * hi.toNat + total buf := by
  simp only [total, words, List.map_cons, List.sum_cons, toNat_word]

theorem total_le : total buf ≤ 65535 * ((buf.length + 1) / 2) := by
  fun_induction words buf with
  | case1 lo hi buf ih =>
      have hlo := lo.isLt
      have hhi := hi.isLt
      rw [total_cons_cons, List.length_cons, List.length_cons]
      omega
  | case2 b =>
      have hb := b.isLt
      rw [total_singleton, List.length_singleton]
      omega
  | case3 => exact Nat.zero_le _

/-- A buffer of whole words adds its own. -/
theorem total_append (buf' : Bytes) (h : buf.length % 2 = 0) :
    total (buf ++ buf') = total buf + total buf' := by
  fun_induction words buf with
  | case1 lo hi buf ih =>
      rw [List.length_cons, List.length_cons] at h
      have ih := ih (by omega)
      rw [List.cons_append, List.cons_append, total_cons_cons, total_cons_cons, ih]
      omega
  | case2 b => simp at h
  | case3 => simp

theorem folded_words : Folded 16 (total buf) (sum (words buf)).toNat := folded_sum (words buf)

theorem toNat_load16 (off : Nat) :
    (buf.load 16 off).toNat = (buf.byte off).toNat + 256 * (buf.byte (off + 1)).toNat := by
  rw [Bytes.toNat_load buf rfl]
  rfl

/-- A word written at an even offset takes the place of the one before it. -/
theorem total_put {off : Nat} (v : U16) (he : off % 2 = 0) (hl : off + 2 ≤ buf.length) :
    total (buf.put off v) + (buf.load 16 off).toNat = total buf + v.toNat := by
  fun_induction words buf generalizing off with
  | case1 lo hi buf ih =>
      rw [List.length_cons, List.length_cons] at hl
      obtain rfl | ⟨k, rfl⟩ : off = 0 ∨ ∃ k, off = k + 2 := by
        rcases off with - | - | k
        · exact .inl rfl
        · simp at he
        · exact .inr ⟨k, rfl⟩
      · have hlo : (BitVec.ofNat 8 v.toNat).toNat = v.toNat % 256 := BitVec.toNat_ofNat ..
        have hhi : (BitVec.ofNat 8 (v.toNat / 256)).toNat = v.toNat / 256 % 256 :=
          BitVec.toNat_ofNat ..
        have hv := v.isLt
        have hput : Bytes.put (lo :: hi :: buf) 0 v =
            BitVec.ofNat 8 v.toNat :: BitVec.ofNat 8 (v.toNat / 256) :: buf := by
          cases buf <;> rfl
        rw [hput, total_cons_cons, total_cons_cons, toNat_load16, hlo, hhi]
        simp only [Bytes.byte_cons_zero, Bytes.byte_cons_succ]
        omega
      · have hput : Bytes.put (lo :: hi :: buf) (k + 2) v = lo :: hi :: Bytes.put buf k v := rfl
        have hload : (Bytes.load (lo :: hi :: buf) 16 (k + 2)).toNat =
            (Bytes.load buf 16 k).toNat := by
          rw [toNat_load16, toNat_load16]
          rfl
        have ih : total (Bytes.put buf k v) + (Bytes.load buf 16 k).toNat = total buf + v.toNat :=
          ih (by omega) (by omega)
        rw [hput, hload, total_cons_cons, total_cons_cons]
        omega
  | case2 b =>
      rw [List.length_singleton] at hl
      omega
  | case3 => simp at hl

/-- The complement of the sum, written into a zero word, makes the sum all ones. -/
theorem sum_words_put {off : Nat} (he : off % 2 = 0) (hl : off + 2 ≤ buf.length)
    (h₀ : buf.load 16 off = 0#16) :
    sum (words (buf.put off (~~~ sum (words buf)))) = 0xffff#16 := by
  have hput := total_put buf (~~~ sum (words buf)) he hl
  rw [h₀, BitVec.toNat_not] at hput
  have hones := (folded_words buf).complement
  have hsum := folded_words (buf.put off (~~~ sum (words buf)))
  rw [show total (buf.put off (~~~ sum (words buf))) =
    total buf + (2 ^ 16 - 1 - (sum (words buf)).toNat) from hput] at hsum
  exact BitVec.eq_of_toNat_eq (hsum.unique hones)

end

end OnesComplement
