import EbpfLoadBalancer.Balancer.Datagram
import EbpfLoadBalancer.Support.OnesComplement

/-!
# Balancer — the checksums

`ip_checksum` sums in 64 bits and folds the carries twice, which is enough for any buffer of up to
65535 bytes (`ip_checksum_valid`), so the header of a rewritten frame sums to all ones
(`header_sum_rewrite`).

`udp_checksum` sums in 16 bits and loses every carry.  What it returns is the checksum of the
datagram only when the words add up without a carry, and not to all ones (`udpChecksum_eq_iff`).
Words are read little-endian, and the value stored is the one computed in network order
(`bpfNtohs_rfcChecksum`).
-/

namespace EbpfLb
open Bytes OnesComplement

/-! ### `ip_checksum` -/

theorem ipSum_eq (s : U64) (buf : Bytes) : ipSum s buf = s + BitVec.ofNat 64 (total buf) := by
  fun_induction ipSum s buf with
  | case1 s lo hi buf ih =>
      have hw : (word lo hi).setWidth 64 = BitVec.ofNat 64 (lo.toNat + 256 * hi.toNat) := by
        rw [word, ← toNat_word, BitVec.ofNat_toNat]
      rw [ih, hw, total_cons_cons, BitVec.add_assoc, ← BitVec.ofNat_add]
  | case2 s b => rw [total_singleton, BitVec.ofNat_toNat]
  | case3 s => simp

theorem toNat_foldCarry (s : U64) :
    (foldCarry s).toNat = s.toNat % 2 ^ 16 + s.toNat / 2 ^ 16 := by
  have hs := s.isLt
  have hm : (0xffff#64).toNat = 2 ^ 16 - 1 := rfl
  rw [foldCarry, BitVec.toNat_add, BitVec.toNat_and, BitVec.toNat_ushiftRight, hm,
    Nat.and_two_pow_sub_one_eq_mod, Nat.shiftRight_eq_div_pow]
  omega

/-- Two folds leave nothing to carry. -/
theorem foldCarry_foldCarry_lt {s : U64} (h : s.toNat < 2 ^ 32 - 2 ^ 16) :
    (foldCarry (foldCarry s)).toNat < 2 ^ 16 := by
  rw [toNat_foldCarry, toNat_foldCarry]
  omega

/-- No carry leaves the accumulator. -/
theorem toNat_ipSum {buf : Bytes} (h : buf.length ≤ 65535) :
    (ipSum 0#64 buf).toNat = total buf := by
  have hle := total_le buf
  rw [ipSum_eq, BitVec.zero_add, BitVec.toNat_ofNat]
  omega

theorem ipSum_folded_lt {buf : Bytes} (h : buf.length ≤ 65535) :
    (foldCarry (foldCarry (ipSum 0#64 buf))).toNat < 2 ^ 16 := by
  have hle := total_le buf
  refine foldCarry_foldCarry_lt ?_
  rw [toNat_ipSum h]
  omega

/-- `ip_checksum` is the complement of the one's-complement sum. -/
theorem ipChecksum_eq {buf : Bytes} (h : buf.length ≤ 65535) :
    ipChecksum buf = ~~~ sum (words buf) := by
  have hlt := ipSum_folded_lt h
  -- each fold adds the carries back in, and the second leaves a 16-bit number
  have hfolded : Folded 16 (total buf) (foldCarry (foldCarry (ipSum 0#64 buf))).toNat := by
    rw [← toNat_ipSum h]
    refine Folded.fold ?_
    rw [← toNat_foldCarry]
    refine Folded.fold ?_
    rw [← toNat_foldCarry]
    exact folded_self hlt
  have heq := hfolded.unique (folded_words buf)
  rw [ipChecksum]
  generalize foldCarry (foldCarry (ipSum 0#64 buf)) = s at hlt heq
  apply BitVec.eq_of_toNat_eq
  rw [BitVec.toNat_setWidth, BitVec.toNat_not, BitVec.toNat_not, ← heq]
  omega

/-- Stored in a zero field, it makes the buffer sum to all ones. -/
theorem sum_words_ipChecksum {buf : Bytes} {off : Nat} (h : buf.length ≤ 65535) (he : off % 2 = 0)
    (hl : off + 2 ≤ buf.length) (h₀ : buf.load 16 off = 0#16) :
    sum (words (buf.put off (ipChecksum buf))) = 0xffff#16 := by
  rw [ipChecksum_eq h]
  exact sum_words_put _ he hl h₀

/-- The header of a rewritten frame sums to all ones. -/
theorem header_sum_rewrite (info : DestInfo) {f : Bytes} (h : 42 ≤ f.length) :
    sum (words ((rewrite info f).read 14 20).toList) = 0xffff#16 := by
  let g := (addressedTo info f).put 24 0#16
  have hlen : g.length = f.length := by simp [g]
  have hzero : load (g.read 14 20).toList 16 10 = 0#16 := by
    rw [load_toList_read g (by decide)]
    exact load_put_same _ _ rfl (by simpa using by omega)
  have hread : (rewrite info f).read 14 20 =
      (g.put (14 + 10) (ipChecksum (g.read 14 20).toList)).read 14 20 := by
    rw [rewrite_eq, unsummed, read_put_disjoint _ _ (by decide), read_put_disjoint _ _ (by decide)]
  rw [hread, toList_read_put g _ 10 (by omega)]
  exact sum_words_ipChecksum (by simp) (by decide) (by simp) hzero

/-- **The header checksum is right.**  For a buffer of up to 65535 bytes no carry leaves the 64-bit
accumulator, two folds leave a 16-bit number, and the result is the complement of the
one's-complement sum of the words; stored in a field that is zero, at an even offset, it makes the
buffer sum to all ones, which is what a receiver finds in the header of a frame that
`send_to_backend` rewrites. -/
theorem ip_checksum_valid {buf : Bytes} (h : buf.length ≤ 65535) :
    (ipSum 0#64 buf).toNat = total buf ∧
    (foldCarry (foldCarry (ipSum 0#64 buf))).toNat < 2 ^ 16 ∧
    ipChecksum buf = ~~~ sum (words buf) ∧
    (∀ off, off % 2 = 0 → off + 2 ≤ buf.length → buf.load 16 off = 0#16 →
      sum (words (buf.put off (ipChecksum buf))) = 0xffff#16) ∧
    ∀ (info : DestInfo) (f : Bytes), 42 ≤ f.length →
      sum (words ((rewrite info f).read 14 20).toList) = 0xffff#16 :=
  ⟨toNat_ipSum h, ipSum_folded_lt h, ipChecksum_eq h, fun _ => sum_words_ipChecksum h,
    header_sum_rewrite⟩

/-- A header whose checksum field is zero. -/
def blankHeader : Bytes :=
  [0x45#8, 0#8, 0#8, 36#8, 0#8, 0#8, 0x40#8, 0#8, 64#8, 17#8, 0#8, 0#8] ++
    [192#8, 168#8, 0#8, 2#8, 192#8, 168#8, 0#8, 3#8]

theorem ip_checksum_valid_blankHeader :
    ipChecksum blankHeader = ~~~ sum (words blankHeader) ∧
      sum (words (blankHeader.put 10 (ipChecksum blankHeader))) = 0xffff#16 := by
  have hlen : blankHeader.length ≤ 65535 := by decide
  obtain ⟨-, -, hsum, hstored, -⟩ := ip_checksum_valid hlen
  exact ⟨hsum, hstored 10 (by decide) (by decide) (by decide +kernel)⟩

/-! ### `udp_checksum` -/

/-- The pseudo-header: the two addresses, a zero byte, the protocol and the UDP length. -/
def pseudoHeader (f : Bytes) : Bytes :=
  (f.read 26 8).toList ++ [0#8, f.byte 23] ++ (f.read 38 2).toList

/-- What the checksum covers: the pseudo-header and the datagram. -/
def covered (f : Bytes) : Bytes := pseudoHeader f ++ f.drop 34

/-- The checksum to transmit, in a datagram whose checksum field is zero. -/
def rfcChecksum (f : Bytes) : U16 :=
  let csum := ~~~ sum (words (covered f))
  if csum = 0#16 then 0xffff#16 else csum

/-- It is the checksum of the words in network order, in network order. -/
theorem bpfNtohs_rfcChecksum (f : Bytes) :
    bpfNtohs (rfcChecksum f) =
      let csum := ~~~ sum ((words (covered f)).map bpfNtohs)
      if csum = 0#16 then 0xffff#16 else csum := by
  have hnot : ∀ a : U16, ~~~ swap a = swap (~~~ a) := by
    intro a
    have ha := a.isLt
    apply BitVec.eq_of_toNat_eq
    rw [BitVec.toNat_not, toNat_swap, toNat_swap, BitVec.toNat_not]
    omega
  have hzero : ∀ a : U16, swap a = 0#16 ↔ a = 0#16 := fun a =>
    ⟨fun h => by rw [← swap_swap a, h]; rfl, fun h => by rw [h]; rfl⟩
  have hsum : ~~~ sum ((words (covered f)).map bpfNtohs) = swap (~~~ sum (words (covered f))) := by
    rw [← hnot, ← sum_map_swap]
    rfl
  simp only [hsum, hzero, rfcChecksum]
  split
  · rfl
  · rfl

/-- A receiver accepts the datagram: there is no checksum, or the words sum to all ones. -/
def Verifies (f : Bytes) : Prop := f.load 16 40 = 0#16 ∨ sum (words (covered f)) = 0xffff#16

instance : DecidablePred Verifies := fun _ => inferInstanceAs (Decidable (_ ∨ _))

/-- A UDP datagram behind a 20-byte header, of at most `MAX_UDP_LENGTH` bytes, whose length field
is right and whose checksum field is zero. -/
structure Unchecked (f : Bytes) : Prop where
  proto : ipProtocol f = ipprotoUdp
  header : 42 ≤ f.length
  fits : f.length ≤ 34 + maxUdpLength
  len : udpLen f = bpfHtons (BitVec.ofNat 16 (f.length - 34))
  check : f.load 16 40 = 0#16

theorem length_pseudoHeader (f : Bytes) : (pseudoHeader f).length = 12 := by simp [pseudoHeader]

theorem total_covered (f : Bytes) :
    total (covered f) = total (pseudoHeader f) + total (f.drop 34) :=
  total_append _ _ (by rw [length_pseudoHeader])

/-- The loop and the odd byte after it. -/
theorem udpSum_eq (n : Nat) (csum : U16) (buf : Bytes) (h : buf.length ≤ 2 * n) :
    (match (udpSum n csum buf).2 with
      | b :: _ => (udpSum n csum buf).1 + b.setWidth 16
      | [] => (udpSum n csum buf).1) = csum + BitVec.ofNat 16 (total buf) := by
  fun_induction udpSum n csum buf with
  | case1 n csum lo hi buf ih =>
      have hw : word lo hi = BitVec.ofNat 16 (lo.toNat + 256 * hi.toNat) := by
        rw [← toNat_word, BitVec.ofNat_toNat, BitVec.setWidth_eq]
        rfl
      rw [List.length_cons, List.length_cons] at h
      rw [ih (by omega), hw, total_cons_cons, BitVec.add_assoc, ← BitVec.ofNat_add]
  | case2 n csum buf hstop =>
      match n, buf, hstop with
      | _, [], _ => simp
      | n, [b], _ => rw [total_singleton, BitVec.ofNat_toNat]
      | 0, _ :: _ :: _, _ => simp at h
      | n + 1, lo :: hi :: buf, hstop => exact absurd rfl (hstop n lo hi buf rfl)

section
variable {f : Bytes}

/-- The low and the high word of an integer of four bytes. -/
theorem words_load32 (f : Bytes) (off : Nat) :
    (f.load 32 off).setWidth 16 =
        BitVec.ofNat 16 ((f.byte off).toNat + 256 * (f.byte (off + 1)).toNat) ∧
      (f.load 32 off >>> 16).setWidth 16 =
        BitVec.ofNat 16 ((f.byte (off + 2)).toNat + 256 * (f.byte (off + 3)).toNat) := by
  have h₀ := (f.byte off).isLt
  have h₁ := (f.byte (off + 1)).isLt
  have hl : (f.load 32 off).toNat = (f.byte off).toNat + 256 * ((f.byte (off + 1)).toNat +
      256 * ((f.byte (off + 2)).toNat + 256 * (f.byte (off + 3)).toNat)) := by
    rw [toNat_load f rfl]
    rfl
  constructor
  · apply BitVec.eq_of_toNat_eq
    rw [BitVec.toNat_setWidth, BitVec.toNat_ofNat, hl]
    omega
  · apply BitVec.eq_of_toNat_eq
    rw [BitVec.toNat_setWidth, BitVec.toNat_ofNat, BitVec.toNat_ushiftRight,
      Nat.shiftRight_eq_div_pow, hl]
    omega

/-- The sum of the pseudo-header as the program adds it up. -/
theorem pseudoHeader_eq :
    (ipSaddr f).setWidth 16 + (ipSaddr f >>> 16).setWidth 16 + (ipDaddr f).setWidth 16 +
        (ipDaddr f >>> 16).setWidth 16 + (ipProtocol f).setWidth 16 <<< 8 + udpLen f =
      BitVec.ofNat 16 (total (pseudoHeader f)) := by
  have hbytes : pseudoHeader f =
      [f.byte 26, f.byte 27, f.byte 28, f.byte 29, f.byte 30, f.byte 31, f.byte 32, f.byte 33,
        0#8, f.byte 23, f.byte 38, f.byte 39] := rfl
  have hp : (ipProtocol f).setWidth 16 <<< 8 = BitVec.ofNat 16 (256 * (f.byte 23).toNat) := by
    have hl : (ipProtocol f).toNat = (f.byte 23).toNat := toNat_load f rfl
    apply BitVec.eq_of_toNat_eq
    rw [BitVec.toNat_shiftLeft, BitVec.toNat_setWidth, BitVec.toNat_ofNat, hl, Nat.shiftLeft_eq]
    omega
  have hu : udpLen f = BitVec.ofNat 16 ((f.byte 38).toNat + 256 * (f.byte 39).toNat) := by
    rw [udpLen, ← toNat_load16, BitVec.ofNat_toNat, BitVec.setWidth_eq]
  have hz : (0#8).toNat = 0 := rfl
  rw [hbytes, ipSaddr, ipDaddr, (words_load32 f 26).1, (words_load32 f 26).2,
    (words_load32 f 30).1, (words_load32 f 30).2, hp, hu]
  simp only [← BitVec.ofNat_add, total_cons_cons, total_nil, hz, Nat.reduceAdd]
  exact congrArg (BitVec.ofNat 16) (by omega)

/-- **`udp_checksum` is the complement of the plain sum, cut to 16 bits.** -/
theorem udpChecksum_eq (h : f.length ≤ 34 + maxUdpLength) :
    udpChecksum f = ~~~ BitVec.ofNat 16 (total (covered f)) := by
  unfold udpChecksum
  simp only [BitVec.zero_add]
  rw [pseudoHeader_eq]
  have hl : (f.drop 34).length ≤ 2 * (maxUdpLength / 2) := by
    have hm : maxUdpLength = 1480 := rfl
    rw [List.length_drop, hm]
    omega
  have hsum := udpSum_eq (maxUdpLength / 2) (BitVec.ofNat 16 (total (pseudoHeader f))) (f.drop 34)
    hl
  rw [total_covered, BitVec.ofNat_add]
  refine Eq.trans ?_ (congrArg (~~~ ·) hsum)
  generalize udpSum _ _ _ = p
  obtain ⟨csum, buf⟩ := p
  rfl

/-- The plain sum is far below the square of the modulus. -/
theorem total_covered_le (h : f.length ≤ 34 + maxUdpLength) :
    total (covered f) ≤ 65535 * 746 := by
  have hm : maxUdpLength = 1480 := rfl
  have hle := total_le (covered f)
  have hlen : (covered f).length = 12 + (f.length - 34) := by
    rw [covered, List.length_append, length_pseudoHeader, List.length_drop]
  omega

/-- It returns the checksum to transmit exactly when nothing carries and the sum is not all
ones. -/
theorem udpChecksum_eq_iff (h : f.length ≤ 34 + maxUdpLength) :
    udpChecksum f = rfcChecksum f ↔ total (covered f) < 65535 := by
  have hle := total_covered_le h
  obtain ⟨hlt, hmod, hzero⟩ := folded_words (covered f)
  rw [udpChecksum_eq h, rfcChecksum, ← BitVec.toNat_inj, BitVec.toNat_not, BitVec.toNat_ofNat]
  have hc : ~~~ sum (words (covered f)) = 0#16 ↔ (sum (words (covered f))).toNat = 65535 := by
    rw [← BitVec.toNat_inj, BitVec.toNat_not]
    simp only [BitVec.toNat_ofNat]
    omega
  have hmod : (sum (words (covered f))).toNat % 65535 = total (covered f) % 65535 := hmod
  simp only [hc]
  split
  · -- the sum is all ones, and is sent as such
    have hf : (0xffff#16).toNat = 65535 := rfl
    rw [hf]
    omega
  · rw [BitVec.toNat_not]
    omega

/-- A checksum put into the zero field adds itself to the sum. -/
theorem total_covered_put (hl : 42 ≤ f.length) (h₀ : f.load 16 40 = 0#16) (csum : U16) :
    total (covered (f.put 40 csum)) = total (covered f) + csum.toNat := by
  have hpseudo : pseudoHeader (f.put 40 csum) = pseudoHeader f := by
    have hb : (f.put 40 csum).byte 23 = f.byte 23 := by
      rw [put, byte_store, if_neg (by omega)]
    rw [pseudoHeader, pseudoHeader, hb, read_put_disjoint _ _ (by decide),
      read_put_disjoint _ _ (by decide)]
  have hdrop : (f.put 40 csum).drop 34 = put (f.drop 34) 6 csum := drop_store f _ 34 6
  have hload : load (f.drop 34) 16 6 = 0#16 := by
    rw [← h₀]
    exact load_drop f 16 34 6
  have hput : total (put (f.drop 34) 6 csum) + (load (f.drop 34) 16 6).toNat =
      total (f.drop 34) + csum.toNat :=
    total_put _ csum (by decide) (by rw [List.length_drop]; omega)
  have hz : (0#16).toNat = 0 := rfl
  rw [hload, hz] at hput
  rw [total_covered, total_covered, hpseudo, hdrop]
  omega

/-- A receiver accepts what it returns exactly when nothing carries, or the sum is cut to all
ones and the field is zero. -/
theorem verifies_put_iff (h : Unchecked f) :
    Verifies (f.put 40 (udpChecksum f)) ↔
      total (covered f) < 65536 ∨ total (covered f) % 65536 = 65535 := by
  have hle := total_covered_le h.fits
  have hfield : (f.put 40 (udpChecksum f)).load 16 40 = udpChecksum f :=
    load_put_same f _ rfl h.header
  have hcsum : (udpChecksum f).toNat = 65535 - total (covered f) % 65536 := by
    rw [udpChecksum_eq h.fits, BitVec.toNat_not, BitVec.toNat_ofNat]
  have htotal := total_covered_put h.header h.check (udpChecksum f)
  obtain ⟨hlt, hmod, hzero⟩ := folded_words (covered (f.put 40 (udpChecksum f)))
  have hmod : (sum (words (covered (f.put 40 (udpChecksum f))))).toNat % 65535 =
      total (covered (f.put 40 (udpChecksum f))) % 65535 := hmod
  have hz : (0#16).toNat = 0 := rfl
  have hf : (0xffff#16).toNat = 65535 := rfl
  rw [Verifies, hfield, ← BitVec.toNat_inj, ← BitVec.toNat_inj, hz, hf]
  omega

end

/-! ### The frames sent -/

section
variable {info : DestInfo} {f : Bytes}

theorem unchecked_unsummed (hl : 42 ≤ f.length) (hm : f.length ≤ 34 + maxUdpLength)
    (hp : ipProtocol f = ipprotoUdp) : Unchecked (unsummed info f) where
  proto := by
    rw [← hp]
    simp [unsummed, addressedTo, ipProtocol, load_put_disjoint, load_store_disjoint]
  header := by rwa [length_unsummed]
  fits := by rwa [length_unsummed]
  len := by simp [unsummed, addressedTo, udpLen, load_put_disjoint, load_header, hl]
  check := load_put_same _ _ rfl (by simpa using hl)

end

/-- **The UDP checksum is right when nothing carries.**  `udp_checksum` returns the checksum of a
datagram exactly when its words and the pseudo-header's add up to less than all ones; and a frame
`send_to_backend` emits is accepted exactly when they add up without a carry, or to a sum whose
low 16 bits are all ones, which leaves the field zero. -/
theorem udp_checksum_valid_iff (info : DestInfo) (f : Bytes) :
    (Unchecked f → (udpChecksum f = rfcChecksum f ↔ total (covered f) < 65535)) ∧
    (42 ≤ f.length → f.length ≤ 34 + maxUdpLength → ipProtocol f = ipprotoUdp →
      (Verifies (rewrite info f) ↔
        total (covered (unsummed info f)) < 65536 ∨
          total (covered (unsummed info f)) % 65536 = 65535)) := by
  constructor
  · intro h
    exact udpChecksum_eq_iff h.fits
  · intro hl hm hp
    rw [rewrite_eq]
    exact verifies_put_iff (unchecked_unsummed hl hm hp)

/-- The slot of the server at `192.168.0.3`, behind the balancer at `192.168.0.2`. -/
def server3 : DestInfo := ⟨0x0300a8c0#32, 0x0200a8c0#32, Vector.replicate 6 2#8, 5#16⟩

/-- The client's job `7`, in network order. -/
def job7 : Frame := jobOf 0x0700000000000000#64

theorem length_job7 : job7.bytes.length = 50 := (isJob_jobOf _).length

theorem header_job7 : 42 ≤ job7.bytes.length := by
  rw [length_job7]
  decide

theorem fits_job7 : job7.bytes.length ≤ 34 + maxUdpLength := by
  rw [length_job7]
  decide

theorem ipProtocol_job7 : ipProtocol job7.bytes = ipprotoUdp := (isJob_jobOf _).1.2.2.1

theorem unchecked_job7 : Unchecked (unsummed server3 job7.bytes) :=
  unchecked_unsummed header_job7 fits_job7 ipProtocol_job7

theorem udp_checksum_valid_iff_job7 :
    (udpChecksum (unsummed server3 job7.bytes) = rfcChecksum (unsummed server3 job7.bytes) ↔
      total (covered (unsummed server3 job7.bytes)) < 65535) ∧
    (Verifies (rewrite server3 job7.bytes) ↔
      total (covered (unsummed server3 job7.bytes)) < 65536 ∨
        total (covered (unsummed server3 job7.bytes)) % 65536 = 65535) :=
  ⟨(udp_checksum_valid_iff server3 (unsummed server3 job7.bytes)).1 unchecked_job7,
    (udp_checksum_valid_iff server3 job7.bytes).2 header_job7 fits_job7 ipProtocol_job7⟩

/-- The words of this job to this server carry, and the receiver drops the frame. -/
theorem checksum_carries :
    ¬ (∀ f, Unchecked f → udpChecksum f = rfcChecksum f) ∧
    ¬ ∀ (info : DestInfo) (f : Bytes), 42 ≤ f.length → f.length ≤ 34 + maxUdpLength →
      ipProtocol f = ipprotoUdp → Verifies (rewrite info f) := by
  constructor
  · intro h
    exact absurd (h _ unchecked_job7) (by decide +kernel)
  · intro h
    exact absurd (h server3 job7.bytes header_job7 fits_job7 ipProtocol_job7) (by decide +kernel)

end EbpfLb
