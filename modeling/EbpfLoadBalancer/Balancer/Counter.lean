import EbpfLoadBalancer.Balancer.Registry

/-!
# Balancer — whom a completion is credited to

A ping from an address not on record is taken to the slot `server_cnt` names, and the counter is
compared with nothing.  As long as its 16 bits have not wrapped that is harmless: no slot from
the counter on is occupied, so the ping registers its host or is refused (`Counted`), and a slot
is credited only by its own host (`credits_sender`).  Refused registrations move the counter too.
After 65536 passes through the registration branch it names slot `0` again, and the next ping of
a host that was never registered is taken for a completion of the host in that slot
(`stranger_credited`).

The invariant is about every run, pings from `0.0.0.0` included: such a ping passes through the
registration branch every time and occupies nothing.
-/

namespace EbpfLb
open Bpf

/-- The counter is past every key on record and every occupied slot. -/
structure Counted (m : Maps) : Prop where
  /-- A key on record is below the counter, and names its own address's slot or none. -/
  slot : ∀ a key, m.ipToKey.lookup a = some key →
    key.toNat < (m.serverCnt 0).toNat ∧ ∀ k : Slot, key = slotKey k → (m.servers k).saddr = a
  /-- An occupied slot is on record. -/
  known : ∀ k : Slot, (m.servers k).saddr ≠ 0#32 →
    m.ipToKey.lookup (m.servers k).saddr = some (slotKey k)
  /-- The slots from the counter on are empty. -/
  fresh : ∀ k : Slot, (m.serverCnt 0).toNat ≤ k.val → (m.servers k).saddr = 0#32
  /-- No more addresses are on record than the counter says. -/
  room : m.ipToKey.size ≤ (m.serverCnt 0).toNat

theorem counted_empty : Counted Maps.empty where
  slot _ _ h := by cases h
  known _ h := absurd rfl h
  fresh _ _ := rfl
  room := Nat.le_refl 0

theorem bump_toNat {m : Maps} (h : m.serverCnt 0 ≠ 0xffff#16) :
    (m.bump.serverCnt 0).toNat = (m.serverCnt 0).toNat + 1 := by
  have h1 : (1#16).toNat = 1 := rfl
  have hlt := (m.serverCnt 0).isLt
  have hne : (m.serverCnt 0).toNat ≠ 65535 := fun e => h (BitVec.eq_of_toNat_eq e)
  rw [Maps.bump_serverCnt, BitVec.toNat_add, h1]
  omega

section
variable {m m' : Maps} {a : U32} {k : Slot}

/-- The counter may grow, the addresses stay. -/
theorem Counted.congr (h : Counted m) (hi : m'.ipToKey = m.ipToKey)
    (hs : ∀ k : Slot, (m'.servers k).saddr = (m.servers k).saddr)
    (hc : (m.serverCnt 0).toNat ≤ (m'.serverCnt 0).toNat) : Counted m' where
  slot a key hl := by
    obtain ⟨hlt, hk⟩ := h.slot a key (hi ▸ hl)
    exact ⟨Nat.lt_of_lt_of_le hlt hc, fun k e => (hs k).trans (hk k e)⟩
  known k hk := by
    rw [hs k] at hk ⊢
    rw [hi]
    exact h.known k hk
  fresh k hk := (hs k).trans (h.fresh k (Nat.le_trans hc hk))
  room := by
    rw [hi]
    exact Nat.le_trans h.room hc

/-- A ping taken to an occupied slot comes from the host in it. -/
theorem Counted.sender (h : Counted m) (hk : m.keyOf a = slotKey k)
    (hr : (m.servers k).saddr ≠ 0#32) :
    m.ipToKey.lookup a = some (slotKey k) ∧ (m.servers k).saddr = a := by
  cases hl : m.ipToKey.lookup a with
  | some key =>
      obtain rfl := (Maps.keyOf_known hl).symm.trans hk
      exact ⟨rfl, (h.slot a _ hl).2 k rfl⟩
  | none =>
      have hkey := Maps.keyOf_unknown hl
      rw [hk, slotKey_toNat] at hkey
      exact absurd (h.fresh k (Nat.le_of_eq hkey.symm)) hr

/-- The host in a slot is taken to it. -/
theorem Counted.keyOf (h : Counted m) (ha : a ≠ 0#32) (hk : (m.servers k).saddr = a) :
    m.keyOf a = slotKey k :=
  Maps.keyOf_known (hk ▸ h.known k (hk ▸ ha))

/-- A new address goes on record under the counter, and into the slot of that key if there is
one. -/
theorem Counted.grow (h : Counted m) {key : U32} (hl : m.ipToKey.lookup a = none)
    (hkey : key.toNat = (m.serverCnt 0).toNat)
    (hlook : ∀ b, m'.ipToKey.lookup b = if b = a then some key else m.ipToKey.lookup b)
    (hsize : m'.ipToKey.size = m.ipToKey.size + 1)
    (hsrv : ∀ j : Slot, (m'.servers j).saddr = if slotKey j = key then a else (m.servers j).saddr)
    (hc : (m'.serverCnt 0).toNat = (m.serverCnt 0).toNat + 1) : Counted m' where
  slot b key' hb := by
    rw [hlook] at hb
    split at hb
    · rename_i e
      cases hb
      exact ⟨by omega, fun j ej => by rw [hsrv, if_pos ej.symm, e]⟩
    · obtain ⟨hlt, hs⟩ := h.slot b key' hb
      refine ⟨by omega, fun j ej => ?_⟩
      rw [hsrv, if_neg, hs j ej]
      rintro rfl
      rw [ej] at hlt
      omega
  known j hj := by
    rw [hsrv] at hj ⊢
    split at hj
    · rename_i e
      rw [if_pos e, hlook, if_pos rfl, e]
    · rename_i e
      have hknown := h.known j hj
      rw [if_neg e, hlook, if_neg fun e' => ?_, hknown]
      rw [e', hl] at hknown
      cases hknown
  fresh j hj := by
    rw [hsrv, if_neg, h.fresh j (by omega)]
    rintro rfl
    rw [slotKey_toNat] at hkey
    omega
  room := by
    rw [hsize, hc]
    exact Nat.succ_le_succ h.room

/-- A refused registration keeps the invariant. -/
theorem Counted.refuse (h : Counted m) (hk : maxServers ≤ (m.keyOf a).toNat)
    (hw : m.serverCnt 0 ≠ 0xffff#16) : Counted (m.note a).bump := by
  have hb : ((m.note a).bump.serverCnt 0).toNat = (m.serverCnt 0).toNat + 1 := by
    rw [bump_toNat (by rwa [Maps.note_serverCnt]), Maps.note_serverCnt]
  have hsame : m.note a = m → Counted (m.note a).bump := fun e =>
    h.congr (by rw [Maps.bump_ipToKey, e]) (fun k => by rw [Maps.bump_servers, e]) (by omega)
  by_cases hl : m.ipToKey.lookup a = none
  swap
  · exact hsame (Maps.note_of_known hl)
  by_cases hroom : m.ipToKey.size < maxServers
  swap
  · exact hsame (Maps.note_full (Nat.le_antisymm m.ipToKey.size_le (Nat.not_lt.mp hroom)) a)
  refine h.grow hl (Maps.keyOf_unknown hl) (Maps.lookup_note hl hroom) (Maps.size_note hl hroom)
    (fun j => ?_) hb
  rw [if_neg (ne_slotKey_of_past hk j).symm, Maps.bump_servers, Maps.note_servers]

/-- A registration keeps it: a new host takes the slot the counter names. -/
theorem Counted.register (h : Counted m) {f : Bytes} (hk : m.keyOf (ipSaddr f) = slotKey k)
    (hw : m.serverCnt 0 ≠ 0xffff#16) :
    Counted ((m.note (ipSaddr f)).set k (newInfo f)).bump := by
  have hb : (((m.note (ipSaddr f)).set k (newInfo f)).bump.serverCnt 0).toNat =
      (m.serverCnt 0).toNat + 1 := by
    have hc : ((m.note (ipSaddr f)).set k (newInfo f)).serverCnt 0 = m.serverCnt 0 := by simp
    rw [bump_toNat (by rwa [hc]), hc]
  have hsrv := Maps.saddr_registered m k f
  cases hl : m.ipToKey.lookup (ipSaddr f) with
  | some key =>
      -- the slot holds the address already: it is empty, and the ping comes from `0.0.0.0`
      obtain rfl := (Maps.keyOf_known hl).symm.trans hk
      have hz : (m.servers k).saddr = ipSaddr f := (h.slot _ _ hl).2 k rfl
      refine h.congr ?_ (fun j => ?_) (by omega)
      · rw [Maps.bump_ipToKey, Maps.set_ipToKey, Maps.note_of_known (by simp [hl])]
      · rw [hsrv j]
        split
        · rename_i e
          rw [e, hz]
        · rfl
  | none =>
      have hkey := Maps.keyOf_unknown hl
      have hroom : m.ipToKey.size < maxServers := by
        have := h.room
        have := k.isLt
        rw [hk, slotKey_toNat] at hkey
        omega
      have hlook := Maps.lookup_note hl hroom
      rw [hk] at hkey hlook
      refine h.grow hl hkey hlook (Maps.size_note hl hroom) (fun j => ?_) hb
      rw [hsrv]
      simp only [slotKey_injective.eq_iff]

/-- Every move that does not wrap the counter keeps the invariant. -/
theorem Move.counted {i : Input} {o : Outcome} (h : Counted m) (hw : NoWrap m i)
    (hmv : Move i.tail m i.frame o) : Counted o.maps := by
  cases hmv.indexed with
  | refuse hp hk hn =>
      rw [hn]
      exact h.refuse hk (hw ⟨hp, .inl hk⟩)
  | register k hp hk h₀ hn =>
      rw [hn]
      exact h.register hk (hw ⟨hp, .inr ⟨k, hk, h₀⟩⟩)
  | complete k hk hr hi hs hc =>
      rw [Maps.note_of_known (by simp [(h.sender hk hr).1])] at hi
      exact h.congr hi hs (by rw [hc])
  | same hi hs hc => exact h.congr hi hs (by rw [hc])

end

theorem counted_after {is : List Input} (hw : lb.Along NoWrap Maps.empty is) :
    Counted (lb.after Maps.empty is) := by
  have h : CreditBound (lb.after Maps.empty is) ∧ Counted (lb.after Maps.empty is) :=
    hw.invariant (P := fun m => CreditBound m ∧ Counted m)
      (fun m i h hw => ⟨creditBound_step i h.1,
        (loadBalancer_move i.tail i.frame h.1).counted h.2 hw⟩)
      ⟨creditBound_empty, counted_empty⟩
  exact h.2

/-! ### Who is credited -/

/-- The step on the ping `i` from `m` credits the sender and nobody else. -/
structure CreditsSender (m : Maps) (i : Input) : Prop where
  /-- A host in no slot changes no registered slot and dispatches nothing. -/
  stranger : (∀ k : Slot, (m.servers k).saddr ≠ ipSaddr i.frame.bytes) →
    (∀ k : Slot, (m.servers k).saddr ≠ 0#32 → (lb.out m i).maps.servers k = m.servers k) ∧
      (lb.out m i).maps.queue = m.queue ∧ (lb.out m i).verdict ≠ .tx
  /-- The host in slot `k` is credited there, and then at most one job is dispatched. -/
  sender : ∀ k : Slot, (m.servers k).saddr = ipSaddr i.frame.bytes →
    (lb.out m i).trace = [.credit (slotKey k) (m.servers k)] ∧
        (lb.out m i).maps.servers = (m.credit k).servers ∧ (lb.out m i).verdict ≠ .tx ∨
      ∃ j : Slot, (lb.out m i).trace = [.credit (slotKey k) (m.servers k),
          .charge (slotKey j) ((m.credit k).servers j)] ∧
        (lb.out m i).maps.servers = ((m.credit k).charge j).servers ∧ (lb.out m i).verdict = .tx

/-- A ping's move credits its sender while the counter has not wrapped. -/
theorem Move.creditsSender {m : Maps} {i : Input} (h : Counted m) (hp : IsPing i.frame.bytes)
    (ha : ipSaddr i.frame.bytes ≠ 0#32) (hmv : Move i.tail m i.frame (lb.out m i)) :
    CreditsSender m i := by
  have hempty : ∀ k : Slot, (m.servers k).saddr = ipSaddr i.frame.bytes →
      (m.servers k).saddr ≠ 0#32 := fun k hk => hk ▸ ha
  generalize ho : lb.out m i = o at hmv
  constructor <;> rw [ho]
  · intro hs
    cases hmv with
    | other hp' => exact absurd hp hp'
    | refuse => exact ⟨fun k _ => by simp, by simp, by simp⟩
    | register k _ hk h₀ =>
        refine ⟨fun j hj => ?_, by simp, by simp⟩
        have : j ≠ k := fun e => hj (e ▸ h₀)
        simp [this]
    | done k _ hk hr | stuck k _ hk hr => exact absurd (h.sender hk hr).2 (hs k)
    | drain k _ _ _ _ _ hk hr => exact absurd (h.sender hk hr).2 (hs k)
    | send _ hj | wait hj => exact absurd hj hp.not_isJob
  · intro k hk
    have hkey := h.keyOf ha hk
    cases hmv with
    | other hp' => exact absurd hp hp'
    | refuse _ hk' => exact absurd hkey (ne_slotKey_of_past hk' k)
    | register j _ hj h₀ =>
        obtain rfl := slotKey_injective (hkey.symm.trans hj)
        exact absurd h₀ (hempty k hk)
    | done j _ hj =>
        obtain rfl := slotKey_injective (hkey.symm.trans hj)
        exact .inl ⟨rfl, m.note_credit_servers _ k, by simp⟩
    | stuck j _ hj =>
        obtain rfl := slotKey_injective (hkey.symm.trans hj)
        exact .inl ⟨rfl, m.note_credit_servers _ k, by simp⟩
    | drain j l v rest bs _ hj =>
        obtain rfl := slotKey_injective (hkey.symm.trans hj)
        refine .inr ⟨l, rfl, ?_, rfl⟩
        simp only [Maps.charge, Maps.set_servers, Maps.popped_servers, Maps.note_credit_servers]
    | send _ hj | wait hj => exact absurd hj hp.not_isJob

/-- **Completions are credited to their sender.**  In every run that never takes the counter past
its 16 bits, a ping from a nonzero address credits the slot that holds the address, if there is
one, and otherwise changes no registered slot and dispatches nothing. -/
theorem credits_sender {is : List Input} (hw : lb.Along NoWrap Maps.empty is) {i : Input}
    (hp : IsPing i.frame.bytes) (ha : ipSaddr i.frame.bytes ≠ 0#32) :
    CreditsSender (lb.after Maps.empty is) i :=
  Move.creditsSender (counted_after hw) hp ha (lb_move is i)

/-- Three hosts and a job to the first: its slot has four credits. -/
def threeHosts : List Input :=
  [growing (pingFrom 1#32), growing (pingFrom 2#32), growing (pingFrom 3#32), growing (jobOf 7#64)]

/-- The ping of a fourth host. -/
def fourth : Input := growing (pingFrom 4#32)

/-- The fourth host's first ping is refused. -/
theorem credits_sender_fourth : CreditsSender (lb.after Maps.empty threeHosts) fourth := by
  have hw : lb.Along NoWrap Maps.empty threeHosts := by
    simp only [threeHosts, Machine.Along]
    decide +kernel
  have ha : ipSaddr fourth.frame.bytes ≠ 0#32 := by
    rw [fourth, growing, ipSaddr_pingFrom]
    decide
  exact credits_sender hw (isPing_pingFrom _) ha

/-! ### After the wrap -/

/-- The maps with the counter at `c`. -/
def Maps.setCnt (m : Maps) (c : U16) : Maps := { m with serverCnt := fun _ => c }

theorem Maps.setCnt_self (m : Maps) : m.setCnt (m.serverCnt 0) = m := by
  have h : (fun _ => m.serverCnt 0) = m.serverCnt :=
    funext fun i => by rw [Subsingleton.elim i 0]
  rw [setCnt, h]

section
variable {m : Maps} {a : U32}

/-- With the index full and the counter past the last slot, a new host's ping moves the counter
and nothing else. -/
theorem step_refused (hm : CreditBound m) (hs : m.ipToKey.size = maxServers)
    (hl : m.ipToKey.lookup a = none) (hc : maxServers ≤ (m.serverCnt 0).toNat) :
    lb.step m (growing (pingFrom a)) = m.bump := by
  have hkey : maxServers ≤ (m.keyOf a).toNat := by rwa [Maps.keyOf_unknown hl]
  have hpast := ne_slotKey_of_past hkey
  have hmv := loadBalancer_move (growing (pingFrom a)).tail (pingFrom a) hm
  rw [lb_step]
  show (loadBalancer _ m (pingFrom a)).maps = m.bump
  generalize loadBalancer _ m (pingFrom a) = o at hmv
  cases hmv with
  | other hp => exact absurd (isPing_pingFrom a) hp
  | refuse => rw [ipSaddr_pingFrom, Maps.note_full hs]
  | register k _ hk | done k _ hk | drain k _ _ _ _ _ hk | stuck k _ hk =>
      exact absurd (ipSaddr_pingFrom a ▸ hk) (hpast k)
  | send _ hj | wait hj => exact absurd hj (isPing_pingFrom a).not_isJob

/-- `n` such pings move the counter by `n`. -/
theorem after_refused (hm : CreditBound m) (hs : m.ipToKey.size = maxServers)
    (hl : m.ipToKey.lookup a = none) (hc : maxServers ≤ (m.serverCnt 0).toNat) {n : Nat}
    (hn : (m.serverCnt 0).toNat + n ≤ 65536) :
    lb.after m (List.replicate n (growing (pingFrom a))) =
      m.setCnt (m.serverCnt 0 + BitVec.ofNat 16 n) := by
  induction n with
  | zero => simp [m.setCnt_self]
  | succ n ih =>
      have hcnt : (m.serverCnt 0 + BitVec.ofNat 16 n).toNat = (m.serverCnt 0).toNat + n := by
        rw [BitVec.toNat_add, BitVec.toNat_ofNat]
        omega
      have hstep := step_refused (m := m.setCnt (m.serverCnt 0 + BitVec.ofNat 16 n))
        (hm.of_servers rfl) hs hl (by rw [Maps.setCnt, hcnt]; omega)
      rw [List.replicate_succ', Machine.after_snoc, ih (by omega), hstep, BitVec.ofNat_add,
        ← BitVec.add_assoc]
      rfl

end

/-- Three hosts, and 65533 pings of a fourth. -/
def wrapRun : List Input := threeHosts ++ List.replicate 65533 fourth

/-- The fourth host, in no slot, adds a credit to the first one's. -/
theorem stranger_credited :
    IsPing fourth.frame.bytes ∧ ipSaddr fourth.frame.bytes ≠ 0#32 ∧
      (∀ k : Slot, ((lb.after Maps.empty wrapRun).servers k).saddr ≠ ipSaddr fourth.frame.bytes) ∧
      ¬ CreditsSender (lb.after Maps.empty wrapRun) fourth := by
  have hsrc : ipSaddr fourth.frame.bytes = 4#32 := ipSaddr_pingFrom _
  obtain ⟨hs, hl, hc, hr⟩ :
      (lb.after Maps.empty threeHosts).ipToKey.size = maxServers ∧
      (lb.after Maps.empty threeHosts).ipToKey.lookup 4#32 = none ∧
      (lb.after Maps.empty threeHosts).serverCnt 0 = 3#16 ∧
      ∀ k : Slot, ((lb.after Maps.empty threeHosts).servers k).saddr ≠ 4#32 := by
    decide +kernel
  have hcr : (lb.out ((lb.after Maps.empty threeHosts).setCnt 0#16) fourth).maps.servers 0 ≠
      ((lb.after Maps.empty threeHosts).setCnt 0#16).servers 0 := by decide +kernel
  have hr₀ : (((lb.after Maps.empty threeHosts).setCnt 0#16).servers 0).saddr ≠ 0#32 := by
    decide +kernel
  -- the counter stands at 3 after the three hosts, so 65533 refusals take it to 0
  have hwrap : lb.after Maps.empty wrapRun = (lb.after Maps.empty threeHosts).setCnt 0#16 := by
    have hpast : maxServers ≤ ((lb.after Maps.empty threeHosts).serverCnt 0).toNat := by
      rw [hc]
      decide
    have hends : ((lb.after Maps.empty threeHosts).serverCnt 0).toNat + 65533 ≤ 65536 := by
      rw [hc]
      decide
    rw [wrapRun, Machine.after_append, fourth,
      after_refused (creditBound_after threeHosts) hs hl hpast hends, hc]
    rfl
  rw [hwrap, hsrc]
  refine ⟨isPing_pingFrom _, by decide, hr, fun h => hcr ?_⟩
  exact (h.stranger (hsrc ▸ hr)).1 0 hr₀

end EbpfLb
