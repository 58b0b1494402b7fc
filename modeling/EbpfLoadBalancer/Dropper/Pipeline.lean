import EbpfLoadBalancer.Dropper.Parity
import EbpfLoadBalancer.Model.Counting
import EbpfLoadBalancer.Support.Machine
import Mathlib.Algebra.Order.Group.Multiset
import Mathlib.Data.Multiset.Filter

/-!
# Dropper — from the client to the server

Part A as a whole: the client counts, each number travels in a datagram of its own, the filter runs
on what reaches the server's host, and the server prints what passes.  The network holds a datagram
for as long as it likes, lets datagrams overtake each other and may lose some.  Whatever it does, of
the odd numbers each is printed, or lost, or still on its way, and nothing else is printed
(`odd_numbers_printed`).
-/

namespace EbpfLb
open Bytes

/-- A datagram as the client's stack builds it, with 8 bytes of payload behind a header without
options. -/
structure ClientFrame where
  frame : Frame
  datagram : OwnDatagram frame.bytes 8
  plain : ipIhl frame.bytes = 5
  deriving DecidableEq

namespace ClientFrame

def payload (f : ClientFrame) : Bytes := udpPayload f.frame.bytes 8

/-- The number in it. -/
def number (f : ClientFrame) : Nat := fromBytes f.payload

/-- What the server's socket hands over: the payload, by the length field, and the sender. -/
def received (f : ClientFrame) : Datagram :=
  ⟨udpPayload f.frame.bytes
      ((bpfNtohs (f.frame.bytes.load 16 (udpOffset f.frame.bytes + 4))).toNat - 8),
    ipSaddr f.frame.bytes, bpfNtohs (f.frame.bytes.load 16 (udpOffset f.frame.bytes))⟩

variable (f : ClientFrame)

@[simp] theorem length_payload : f.payload.length = 8 := by simp [payload, udpPayload]

theorem received_data : f.received.data = f.payload := by
  rw [received, f.datagram.udpLength, payload]

end ClientFrame

/-- Eight bytes are the encoding of what they decode to. -/
theorem toBytes_fromBytes {data : Bytes} (h : data.length = 8) :
    fromBytes data < 2 ^ 64 ∧ toBytes (fromBytes data) = data := by
  have hrev : fromBytes data = ofLE data.reverse := by
    rw [← fromBytes_reverse, List.reverse_reverse]
  have hl : data.reverse.length = 8 := by rw [List.length_reverse, h]
  constructor
  · rw [hrev]
    refine Nat.lt_of_lt_of_eq (ofLE_lt _) ?_
    rw [hl]
    norm_num
  · have hback := toLE_ofLE data.reverse
    rw [hl] at hback
    rw [toBytes, hrev, hback, List.reverse_reverse]

/-- The filter decides by the number. -/
theorem ClientFrame.filtered (f : ClientFrame) :
    udpDropper f.frame = if f.number % 2 = 1 then .pass else .drop := by
  obtain ⟨hlt, hback⟩ := toBytes_fromBytes f.length_payload
  exact udpDropper_job ⟨hlt, f.datagram, hback.symm⟩ f.plain

/-! ### The system -/

structure Pipeline where
  client : Counter
  /-- In flight to the server's host. -/
  net : Multiset ClientFrame
  /-- Past the filter, at the server's socket. -/
  socket : Multiset ClientFrame
  server : Printer

inductive PipelineEvent
  /-- The client's next number is sent, in the frame `f`. -/
  | send (f : ClientFrame)
  /-- The network loses `f`. -/
  | lose (f : ClientFrame)
  /-- `f` reaches the server's host. -/
  | arrive (f : ClientFrame)
  /-- The server receives `f`. -/
  | recv (f : ClientFrame)

namespace Pipeline

def initial : Pipeline := ⟨.initial, 0, 0, ⟨[]⟩⟩

def step (s : Pipeline) : PipelineEvent → Pipeline
  | .send f =>
    match s.client.round with
    | none => s
    | some (payload, client) =>
      if f.payload = payload then { s with client, net := f ::ₘ s.net } else s
  | .lose f => { s with net := s.net.erase f }
  | .arrive f =>
    if f ∈ s.net then
      -- any verdict but `XDP_PASS` ends the frame
      if udpDropper f.frame = .pass then
        { s with net := s.net.erase f, socket := f ::ₘ s.socket }
      else { s with net := s.net.erase f }
    else s
  | .recv f =>
    if f ∈ s.socket then
      { s with socket := s.socket.erase f, server := s.server.round f.received }
    else s

/-- The number the network loses in the step. -/
def loses (s : Pipeline) : PipelineEvent → List Nat
  | .lose f => if f ∈ s.net then [f.number] else []
  | _ => []

end Pipeline

/-- Part A, one event after the other. -/
def pipeline : Machine Pipeline PipelineEvent Pipeline where
  out := Pipeline.step
  next := id

/-- The numbers lost in a run. -/
def lostNumbers (es : List PipelineEvent) : List Nat :=
  pipeline.collect Pipeline.loses .initial es

/-! ### Where the odd numbers are -/

/-- The odd ones among the numbers. -/
def odd (ns : Multiset Nat) : Multiset Nat := ns.filter fun n => n % 2 = 1

@[simp] theorem odd_add (ns ms : Multiset Nat) : odd (ns + ms) = odd ns + odd ms :=
  Multiset.filter_add _ ns ms

theorem odd_singleton (n : Nat) : odd {n} = if n % 2 = 1 then {n} else 0 :=
  Multiset.filter_singleton _

namespace Pipeline

/-- The numbers printed so far. -/
def printed (s : Pipeline) : List Nat := s.server.printed.map Prod.fst

/-- The odd numbers printed, or lost, or on their way, when `lost` have been lost. -/
def accounted (s : Pipeline) (lost : List Nat) : Multiset Nat :=
  s.printed + s.socket.map ClientFrame.number +
    odd (s.net.map ClientFrame.number + lost + s.client.left)

/-- None of them is missing, and what the client has left fits its payload. -/
structure Counts (lost : List Nat) (s : Pipeline) : Prop where
  fits : ∀ n ∈ s.client.left, n < 500
  balance : s.accounted lost = odd Counter.initial.left

theorem counts_initial : initial.Counts [] where
  fits := by simp [initial, Counter.initial]
  balance := by simp [accounted, initial, printed]

variable {s : Pipeline} {lost : List Nat} {f : ClientFrame}

/-- The numbers of some frames, with one frame taken out. -/
theorem numbers_of_mem {fs : Multiset ClientFrame} (hf : f ∈ fs) :
    fs.map ClientFrame.number = {f.number} + (fs.erase f).map ClientFrame.number := by
  rw [Multiset.singleton_add, ← Multiset.map_cons, Multiset.cons_erase hf]

/-- The next number leaves the client. -/
theorem Counts.send (h : s.Counts lost) {i : Nat} {left : List Nat} (hl : s.client.left = i :: left)
    (hf : f.payload = toBytes i) :
    Counts lost { s with client := ⟨left⟩, net := f ::ₘ s.net } where
  fits n hn := h.fits n (by simp [hl, hn])
  balance := by
    have hi : i < 500 := h.fits i (by simp [hl])
    have hn : f.number = i := by rw [ClientFrame.number, hf, fromBytes_toBytes (by omega)]
    rw [← h.balance]
    simp only [accounted, printed, hl, ← Multiset.cons_coe, ← Multiset.singleton_add,
      Multiset.map_add, Multiset.map_singleton, hn, odd_add]
    ac_rfl

/-- A frame is lost. -/
theorem Counts.lose (h : s.Counts lost) (hf : f ∈ s.net) :
    Counts (lost ++ [f.number]) { s with net := s.net.erase f } where
  fits := h.fits
  balance := by
    rw [← h.balance]
    simp only [accounted, printed, numbers_of_mem hf, ← Multiset.coe_add, Multiset.coe_singleton,
      odd_add]
    ac_rfl

/-- A frame with an odd number passes the filter. -/
theorem Counts.pass (h : s.Counts lost) (hf : f ∈ s.net) (hodd : f.number % 2 = 1) :
    Counts lost { s with net := s.net.erase f, socket := f ::ₘ s.socket } where
  fits := h.fits
  balance := by
    rw [← h.balance]
    simp only [accounted, printed, numbers_of_mem hf, ← Multiset.singleton_add, Multiset.map_add,
      Multiset.map_singleton, odd_add, odd_singleton, if_pos hodd]
    ac_rfl

/-- One with an even number does not. -/
theorem Counts.drop (h : s.Counts lost) (hf : f ∈ s.net) (heven : ¬ f.number % 2 = 1) :
    Counts lost { s with net := s.net.erase f } where
  fits := h.fits
  balance := by
    rw [← h.balance]
    simp only [accounted, printed, numbers_of_mem hf, odd_add, odd_singleton, if_neg heven,
      zero_add]

/-- What the server receives it prints. -/
theorem Counts.recv (h : s.Counts lost) (hf : f ∈ s.socket) :
    Counts lost { s with socket := s.socket.erase f, server := s.server.round f.received } where
  fits := h.fits
  balance := by
    have hn : fromBytes (f.received.data.take 8) = f.number := by
      rw [f.received_data, List.take_of_length_le (by rw [f.length_payload]), ClientFrame.number]
    rw [← h.balance]
    simp only [accounted, printed, Printer.round, numbers_of_mem hf, List.map_append,
      List.map_cons, List.map_nil, hn, ← Multiset.coe_add, Multiset.coe_singleton]
    ac_rfl

/-- **Every step keeps the account.** -/
theorem Counts.step (h : s.Counts lost) (e : PipelineEvent) :
    (s.step e).Counts (lost ++ s.loses e) := by
  cases e with
  | send f =>
      simp only [loses, List.append_nil, Pipeline.step]
      cases hl : s.client.left with
      | nil =>
          rw [Counter.round, hl]
          exact h
      | cons i left =>
          rw [Counter.round, hl]
          simp only
          split
          · exact h.send hl ‹_›
          · exact h
  | lose f =>
      rw [loses, Pipeline.step]
      split
      · exact h.lose ‹_›
      · rw [Multiset.erase_of_notMem ‹_›, List.append_nil]
        exact h
  | arrive f =>
      simp only [loses, List.append_nil, Pipeline.step, f.filtered]
      split
      · by_cases hodd : f.number % 2 = 1
        · rw [if_pos hodd, if_pos rfl]
          exact h.pass ‹_› hodd
        · rw [if_neg hodd, if_neg (by simp)]
          exact h.drop ‹_› hodd
      · exact h
  | recv f =>
      simp only [loses, List.append_nil, Pipeline.step]
      split
      · exact h.recv ‹_›
      · exact h

end Pipeline

theorem counts_after (es : List PipelineEvent) :
    (pipeline.after .initial es).Counts (lostNumbers es) :=
  pipeline.after_induction (P := fun es s => s.Counts (lostNumbers es)) Pipeline.counts_initial
    (fun es e h => by
      rw [lostNumbers, Machine.collect_snoc]
      exact h.step e) es

/-- **The odd numbers are printed, and no others.**  In every run of part A, in whatever order the
datagrams reach the filter and the server: the numbers printed, the numbers at the server's socket,
and the odd ones among those in flight, lost and not sent yet are the odd numbers from 1 to 499,
each once.  So nothing even is printed, and nothing twice. -/
theorem odd_numbers_printed (es : List PipelineEvent) :
    (pipeline.after .initial es).accounted (lostNumbers es) = odd Counter.initial.left ∧
      (pipeline.after .initial es).printed.Nodup ∧
      ∀ n ∈ (pipeline.after .initial es).printed, n % 2 = 1 ∧ 1 ≤ n ∧ n < 500 := by
  have hb := (counts_after es).balance
  have hle : ((pipeline.after .initial es).printed : Multiset Nat) ≤ odd Counter.initial.left := by
    rw [← hb, Pipeline.accounted, add_assoc]
    exact Multiset.le_add_right _ _
  refine ⟨hb, ?_, fun n hn => ?_⟩
  · have hnodup : (odd Counter.initial.left).Nodup :=
      Multiset.Nodup.filter _ (Multiset.coe_nodup.mpr List.nodup_range')
    exact Multiset.coe_nodup.mp (Multiset.nodup_of_le hle hnodup)
  · have hmem := Multiset.mem_of_le hle (Multiset.mem_coe.mpr hn)
    obtain ⟨hmem, hodd⟩ := Multiset.mem_filter.mp hmem
    have hrange := List.mem_range'_1.mp (Multiset.mem_coe.mp hmem)
    exact ⟨hodd, by omega, by omega⟩

/-- The number `1`, behind a header of 20 bytes. -/
def firstFrame : ClientFrame where
  frame :=
    { bytes := loopbackHeader 0x45#8 36#8 [0x40#8, 0#8] ++
        [0x1f#8, 0x90#8, 0x1f#8, 0x90#8, 0#8, 16#8, 0#8, 0#8] ++ toBytes 1
      fits := by decide }
  datagram := by
    refine ⟨⟨?_, ?_, ?_, ?_, ?_, ?_⟩, ?_, ?_, ?_⟩ <;> decide +kernel
  plain := by decide +kernel

example : (pipeline.after .initial
    [.send firstFrame, .arrive firstFrame, .recv firstFrame]).printed = [1] := by
  decide +kernel

end EbpfLb
