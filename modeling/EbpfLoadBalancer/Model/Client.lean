import EbpfLoadBalancer.Model.Server

/-!
# Model — Client

The payload the two `client.py` send, `n.to_bytes(8, byteorder='big')`, what the servers read back
from it, and the loops that send it.  `print`, `time.sleep` and the result of `sendto` are left out.
-/

namespace EbpfLb
open Bytes

/-- `n.to_bytes(8, byteorder='big')`; Python raises for `n` from `2^64` on. -/
def toBytes (n : Nat) : Bytes := (toLE 8 n).reverse

theorem fromBytes_concat (data : Bytes) (b : U8) :
    fromBytes (data ++ [b]) = 256 * fromBytes data + b.toNat := by
  simp [fromBytes]

/-- Big-endian is little-endian backwards. -/
theorem fromBytes_reverse (data : Bytes) : fromBytes data.reverse = ofLE data := by
  induction data with
  | nil => rfl
  | cons b data ih =>
      rw [List.reverse_cons, fromBytes_concat, ih, ofLE]
      omega

theorem fromBytes_toBytes {n : Nat} (h : n < 2 ^ 64) : fromBytes (toBytes n) = n := by
  have hp : (256 : Nat) ^ 8 = 2 ^ 64 := by norm_num
  rw [toBytes, fromBytes_reverse, ofLE_toLE, hp, Nat.mod_eq_of_lt h]

/-! ### `A2-B/client/client.py` -/

/-- What `random.randint(1, 5)` returns in the rounds of `for _ in range(40)`. -/
structure Draws where
  values : List Nat
  rounds : values.length = 40
  range : ∀ r ∈ values, 1 ≤ r ∧ r ≤ 5

/-- `total_sleep_time`, and what has been given to `sendto`. -/
structure Client where
  totalSleepTime : Nat
  sent : List Bytes

/-- A round of the loop, in which `random.randint(1, 5)` returns `r`. -/
def Client.round (c : Client) (r : Nat) : Client :=
  let sleepTime := r * 4
  { totalSleepTime := c.totalSleepTime + sleepTime
    sent := c.sent ++ [toBytes sleepTime] }

/-- The program. -/
def client (draws : Draws) : Client := draws.values.foldl Client.round ⟨0, []⟩

theorem client_eq (draws : Draws) :
    client draws = ⟨(draws.values.map (· * 4)).sum, draws.values.map fun r => toBytes (r * 4)⟩ := by
  have h : ∀ (rs : List Nat) (c : Client), rs.foldl Client.round c =
      ⟨c.totalSleepTime + (rs.map (· * 4)).sum, c.sent ++ rs.map fun r => toBytes (r * 4)⟩ := by
    intro rs
    induction rs with
    | nil => simp
    | cons r rs ih =>
        intro c
        rw [List.foldl_cons, ih]
        simp [Client.round, Nat.add_assoc]
  rw [client, h]
  simp

/-- The total is what the payloads decode to. -/
theorem client_total (draws : Draws) :
    ((client draws).sent.map fromBytes).sum = (client draws).totalSleepTime := by
  rw [client_eq, List.map_map]
  congr 1
  refine List.map_congr_left fun r hr => ?_
  have := draws.range r hr
  exact fromBytes_toBytes (by omega)

theorem client_length (draws : Draws) : (client draws).sent.length = 40 := by
  rw [client_eq, List.length_map, draws.rounds]

end EbpfLb
