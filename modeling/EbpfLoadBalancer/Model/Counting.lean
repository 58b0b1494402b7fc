import EbpfLoadBalancer.Model.Client

/-!
# Model — Counting

The two ends of part A: its `client.py`, which sends the numbers from 1 to 499, and its `server.py`,
which prints what it receives.  `time.sleep`, the client's `print`, the result of `sendto` and the
text around what the server prints are left out.
-/

namespace EbpfLb

/-! ### `A2-A/client/client.py` -/

/-- What `for i in range(1, 500)` has left to yield. -/
structure Counter where
  left : List Nat
  deriving DecidableEq

def Counter.initial : Counter := ⟨List.range' 1 499⟩

/-- A round of the loop, with the payload given to `sendto`. -/
def Counter.round (c : Counter) : Option (Bytes × Counter) :=
  match c.left with
  | [] => none
  | i :: left => some (toBytes i, ⟨left⟩)

/-! ### `A2-A/server/server.py` -/

/-- What has been printed: a number and the address it came from. -/
structure Printer where
  printed : List (Nat × U32 × U16)
  deriving DecidableEq

/-- A round of the loop, in which `sock.recvfrom(8)` is handed the datagram `d`. -/
def Printer.round (p : Printer) (d : Datagram) : Printer :=
  ⟨p.printed ++ [(fromBytes (d.data.take 8), d.address)]⟩

end EbpfLb
