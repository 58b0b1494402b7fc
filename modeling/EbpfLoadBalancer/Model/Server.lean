import EbpfLoadBalancer.Support.Bytes

/-!
# Model — Server

`server.py`: the main loop and the worker threads, one step at a time.  A step is what happens
between two points where another thread may run: a block under `with lock`, a call that blocks,
a read of the module variables.  `recvfrom` rebinds `data` and `address`, which are variables of
the module; a thread that was started reads them only when it evaluates its lambda.

`main` and `work i` step the main thread and the worker `i`; they return the byte sent to the
balancer, if the step sends one, and `none` when the thread cannot step.  `print` is left out.
Whether `time.sleep` raises for a duration is the parameter `raises`.
-/

namespace EbpfLb

/-- What `recvfrom` returns. -/
structure Datagram where
  data : Bytes
  address : U32 × U16
  deriving DecidableEq

/-- Where the main thread is. -/
inductive MainPc
  /-- Before `sock.sendto('S'.encode(), ...)`. -/
  | boot
  /-- In `sock.recvfrom(8)`. -/
  | recvfrom
  /-- Before `if n_threads >= 5`. -/
  | check
  /-- Before `if data`. -/
  | spawn
  deriving DecidableEq

/-- Where a worker is, and the arguments of its `handle_client`. -/
inductive Worker
  /-- Started; the lambda is not evaluated yet. -/
  | started
  /-- Before `n_threads += 1`. -/
  | called (d : Datagram)
  /-- In `time.sleep(sleep_time)`. -/
  | sleeping (d : Datagram)
  /-- Before `total_sleep_time += sleep_time`. -/
  | slept (d : Datagram)
  /-- Before `n_threads -= 1`. -/
  | summed (d : Datagram)
  /-- Before `sock.sendto('D'.encode(), ...)`. -/
  | released (d : Datagram)
  /-- `handle_client` has returned. -/
  | ended (d : Datagram)
  /-- An exception has ended the thread. -/
  | failed (d : Datagram)
  deriving DecidableEq

/-- The module variables and the threads; `datagram` is `data, address`. -/
structure Server where
  pc : MainPc
  datagram : Datagram
  nThreads : Int
  totalSleepTime : Nat
  workers : List Worker
  deriving DecidableEq

/-- A process that has just started. -/
def Server.fresh : Server := ⟨.boot, ⟨[], 0#32, 0#16⟩, 0, 0, []⟩

/-- `int.from_bytes(data, byteorder='big')`. -/
def fromBytes (data : Bytes) : Nat := data.foldl (fun n b => 256 * n + b.toNat) 0

/-- `'S'.encode()` and `'D'.encode()`. -/
def byteS : U8 := 0x53#8
def byteD : U8 := 0x44#8

namespace Server

def setWorker (s : Server) (i : Nat) (w : Worker) : Server :=
  { s with workers := s.workers.set i w }

/-- `data, address = sock.recvfrom(8)`. -/
def recvfrom (s : Server) (d : Datagram) : Option Server :=
  if s.pc = .recvfrom then
    some { s with pc := .check, datagram := ⟨d.data.take 8, d.address⟩ }
  else none

/-- A step of the main thread outside `recvfrom`. -/
def main (s : Server) : Option (Server × Option U8) :=
  match s.pc with
  | .boot => some ({ s with pc := .recvfrom }, some byteS)
  | .recvfrom => none
  | .check =>
    -- `continue`: the job just received is dropped
    if s.nThreads ≥ 5 then some ({ s with pc := .recvfrom }, none)
    else some ({ s with pc := .spawn }, none)
  | .spawn =>
    if s.datagram.data ≠ [] then
      some ({ s with pc := .recvfrom, workers := s.workers ++ [.started] }, none)
    else some ({ s with pc := .recvfrom }, none)

/-- A step of the worker `i`. -/
def work (raises : Nat → Bool) (s : Server) (i : Nat) : Option (Server × Option U8) :=
  match s.workers[i]? with
  | none => none
  -- the lambda reads `data, address` as they are now, not as they were at the start
  | some .started => some (s.setWorker i (.called s.datagram), none)
  | some (.called d) =>
    some ({ s.setWorker i (.sleeping d) with nThreads := s.nThreads + 1 }, none)
  | some (.sleeping d) =>
    if raises (fromBytes d.data) then some (s.setWorker i (.failed d), none)
    else some (s.setWorker i (.slept d), none)
  | some (.slept d) =>
    some ({ s.setWorker i (.summed d) with
      totalSleepTime := s.totalSleepTime + fromBytes d.data }, none)
  | some (.summed d) =>
    some ({ s.setWorker i (.released d) with nThreads := s.nThreads - 1 }, none)
  | some (.released d) => some (s.setWorker i (.ended d), some byteD)
  | some (.ended _) | some (.failed _) => none

end Server

end EbpfLb
