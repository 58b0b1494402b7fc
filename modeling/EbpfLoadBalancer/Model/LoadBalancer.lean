import EbpfLoadBalancer.Support.Maps
import EbpfLoadBalancer.Model.Checksum

/-!
# Model — LoadBalancer

`lb.c`: the four maps, the selection of a backend, the rewriting of a frame towards it, and the
program `load_balancer` itself, one atomic step per frame.

A pointer `bpf_map_lookup_elem` returns points into the map, so a store through it is already an
update, and the `bpf_map_update_elem` that follows writes the entry over itself; the two are one
update here.  `bpf_printk` writes to the trace pipe only and is left out.

`Point` marks the places of the program that a property of it may speak of: the increment and
the decrement of a credit, each with the slot's content before it, the registration branch, and
the three branches that would mean the maps contradict each other.
-/

namespace EbpfLb
open Bpf

abbrev maxServers : Nat := 3
def maxThreads : U16 := 5#16
/-- `queue`'s `max_entries`. -/
abbrev maxQueue : Nat := 100

/-! ### The maps -/

/-- `struct dest_info`. -/
structure DestInfo where
  saddr : U32
  daddr : U32
  dmac : Vector U8 6
  freeThreads : U16
  deriving DecidableEq

/-- The zero bytes an array map starts with. -/
def DestInfo.zero : DestInfo := ⟨0#32, 0#32, Vector.replicate 6 0#8, 0#16⟩

structure Maps where
  ipToKey : HashMap maxServers U32 U32
  servers : ArrayMap maxServers DestInfo
  serverCnt : ArrayMap 1 U16
  queue : QueueMap maxQueue U64
  deriving DecidableEq

/-- The maps as they are when the program is loaded. -/
def Maps.empty : Maps := ⟨.empty, fun _ => .zero, fun _ => 0#16, .empty⟩

/-! ### What an invocation reads and writes -/

/-- A place of the program. -/
inductive Point
  /-- `[REGISTERED]`. -/
  | registered
  /-- `info->free_threads++` at slot `key`, holding `info`. -/
  | credit (key : U32) (info : DestInfo)
  /-- `info->free_threads--` at slot `key`, holding `info`. -/
  | charge (key : U32) (info : DestInfo)
  /-- `selected_key == -1` in the completion branch. -/
  | unavailable
  /-- The `NULL` lookup in `get_available_backend`. -/
  | nullSelected
  /-- `Backend not found` in `send_to_backend`. -/
  | backendNotFound
  deriving DecidableEq

/-- The frame, the maps, and the places passed so far. -/
structure Ctx where
  frame : Bytes
  maps : Maps
  trace : List Point := []

/-- A finished invocation. -/
structure Outcome extends Ctx where
  verdict : XdpAction

def Ctx.ret (c : Ctx) (v : XdpAction) : Outcome := { c with verdict := v }
def Ctx.mark (c : Ctx) (p : Point) : Ctx := { c with trace := c.trace ++ [p] }
def Ctx.setServers (c : Ctx) (servers : ArrayMap maxServers DestInfo) : Ctx :=
  { c with maps := { c.maps with servers } }
def Ctx.setQueue (c : Ctx) (queue : QueueMap maxQueue U64) : Ctx :=
  { c with maps := { c.maps with queue } }

/-! ### Selection -/

/-- One of the three copies of the test in `get_available_backend`, at slot `i`; `sel` is
`selected_key` and `max_free_threads`. -/
def consider (servers : ArrayMap maxServers DestInfo) (i : U32) (sel : U32 × U16) : U32 × U16 :=
  match servers.lookup i with
  | none => sel
  | some info =>
    if info.saddr ≠ 0#32 then
      if info.freeThreads > sel.2 then (i, info.freeThreads) else sel
    else sel

def getAvailableBackend (servers : ArrayMap maxServers DestInfo) : U32 × List Point :=
  let sel : U32 × U16 := (-1#32, 0#16)
  let sel := consider servers 0#32 sel
  let sel := consider servers 1#32 sel
  let sel := consider servers 2#32 sel
  if sel.1 = -1#32 then (sel.1, [])
  else
    match servers.lookup sel.1 with
    -- the caller takes this return code for a key
    | none => (XdpAction.aborted.code, [.nullSelected])
    | some _ => (sel.1, [])

/-! ### The queue -/

def isQueueEmpty (m : Maps) : Bool := m.queue.peek.isNone

def enqueue (m : Maps) (value : U64) : QueueMap maxQueue U64 := m.queue.push value

def dequeue (m : Maps) : U64 × QueueMap maxQueue U64 := m.queue.pop 0#64

/-! ### Sending -/

/-- The rewriting of the headers in `send_to_backend`, towards `info`. -/
def rewrite (info : DestInfo) (f : Bytes) : Bytes :=
  let f := f.put 26 info.daddr                                     -- iph->saddr
  let f := f.put 30 info.saddr                                     -- iph->daddr
  let f := f.store 6 (ethDest f).toList                            -- eth->h_source
  let f := f.store 0 info.dmac.toList                              -- eth->h_dest
  let f := f.put 16 (bpfHtons (BitVec.ofNat 16 (f.length - 14)))   -- iph->tot_len
  let f := f.put 38 (bpfHtons (BitVec.ofNat 16 (f.length - 34)))   -- udph->len
  let f := f.put 24 0#16                                      -- iph->check
  let f := f.put 24 (ipChecksum (f.read 14 20).toList)
  let f := f.put 40 0#16                                      -- udph->check
  f.put 40 (udpChecksum f)

def sendToBackend (selectedKey : U32) (c : Ctx) : Outcome :=
  match c.maps.servers.lookup selectedKey with
  | none => (c.mark .backendNotFound).ret .aborted
  | some info =>
    let c := c.mark (.charge selectedKey info)
    let info := { info with freeThreads := info.freeThreads - 1#16 }
    let c := c.setServers (c.maps.servers.update selectedKey info)
    { c with frame := rewrite info c.frame, verdict := .tx }

/-! ### A one-byte ping -/

/-- `server_key` of a ping from `ipKey`, and the maps after the lookups; `none` is the return
for want of a counter. -/
def serverKey (m : Maps) (ipKey : U32) : Option (U32 × Maps) :=
  match m.ipToKey.lookup ipKey with
  | some key => some (key, m)
  | none =>
    -- an array map has its one entry from the start, so neither lookup fails
    let m := if (m.serverCnt.lookup 0#32).isNone then
        { m with serverCnt := m.serverCnt.update 0#32 0#16 } else m
    match m.serverCnt.lookup 0#32 with
    | none => none
    | some cnt =>
      let key : U32 := cnt.setWidth 32
      some (key, { m with ipToKey := m.ipToKey.update ipKey key })

/-- The registration branch. -/
def register (key : U32) (c : Ctx) : Outcome :=
  let c := c.mark .registered
  let newInfo : DestInfo := ⟨ipSaddr c.frame, ipDaddr c.frame, ethSource c.frame, maxThreads⟩
  -- a key past the last slot is refused, and the counter moves all the same
  let c := c.setServers (c.maps.servers.update key newInfo)
  match c.maps.serverCnt.lookup 0#32 with
  | none => c.ret .aborted
  | some cnt =>
    let serverCnt := c.maps.serverCnt.update 0#32 (cnt + 1#16)
    { c with maps := { c.maps with serverCnt }, verdict := .drop }

/-- The oldest job into the grown frame, and the frame to `selectedKey`. -/
def sendQueued (tail : Option (Vector U8 7)) (selectedKey : U32) (c : Ctx) : Outcome :=
  let c := { c with frame := bpfXdpAdjustTail tail c.frame }
  if c.frame.length < 14 then c.ret .aborted
  else if c.frame.length < 34 then c.ret .aborted
  else if c.frame.length < 42 then c.ret .aborted
  else
    -- the job is off the queue before the payload's bounds are checked
    let (value, queue) := dequeue c.maps
    let c := c.setQueue queue
    if c.frame.length < 50 then c.ret .aborted
    else sendToBackend selectedKey { c with frame := c.frame.put 42 value }

/-- The completion branch, at slot `key` holding `info`. -/
def complete (tail : Option (Vector U8 7)) (key : U32) (info : DestInfo) (c : Ctx) : Outcome :=
  let c := c.mark (.credit key info)
  let info := { info with freeThreads := info.freeThreads + 1#16 }
  let info :=
    if info.freeThreads > maxThreads then { info with freeThreads := maxThreads } else info
  let c := c.setServers (c.maps.servers.update key info)
  if isQueueEmpty c.maps then c.ret .drop
  else
    let (selectedKey, points) := getAvailableBackend c.maps.servers
    let c := { c with trace := c.trace ++ points }
    if selectedKey = -1#32 then (c.mark .unavailable).ret .aborted
    else sendQueued tail selectedKey c

/-- `payload_size == 1`. -/
def backendPing (tail : Option (Vector U8 7)) (c : Ctx) : Outcome :=
  match serverKey c.maps (ipSaddr c.frame) with
  | none => c.ret .aborted
  | some (key, maps) =>
    let c := { c with maps }
    match c.maps.servers.lookup key with
    | none => register key c
    | some info => if info.saddr = 0#32 then register key c else complete tail key info c

/-! ### An eight-byte job -/

/-- `payload_size == 8`. -/
def clientJob (c : Ctx) : Outcome :=
  let (selectedKey, points) := getAvailableBackend c.maps.servers
  let c := { c with trace := c.trace ++ points }
  if selectedKey = -1#32 then
    if c.frame.length < 50 then c.ret .aborted
    else (c.setQueue (enqueue c.maps (payload64 c.frame))).ret .aborted
  else sendToBackend selectedKey c

/-! ### The program -/

def loadBalancer (tail : Option (Vector U8 7)) (m : Maps) (ctx : Frame) : Outcome :=
  let f := ctx.bytes
  let c : Ctx := { frame := f, maps := m }
  if f.length < 14 then c.ret .aborted
  else if bpfNtohs (ethProto f) ≠ ethPIp then c.ret .pass
  else if f.length < 34 then c.ret .aborted
  else if ipProtocol f ≠ ipprotoUdp then c.ret .pass
  else if f.length < 42 then c.ret .aborted
  else if bpfNtohs (udpDest f) ≠ 8080#16 then c.ret .pass
  else if payloadSize f = 1#32 then backendPing tail c
  else if payloadSize f = 8#32 then clientJob c
  else c.ret .pass

end EbpfLb
