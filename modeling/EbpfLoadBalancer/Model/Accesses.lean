import EbpfLoadBalancer.Model.Dropper
import EbpfLoadBalancer.Model.LoadBalancer
import EbpfLoadBalancer.Support.Checked

/-!
# Model — Accesses

`lb.c` and `xdp_dropper.c` once more, with every access to the packet made one by one and checked:
a load or a store with a byte at or past `data_end` fails, and the program with it.  The pointers
`eth`, `iph`, `udph` and `payload` are the offsets `0`, `14`, `34` and `42`; the loops of the two
checksums advance theirs.  What does not touch the packet is as in the model without checks.
-/

namespace EbpfLb
open Bytes Bpf

/-! ### The checksums -/

/-- The `while` loop of `ip_checksum` and the odd byte after it, with `bufsz` bytes left at `buf`.
-/
def ipSum? (f : Bytes) : (buf bufsz : Nat) → U64 → Option U64
  | buf, n + 2, sum => do
    let w ← f.load? 16 buf
    ipSum? f (buf + 2) n (sum + w.setWidth 64)
  | buf, 1, sum => do
    let b ← f.load? 8 buf
    return sum + b.setWidth 64
  | _, 0, sum => some sum

def ipChecksum? (f : Bytes) (buf bufsz : Nat) : Option U16 := do
  let sum ← ipSum? f buf bufsz 0#64
  return (~~~ foldCarry (foldCarry sum)).setWidth 16

/-- The `for` loop of `udp_checksum`, `n` rounds of it; what it returns last is `buf`. -/
def udpSum? (f : Bytes) : (n : Nat) → U16 → (buf : Nat) → Option (U16 × Nat)
  | 0, csum, buf => some (csum, buf)
  | n + 1, csum, buf =>
    if buf + 2 > f.length then some (csum, buf)
    else do
      let w ← f.load? 16 buf
      udpSum? f n (csum + w) (buf + 2)

def udpChecksum? (f : Bytes) : Option U16 := do
  let csum : U16 := 0#16
  let csum := csum + (← f.load? 32 26).setWidth 16
  let csum := csum + ((← f.load? 32 26) >>> 16).setWidth 16
  let csum := csum + (← f.load? 32 30).setWidth 16
  let csum := csum + ((← f.load? 32 30) >>> 16).setWidth 16
  let csum := csum + (← f.load? 8 23).setWidth 16 <<< 8
  let csum := csum + (← f.load? 16 38)
  let (csum, buf) ← udpSum? f (maxUdpLength / 2) csum 34
  let csum ← if buf + 1 ≤ f.length then do
      let b ← f.load? 8 buf
      pure (csum + b.setWidth 16)
    else pure csum
  return ~~~ csum

/-! ### Sending -/

def rewrite? (info : DestInfo) (f : Bytes) : Option Bytes := do
  let f ← f.put? 26 info.daddr                                     -- iph->saddr
  let f ← f.put? 30 info.saddr                                     -- iph->daddr
  let dest ← f.read? 0 6
  let f ← f.store? 6 dest.toList                                   -- eth->h_source
  let f ← f.store? 0 info.dmac.toList                              -- eth->h_dest
  let f ← f.put? 16 (bpfHtons (BitVec.ofNat 16 (f.length - 14)))   -- iph->tot_len
  let f ← f.put? 38 (bpfHtons (BitVec.ofNat 16 (f.length - 34)))   -- udph->len
  let f ← f.put? 24 0#16                                      -- iph->check
  let f ← f.put? 24 (← ipChecksum? f 14 20)
  let f ← f.put? 40 0#16                                      -- udph->check
  f.put? 40 (← udpChecksum? f)

def sendToBackend? (selectedKey : U32) (c : Ctx) : Option Outcome :=
  match c.maps.servers.lookup selectedKey with
  | none => some ((c.mark .backendNotFound).ret .aborted)
  | some info => do
    let c := c.mark (.charge selectedKey info)
    let info := { info with freeThreads := info.freeThreads - 1#16 }
    let c := c.setServers (c.maps.servers.update selectedKey info)
    let frame ← rewrite? info c.frame
    return { c with frame, verdict := .tx }

/-! ### A one-byte ping -/

def register? (key : U32) (c : Ctx) : Option Outcome := do
  let c := c.mark .registered
  let newInfo : DestInfo :=
    ⟨← c.frame.load? 32 26, ← c.frame.load? 32 30, ← c.frame.read? 6 6, maxThreads⟩
  let c := c.setServers (c.maps.servers.update key newInfo)
  match c.maps.serverCnt.lookup 0#32 with
  | none => return c.ret .aborted
  | some cnt =>
    let serverCnt := c.maps.serverCnt.update 0#32 (cnt + 1#16)
    return { c with maps := { c.maps with serverCnt }, verdict := .drop }

def sendQueued? (tail : Option (Vector U8 7)) (selectedKey : U32) (c : Ctx) : Option Outcome :=
  let c := { c with frame := bpfXdpAdjustTail tail c.frame }
  if c.frame.length < 14 then some (c.ret .aborted)
  else if c.frame.length < 34 then some (c.ret .aborted)
  else if c.frame.length < 42 then some (c.ret .aborted)
  else
    let (value, queue) := dequeue c.maps
    let c := c.setQueue queue
    if c.frame.length < 50 then some (c.ret .aborted)
    else do
      let frame ← c.frame.put? 42 value
      sendToBackend? selectedKey { c with frame }

def complete? (tail : Option (Vector U8 7)) (key : U32) (info : DestInfo) (c : Ctx) :
    Option Outcome :=
  let c := c.mark (.credit key info)
  let info := { info with freeThreads := info.freeThreads + 1#16 }
  let info :=
    if info.freeThreads > maxThreads then { info with freeThreads := maxThreads } else info
  let c := c.setServers (c.maps.servers.update key info)
  if isQueueEmpty c.maps then some (c.ret .drop)
  else
    let (selectedKey, points) := getAvailableBackend c.maps.servers
    let c := { c with trace := c.trace ++ points }
    if selectedKey = -1#32 then some ((c.mark .unavailable).ret .aborted)
    else sendQueued? tail selectedKey c

def backendPing? (tail : Option (Vector U8 7)) (c : Ctx) : Option Outcome := do
  match serverKey c.maps (← c.frame.load? 32 26) with
  | none => return c.ret .aborted
  | some (key, maps) =>
    let c := { c with maps }
    match c.maps.servers.lookup key with
    | none => register? key c
    | some info => if info.saddr = 0#32 then register? key c else complete? tail key info c

/-! ### An eight-byte job -/

def clientJob? (c : Ctx) : Option Outcome :=
  let (selectedKey, points) := getAvailableBackend c.maps.servers
  let c := { c with trace := c.trace ++ points }
  if selectedKey = -1#32 then
    if c.frame.length < 50 then some (c.ret .aborted)
    else do
      let value ← c.frame.load? 64 42
      return (c.setQueue (enqueue c.maps value)).ret .aborted
  else sendToBackend? selectedKey c

/-! ### The programs -/

def loadBalancer? (tail : Option (Vector U8 7)) (m : Maps) (ctx : Frame) : Option Outcome := do
  let f := ctx.bytes
  let c : Ctx := { frame := f, maps := m }
  if f.length < 14 then return c.ret .aborted
  if bpfNtohs (← f.load? 16 12) ≠ ethPIp then return c.ret .pass
  if f.length < 34 then return c.ret .aborted
  if (← f.load? 8 23) ≠ ipprotoUdp then return c.ret .pass
  if f.length < 42 then return c.ret .aborted
  if bpfNtohs (← f.load? 16 36) ≠ 8080#16 then return c.ret .pass
  if payloadSize f = 1#32 then backendPing? tail c
  else if payloadSize f = 8#32 then clientJob? c
  else return c.ret .pass

def udpDropper? (ctx : Frame) : Option XdpAction := do
  let f := ctx.bytes
  if f.length < 14 then return .aborted
  if bpfNtohs (← f.load? 16 12) ≠ ethPIp then return .pass
  if f.length < 34 then return .aborted
  if (← f.load? 8 23) ≠ ipprotoUdp then return .pass
  if f.length < 42 then return .aborted
  if bpfNtohs (← f.load? 16 36) ≠ 8080#16 then return .pass
  if f.length < 50 then return .aborted
  let value := bswap64 (← f.load? 64 42)
  if value % 2#64 = 1#64 then return .pass
  return .drop

end EbpfLb
