import EbpfLoadBalancer.Support.Bytes

/-!
# Model — Packet

The frame an XDP program is given and the header fields `lb.c` and `xdp_dropper.c` read through
`struct ethhdr`, `struct iphdr` and `struct udphdr`.  The programs place the three structs at
fixed offsets, `0`, `14` and `34`, with the payload at `42`; a field is a load at the offset of
its struct plus its own.  Loads are little-endian, as on the target, so a field in network order
is read byte-swapped and `bpfNtohs` swaps it back.

`OwnDatagram` is what a datagram to port 8080 is by the fields of its headers, those neither program
reads among them.
-/

namespace EbpfLb

/-- A frame: `ctx->data` and `ctx->data_end` are `__u32`, so its length is below `2^32`. -/
structure Frame where
  bytes : Bytes
  fits : bytes.length < 2 ^ 32
  deriving DecidableEq

/-- The verdicts of an XDP program. -/
inductive XdpAction
  | aborted | drop | pass | tx
  deriving DecidableEq, Repr

/-- `enum xdp_action`. -/
def XdpAction.code : XdpAction → U32
  | .aborted => 0#32
  | .drop => 1#32
  | .pass => 2#32
  | .tx => 3#32

/-! ### `struct ethhdr`, at `0` -/

def ethDest (f : Bytes) : Vector U8 6 := f.read 0 6
def ethSource (f : Bytes) : Vector U8 6 := f.read 6 6
def ethProto (f : Bytes) : U16 := f.load 16 12

/-! ### `struct iphdr`, at `14` -/

def ipTotLen (f : Bytes) : U16 := f.load 16 16
def ipProtocol (f : Bytes) : U8 := f.load 8 23
def ipSaddr (f : Bytes) : U32 := f.load 32 26
def ipDaddr (f : Bytes) : U32 := f.load 32 30

/-! ### `struct udphdr`, at `34` -/

def udpDest (f : Bytes) : U16 := f.load 16 36
def udpLen (f : Bytes) : U16 := f.load 16 38

/-- The 8 bytes of the payload, at `42`. -/
def payload64 (f : Bytes) : U64 := f.load 64 42

/-- `payload_size`: `data_end - payload`, in a `__u32`. -/
def payloadSize (f : Bytes) : U32 := BitVec.ofNat 32 (f.length - 42)

/-! ### Constants and byte order -/

def ethPIp : U16 := 0x0800#16
def ipprotoUdp : U8 := 17#8

/-- `__builtin_bswap16`. -/
def bswap16 (x : U16) : U16 := x <<< 8 ||| x >>> 8

def bpfNtohs (x : U16) : U16 := bswap16 x
def bpfHtons (x : U16) : U16 := bswap16 x

/-! ### The fields neither program reads -/

def ipVersion (f : Bytes) : Nat := (f.byte 14).toNat / 16
/-- The header length, in 32-bit words. -/
def ipIhl (f : Bytes) : Nat := (f.byte 14).toNat % 16
/-- The flags and the fragment offset. -/
def ipFragOff (f : Bytes) : U16 := bpfNtohs (f.load 16 20)
/-- Where the UDP header is by the header length. -/
def udpOffset (f : Bytes) : Nat := 14 + 4 * ipIhl f

/-! ### A datagram to port 8080 -/

/-- An IPv4 packet, no fragment, that carries UDP to port 8080. -/
structure OwnTraffic (f : Bytes) : Prop where
  proto : bpfNtohs (ethProto f) = ethPIp
  version : ipVersion f = 4
  ihl : 5 ≤ ipIhl f
  /-- MF is clear and the offset is zero. -/
  whole : ipFragOff f &&& 0x3fff#16 = 0#16
  udp : ipProtocol f = ipprotoUdp
  port : bpfNtohs (f.load 16 (udpOffset f + 2)) = 8080#16

/-- And it is complete, with `n` bytes of payload. -/
structure OwnDatagram (f : Bytes) (n : Nat) : Prop extends OwnTraffic f where
  udpLength : (bpfNtohs (f.load 16 (udpOffset f + 4))).toNat = 8 + n
  totLength : (bpfNtohs (ipTotLen f)).toNat = 4 * ipIhl f + 8 + n
  complete : udpOffset f + 8 + n ≤ f.length

/-! ### Growing -/

/-- `bpf_xdp_adjust_tail(ctx, 7)`: on success the frame grows by 7 bytes of any content, on an
error (`none`) it stays as it was. -/
def bpfXdpAdjustTail (tail : Option (Vector U8 7)) (f : Bytes) : Bytes :=
  match tail with
  | some bs => f ++ bs.toList
  | none => f

end EbpfLb
