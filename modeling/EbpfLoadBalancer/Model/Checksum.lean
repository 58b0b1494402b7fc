import EbpfLoadBalancer.Model.Packet

/-!
# Model — Checksum

`ip_checksum` and `udp_checksum` of `lb.c`.  The first sums 16-bit words in an `unsigned long`
and folds the carries twice; the second sums in a `__u16`, over at most `MAX_UDP_LENGTH` bytes
of the datagram, and adds an odd last byte on its own.
-/

namespace EbpfLb

def maxUdpLength : Nat := 1480

/-- The `unsigned short` whose two bytes in memory are `lo` and `hi`. -/
def word (lo hi : U8) : U16 := hi ++ lo

/-- The `while` loop of `ip_checksum` and the odd byte after it. -/
def ipSum : U64 → Bytes → U64
  | sum, lo :: hi :: buf => ipSum (sum + (word lo hi).setWidth 64) buf
  | sum, [b] => sum + b.setWidth 64
  | sum, [] => sum

/-- `sum = (sum & 0xffff) + (sum >> 16)`. -/
def foldCarry (sum : U64) : U64 := (sum &&& 0xffff#64) + (sum >>> 16)

/-- `ip_checksum(buf, bufsz)`, at the `bufsz` bytes at `buf`. -/
def ipChecksum (buf : Bytes) : U16 := (~~~ foldCarry (foldCarry (ipSum 0#64 buf))).setWidth 16

/-- The `for` loop of `udp_checksum`, `n` rounds of it: it stops early when fewer than two bytes
are left, and returns what it did not read. -/
def udpSum : Nat → U16 → Bytes → U16 × Bytes
  | n + 1, csum, lo :: hi :: buf => udpSum n (csum + word lo hi) buf
  | _, csum, buf => (csum, buf)

/-- `udp_checksum(iph, udph, data_end)`, at the frame that holds the three pointers. -/
def udpChecksum (f : Bytes) : U16 :=
  let csum : U16 := 0#16
  let csum := csum + (ipSaddr f).setWidth 16
  let csum := csum + (ipSaddr f >>> 16).setWidth 16
  let csum := csum + (ipDaddr f).setWidth 16
  let csum := csum + (ipDaddr f >>> 16).setWidth 16
  let csum := csum + (ipProtocol f).setWidth 16 <<< 8
  let csum := csum + udpLen f
  let (csum, buf) := udpSum (maxUdpLength / 2) csum (f.drop 34)
  let csum := match buf with
    | b :: _ => csum + b.setWidth 16
    | [] => csum
  ~~~ csum

end EbpfLb
