import EbpfLoadBalancer.Model.Packet

/-!
# Model — Dropper

`xdp_dropper.c`: the filter before the server of part A, which lets the odd jobs through.
`bpf_printk` is left out.
-/

namespace EbpfLb
open Bytes

/-- `__builtin_bswap64`. -/
def bswap64 (x : U64) : U64 := BitVec.ofNat 64 (ofLE (toLE 8 x.toNat).reverse)

def udpDropper (ctx : Frame) : XdpAction :=
  let f := ctx.bytes
  if f.length < 14 then .aborted
  else if bpfNtohs (ethProto f) ≠ ethPIp then .pass
  else if f.length < 34 then .aborted
  else if ipProtocol f ≠ ipprotoUdp then .pass
  else if f.length < 42 then .aborted
  else if bpfNtohs (udpDest f) ≠ 8080#16 then .pass
  else if f.length < 50 then .aborted
  else
    let value := bswap64 (payload64 f)
    if value % 2#64 = 1#64 then .pass else .drop

end EbpfLb
