import TalusVSwitch.DirectPath
import TalusVSwitch.Transport

/-! The network as its sockets see it: what is in flight are the bytes `send` makes of a
payload, and a node decompresses what it gets. -/

namespace TalusVSwitch

universe u

/-- What a socket is handed: no TTL of its own, and nothing legible. -/
structure Packet where
  src : SockAddr
  bytes : Bytes
  addr : SockAddr
deriving DecidableEq, Repr

/-- The nodes and the packets in flight between them. -/
structure Wire (Node : Type u) where
  stations : Node → Station
  inflight : List Packet
  injected : List (Node × Bytes)

namespace Wire

variable {Node : Type u} (zlib : Zlib) (inet_ntoa : SockAddr → Bytes) (config : Node → Config)
  (address : Node → SockAddr)

def start (clock : Node → Nat) : Wire Node where
  stations node := Station.start (config node) (clock node)
  inflight := []
  injected := []

/-- A packet as its sender's socket gets it. -/
def packet (src : SockAddr) (send : Send) : Option Packet :=
  (Transport.send zlib send.buf send.ttl).map (fun bytes => ⟨src, bytes, send.addr⟩)

variable [DecidableEq Node]

/-- One step, `none` where a process dies of a buffer it did not get. -/
def step (wire : Wire Node) : NetworkEvent Node → Option (Wire Node)
  | .deliver index node behind =>
    match wire.inflight[index]? with
    | none => some wire
    | some packet =>
      (decompress zlib packet.bytes).map (fun dd =>
        { wire with
          stations := Function.update wire.stations node
            ((wire.stations node).receive (config node) ⟨dd, behind⟩ packet.src
              (Transport.wireTtl packet.bytes))
          inflight := wire.inflight.eraseIdx index })
  | .lose index => some { wire with inflight := wire.inflight.eraseIdx index }
  | .act node event =>
    let acted := (wire.stations node).act inet_ntoa (config node) event
    (acted.2.mapM (packet zlib (address node))).map (fun packets =>
      { stations := Function.update wire.stations node acted.1
        inflight := wire.inflight ++ packets
        injected := event.injection.map (Prod.mk node) ++ wire.injected })

end Wire

namespace Wire

variable {Node : Type u}

variable {zlib : Zlib} {inet_ntoa : SockAddr → Bytes} {config : Node → Config}
  {address : Node → SockAddr}

variable [DecidableEq Node]

end Wire

end TalusVSwitch
