import Mathlib.Algebra.GroupWithZero.Nat

/-!
# Sizes of the engine

The constants of `simple-socks5.c` and `udp_dns.h` that bound its tables and thread pools.
-/

namespace FiveGProxy

abbrev workerCount : Nat := 4
abbrev udpWorkerCount : Nat := 4
abbrev connSlotCount : Nat := 1088
abbrev udpSlotCount : Nat := 1088
abbrev maxEvents : Nat := 512
abbrev handshakePoolSize : Nat := 192
abbrev udpDnsResolverThreads : Nat := 4
abbrev udpDnsQueueMax : Nat := 128
abbrev udpDnsHostMax : Nat := 256
abbrev udpDnsJobCount : Nat := 32
abbrev udpDnsPendSlots : Nat := 2
abbrev udpDnsPendFrameMax : Nat := 1280
abbrev dnsResolveCacheSlots : Nat := 64
abbrev dnsResolveTtlSec : Nat := 60

instance : NeZero udpWorkerCount := ⟨by decide⟩

instance : NeZero dnsResolveCacheSlots := ⟨by decide⟩

end FiveGProxy
