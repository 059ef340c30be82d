import PhantomProtocol.Crypto.KeySchedule

/-!
# Packet coalescer

`transport::packet_coalescer`: several packets in one datagram, each behind its length, behind the
number of them. The time of the first packet in a batch only serves `should_flush` and is left out.
-/

namespace PhantomProtocol

namespace Decoalescer

def headerSize : Nat := 2
def subHeaderSize : Nat := 2

/-- What the iterator yields: at most `remaining` sub-payloads, up to the first that does not fit
into what is left. -/
def subs : Nat → Bytes → List Bytes
  | remaining + 1, hi :: lo :: rest =>
    let len := beNat [hi, lo]
    if rest.length < len then [] else rest.take len :: subs remaining (rest.drop len)
  | _, _ => []

/-- `Decoalescer::new` and what it yields. -/
def all : Bytes → Option (List Bytes)
  | hi :: lo :: rest => some (subs (beNat [hi, lo]) rest)
  | _ => none

end Decoalescer

structure CoalescerConfig where
  maxDatagramSize : Nat
  maxPackets : UInt16

structure PacketCoalescer where
  config : CoalescerConfig
  /-- It starts with the room for the count. -/
  buf : Bytes
  count : UInt16

namespace PacketCoalescer

open Decoalescer (headerSize subHeaderSize)

def new (config : CoalescerConfig) : PacketCoalescer := ⟨config, List.replicate headerSize 0, 0⟩

/-- `push_inner`. The length is cut to 16 bits. -/
def pushInner (c : PacketCoalescer) (data : Bytes) : PacketCoalescer :=
  { c with buf := c.buf ++ beBytes 2 data.length ++ data, count := c.count + 1 }

def flush (c : PacketCoalescer) : PacketCoalescer × Option Bytes :=
  if c.count = 0 then (c, none)
  else (new c.config, some (beBytes 2 c.count.toNat ++ c.buf.drop headerSize))

def push (c : PacketCoalescer) (data : Bytes) : PacketCoalescer × Option Bytes :=
  if c.config.maxDatagramSize < c.buf.length + (subHeaderSize + data.length) ||
      decide (c.config.maxPackets ≤ c.count) then
    let flushed := c.flush
    (flushed.1.pushInner data, flushed.2)
  else (c.pushInner data, none)

inductive Op where
  | push (data : Bytes)
  | flush

def step (c : PacketCoalescer) : Op → PacketCoalescer × Option Bytes
  | .push data => c.push data
  | .flush => c.flush

def emitted (c : PacketCoalescer) : List Op → List Bytes
  | [] => []
  | op :: ops => (c.step op).2.toList ++ emitted (c.step op).1 ops

def pushed : List Op → List Bytes
  | [] => []
  | .push data :: ops => data :: pushed ops
  | .flush :: ops => pushed ops

end PacketCoalescer

end PhantomProtocol
