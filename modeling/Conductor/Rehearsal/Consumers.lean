import Conductor.Run.Collector
/-!
# Rehearsal — consumers

A rehearsal lets the consumers of a collector go on in the order in which they
were started, each as far as it can, until none can.
-/

namespace Conductor

/-- The number of octets in a stream. -/
def OctetStream.size (s : OctetStream) : Nat := s.chunks.foldr (fun chunk n => chunk.length + n) 0

namespace Collector

/-- Lets one consumer act until it has finished or waits, at most `fuel` times. -/
def driveOne (canceled : Bool) (index : Nat) (channel : Channel) :
    Nat → Collector × List Announcement → Collector × List Announcement
  | 0, r => r
  | fuel + 1, (c, said) =>
    match c.act canceled (if canceled then .quit index channel else .read index channel) with
    | some (c, more) => driveOne canceled index channel fuel (c, said ++ more)
    | none => (c, said)

/-- Lets all consumers act as far as they can. A line has at least one octet, so
that a consumer acts at most once more than its stream has octets. -/
def drive (canceled : Bool) (c : Collector) : Collector × List Announcement :=
  c.consumers.foldl
    (fun r k => driveOne canceled k.index k.channel (k.stream.size + 1) r) (c, [])

end Collector

end Conductor
