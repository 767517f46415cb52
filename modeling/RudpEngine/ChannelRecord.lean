import Mathlib.Data.List.Basic
import Mathlib.Algebra.Group.Int.Defs

/-!
# Channel records

`ConnectionChannelRecord`: for every packet a marker with its id, followed by
the channels that have bunches in it, all in one queue.
-/

namespace RudpEngine

/-- What the 31 bits of `Value` keep of an `int32_t`: a negative one loses its sign. -/
def bits31 (x : ℤ) : ℤ := if x < 0 then x + 2 ^ 31 else x

theorem bits31_eq_self {x : ℤ} : bits31 x = x ↔ 0 ≤ x := by
  unfold bits31
  split_ifs <;> omega

/-- The cast of an `int32_t` to `uint32_t`. -/
def uint32Cast (x : ℤ) : ℤ := if x < 0 then x + 2 ^ 32 else x

structure ChannelRecordEntry where
  value : ℤ
  isSequence : Bool
  deriving DecidableEq

structure ConnectionChannelRecord where
  entryRecord : List ChannelRecordEntry
  lastPacketId : ℤ
  deriving DecidableEq

namespace ConnectionChannelRecord

def new : ConnectionChannelRecord := ⟨[], -1⟩

variable (r : ConnectionChannelRecord)

def pushPacketId (packetId : ℤ) : ConnectionChannelRecord :=
  if packetId ≠ r.lastPacketId then ⟨r.entryRecord ++ [⟨bits31 packetId, true⟩], packetId⟩ else r

def pushChannelRecord (packetId : ℤ) (channelIndex : ℕ) : ConnectionChannelRecord :=
  let r := r.pushPacketId packetId
  { r with entryRecord := r.entryRecord ++ [⟨channelIndex, false⟩] }

section
variable {σ : Type} (func : σ → ℤ → ℕ → σ)

/-- The loop of `ConsumeChannelRecordsForPacket`: runs of one channel call the functor once. -/
def consumeLoop (packetId : ℤ) : List ChannelRecordEntry → Option ℤ → σ → List ChannelRecordEntry × σ
  | [], _, s => ([], s)
  | e :: es, previous, s =>
    if e.isSequence then (e :: es, s)
    else if some e.value ≠ previous then
      consumeLoop packetId es (some e.value) (func s packetId e.value.toNat)
    else consumeLoop packetId es previous s

/-- `ConsumeChannelRecordsForPacket`; the functor is a function on the state `s` it captures. -/
def consumeChannelRecordsForPacket (packetId : ℤ) (s : σ) : Bool × ConnectionChannelRecord × σ :=
  match r.entryRecord with
  | [] => (true, r, s)
  | packetEntry :: rest =>
    if !packetEntry.isSequence || packetEntry.value ≠ uint32Cast packetId then (false, r, s)
    else
      let (rest, s) := consumeLoop func packetId rest none s
      (true, { r with entryRecord := rest }, s)

end

end ConnectionChannelRecord

end RudpEngine
