import TkinedRemix.Icmp.DaemonCore
import TkinedRemix.Icmp.Checksum

/-!
The octets of the buffer that `ReceivePacket` reads. `recvfrom` fills `cc` of them; what stands behind is left
from earlier packets.
-/

namespace Tnm.Icmp

structure Received where
  packet : Nat → UInt8
  cc : Nat
  sfrom : UInt32

def Received.hlen (received : Received) : Nat := (received.packet 0).toNat % 16 * 4

def Received.short (received : Received) : Bool := received.cc < received.hlen + 8

def Received.half (received : Received) (bigEndian : Bool) (address : Nat) : UInt16 :=
  .ofNat (shortAt bigEndian (received.packet address) (received.packet (address + 1)))

-- The header as `receivePacket` takes it. The identifier is compared in the byte order of the host, the ports are
-- swapped; the data of a reply is only copied and does not matter for what is read.
def Received.header (bigEndian : Bool) (received : Received) : Packet where
  short := received.short
  icmpType := received.packet received.hlen
  icmpCode := received.packet (received.hlen + 1)
  icmpId := received.half bigEndian (received.hlen + 4)
  source := received.sfrom
  uhSport := received.half true (received.hlen + 28)
  uhDport := received.half true (received.hlen + 30)
  sent := .zero
  words := (0, 0)

-- A `struct timeval`, one `int32_t` or two.
def dataSize (type : Nat) : Nat :=
  if type = icmpTypeEcho then 16 else if type = icmpTypeMask then 4 else 8

def Received.codeReads (received : Received) : List Nat :=
  if (received.packet received.hlen).toNat = icmpUnreach ∨ (received.packet received.hlen).toNat = icmpTimxceed then
    [received.hlen + 1]
  else []

def Received.reads (config : Config) (bigEndian : Bool) (jobs : List Job) (received : Received) : List Nat :=
  let packet := received.header bigEndian
  0 :: if packet.short then [] else
    received.hlen :: (received.codeReads ++
      match replyType packet with
      | none => []
      | some (type, _) =>
        if type = icmpTypeTrace then List.range' (received.hlen + 28) 4
        else
          List.range' (received.hlen + 4) 2 ++
            if (creditedJob config jobs packet).isSome then
              List.range' (received.hlen + 8) (dataSize type)
            else [])

-- The packet has the quoted ports, or the data of a reply that a job waits for.
def Received.Complete (bigEndian : Bool) (jobs : List Job) (received : Received) : Prop :=
  0 < received.cc ∧ (received.short = false → ∀ type final,
    replyType (received.header bigEndian) = some (type, final) →
      (type = icmpTypeTrace → received.hlen + 32 ≤ received.cc) ∧
      (type ≠ icmpTypeTrace →
        ∀ job, findJobById jobs (received.header bigEndian).icmpId.toNat = some job → job.done = false →
          received.sfrom = job.addr → received.hlen + 8 + dataSize type ≤ received.cc))

theorem forall_mem_range'_lt {start count bound : Nat} (positive : 0 < count) :
    (∀ address ∈ List.range' start count, address < bound) ↔ start + count ≤ bound := by
  simp only [List.mem_range'_1]
  constructor
  · intro inside
    have last := inside (start + count - 1) (by omega)
    omega
  · intro fits address between
    omega

theorem dataSize_pos (type : Nat) : 0 < dataSize type := by
  unfold dataSize
  split
  · decide
  · split <;> decide

theorem creditedJob_isSome_iff (config : Config) (jobs : List Job) {packet : Packet} {type : Nat} {final : Bool}
    (long : packet.short = false) (kind : replyType packet = some (type, final)) (reply : type ≠ icmpTypeTrace) :
    (creditedJob config jobs packet).isSome = true ↔
      ∃ job, findJobById jobs packet.icmpId.toNat = some job ∧ job.done = false ∧ packet.source = job.addr := by
  simp only [creditedJob, long, kind, findJob, reply, Bool.not_false, guard_true, Option.bind_eq_bind,
    Option.pure_def, Option.bind_some, ↓reduceIte]
  cases findJobById jobs packet.icmpId.toNat with
  | none => simp
  | some job =>
    cases live : job.done with
    | true => simp [live]
    | false => by_cases same : packet.source = job.addr <;> simp [live, same]

theorem receivePacket_reads_iff (config : Config) (bigEndian : Bool) (jobs : List Job) (received : Received) :
    (∀ address ∈ received.reads config bigEndian jobs, address < received.cc) ↔
      received.Complete bigEndian jobs := by
  have code : ∀ address ∈ received.codeReads, address < received.hlen + 8 := by
    intro address member
    simp only [Received.codeReads] at member
    split at member
    · simp only [List.mem_singleton] at member
      omega
    · simp at member
  simp only [Received.reads, Received.Complete, List.forall_mem_cons]
  refine and_congr_right fun _ => ?_
  show (∀ address ∈ if received.short = true then [] else _, _) ↔ _
  cases short : received.short with
  | true => simp
  | false =>
    have header : received.hlen + 8 ≤ received.cc := by simpa [Received.short] using short
    simp only [Bool.false_eq_true, ↓reduceIte, forall_const, List.forall_mem_cons, List.forall_mem_append]
    have inside : (received.hlen < received.cc) ∧ ∀ address ∈ received.codeReads, address < received.cc :=
      ⟨by omega, fun address member => (code address member).trans_le header⟩
    simp only [inside.1, true_and]
    rw [and_iff_right inside.2]
    cases kind : replyType (received.header bigEndian) with
    | none => simp
    | some reply =>
      obtain ⟨type, final⟩ := reply
      have single : ∀ condition : Nat → Prop,
          (∀ other last, some (type, final) = some (other, last) → condition other) ↔ condition type := by
        intro condition
        exact ⟨fun holds => holds type final rfl, fun holds other last same => by cases same; exact holds⟩
      rw [single]
      by_cases trace : type = icmpTypeTrace
      · simp only [trace, ↓reduceIte, forall_const, ne_eq, not_true_eq_false, false_implies, and_true]
        exact forall_mem_range'_lt (by decide)
      · simp only [trace, ↓reduceIte, false_implies, true_and, ne_eq, not_false_eq_true, forall_const,
          List.forall_mem_append]
        rw [and_iff_right ((forall_mem_range'_lt (by decide)).mpr (by omega))]
        have credited := creditedJob_isSome_iff config jobs short kind trace
        by_cases waits : (creditedJob config jobs (received.header bigEndian)).isSome = true
        · rw [if_pos waits, forall_mem_range'_lt (dataSize_pos type)]
          obtain ⟨job, found, live, same⟩ := credited.mp waits
          exact ⟨fun fits _ _ _ _ => fits, fun fits => fits job found live same⟩
        · rw [if_neg waits]
          refine ⟨fun _ job found live same => ?_, by simp⟩
          exact absurd (credited.mpr ⟨job, found, live, same⟩) waits

-- A port unreachable message without the datagram it should quote.
theorem receivePacket_readsBehind :
    let received : Received := ⟨fun address => if address = 0 then 0x45 else 3, 28, 0⟩
    51 ∈ received.reads ⟨0, 0, false, false, 0, false⟩ false [] ∧ ¬ 51 < received.cc := by
  decide

end Tnm.Icmp
