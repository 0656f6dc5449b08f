import LoadBear.LittleEndian
import Mathlib.Algebra.Order.Group.Nat
import Mathlib.Tactic.NormNum

/-!
# Counting cores and threads

The operating system answers with records of varying length, back to back. The walk over
them counts one core a record and one thread a bit of its group masks, in 32-bit sums. A
build with overflow checks stops where a sum does not fit, one without them wraps.
-/
namespace LoadBear

open LittleEndian

namespace Topology

/-- What stops the walk from returning. -/
inductive Stop
  | outOfBounds
  | overflow
  | unfinished
  deriving DecidableEq, Repr

def u32Max : ℕ := 2 ^ 32 - 1

/-- A 32-bit result, in a build with or without overflow checks. -/
def u32 (checks : Bool) (n : ℕ) : Except Stop ℕ :=
  if n ≤ u32Max then .ok n
  else if checks then .error .overflow
  else .ok (n % 2 ^ 32)

/-- A load from the buffer. -/
def load (buffer : List UInt8) (width offset : ℕ) : Except Stop ℕ :=
  match read buffer width offset with
  | some value => .ok value
  | none => .error .outOfBounds

/-- `u64::count_ones`. -/
def countOnes (mask : ℕ) : ℕ := (List.range 64).countP mask.testBit

/-- The locals of the loop, and the offsets of the records it has seen. -/
structure Walk where
  offset : ℕ
  physicalCores : ℕ
  logicalProcessors : ℕ
  visited : List ℕ
  deriving DecidableEq, Repr

def Walk.start : Walk := ⟨0, 0, 0, []⟩

section Loop
variable (checks : Bool) (buffer : List UInt8) (bytes : ℕ)

/-- The loop over the group masks of a record. -/
def addMasks : ℕ → ℕ → ℕ → Except Stop ℕ
  | 0, _, logicalProcessors => .ok logicalProcessors
  | groups + 1, offset, logicalProcessors => do
    let mask ← load buffer 8 offset
    let logicalProcessors ← u32 checks (logicalProcessors + countOnes mask)
    addMasks groups (offset + 16) logicalProcessors

/-- One turn of the walk, or the end of it. -/
def Walk.step (w : Walk) : Except Stop (Option Walk) := do
  let header ← u32 checks (w.offset + 8)
  if bytes < header then return none
  let size ← load buffer 4 (w.offset + 4)
  if size = 0 then return none
  let physicalCores ← u32 checks (w.physicalCores + 1)
  let groups ← load buffer 2 (w.offset + 30)
  let logicalProcessors ← addMasks checks buffer groups (w.offset + 32) w.logicalProcessors
  let offset ← u32 checks (w.offset + size)
  return some ⟨offset, physicalCores, logicalProcessors, w.visited ++ [w.offset]⟩

def Walk.run : ℕ → Walk → Except Stop Walk
  | 0, _ => .error .unfinished
  | fuel + 1, w => do
    match ← w.step checks buffer bytes with
    | some w => run fuel w
    | none => return w

end Loop

/-- What the machine has. -/
structure Counts where
  physicalCores : ℕ
  logicalProcessors : ℕ
  deriving DecidableEq, Repr

/-- The buffer, allocated in words of eight bytes, after the answer is in it. -/
def filled (required : ℕ) (answer : List UInt8) : List UInt8 :=
  answer ++ List.replicate (8 * ((required + 7) / 8) - answer.length) 0

/-- Ask how many cores and threads this machine has. The first call tells how long the
answer is, the second gives it or fails. -/
def detect (checks : Bool) (fuel required : ℕ) (answer : Option (List UInt8)) :
    Except Stop (Option Counts) := do
  if required = 0 then return none
  match answer with
  | none => return none
  | some answer =>
    let w ← Walk.run checks (filled required answer) answer.length fuel .start
    if w.physicalCores = 0 ∨ w.logicalProcessors = 0 then return none
    return some ⟨w.physicalCores, w.logicalProcessors⟩

/-- A group mask, with the group it is for and its padding. -/
structure GroupAffinity where
  mask : UInt64
  rest : Vector UInt8 8

def GroupAffinity.bytes (g : GroupAffinity) : List UInt8 :=
  toBytes 8 g.mask.toNat ++ g.rest.toList

/-- A processor core record. -/
structure CoreRecord where
  relationship : Vector UInt8 4
  flags : Vector UInt8 22
  masks : List GroupAffinity
  count_fits : masks.length < 2 ^ 16

namespace CoreRecord
variable (r : CoreRecord)

/-- Its own header and masks. -/
def size : ℕ := 32 + 16 * r.masks.length

def header : List UInt8 :=
  r.relationship.toList ++ (toBytes 4 r.size ++ (r.flags.toList ++ toBytes 2 r.masks.length))

def bytes : List UInt8 := r.header ++ r.masks.flatMap GroupAffinity.bytes

/-- The bits set in its masks. -/
def ones : ℕ := (r.masks.map fun g => countOnes g.mask.toNat).sum

end CoreRecord

/-- The records back to back. -/
def layout (records : List CoreRecord) : List UInt8 := records.flatMap CoreRecord.bytes

def totalOnes (records : List CoreRecord) : ℕ := (records.map CoreRecord.ones).sum

/-- Where each record begins. -/
def starts : ℕ → List CoreRecord → List ℕ
  | _, [] => []
  | offset, r :: rest => offset :: starts (offset + r.size) rest

section Layout

@[simp] theorem GroupAffinity.length_bytes (g : GroupAffinity) : g.bytes.length = 16 := by
  simp [bytes]

@[simp] theorem CoreRecord.length_header (r : CoreRecord) : r.header.length = 32 := by
  simp [header]

@[simp] theorem CoreRecord.length_bytes (r : CoreRecord) : r.bytes.length = r.size := by
  simp [bytes, size]
  omega

lemma CoreRecord.size_lt (r : CoreRecord) : r.size < 2 ^ 32 := by
  have hfits := r.count_fits
  unfold size
  omega

@[simp] theorem layout_nil : layout [] = [] := rfl

@[simp] theorem layout_cons (r : CoreRecord) (records : List CoreRecord) :
    layout (r :: records) = r.bytes ++ layout records := rfl

lemma length_layout_cons (r : CoreRecord) (records : List CoreRecord) :
    (layout (r :: records)).length = r.size + (layout records).length := by simp

lemma totalOnes_cons (r : CoreRecord) (records : List CoreRecord) :
    totalOnes (r :: records) = r.ones + totalOnes records := rfl

/-- A record takes at least its header. -/
lemma length_le_layout (records : List CoreRecord) :
    32 * records.length ≤ (layout records).length := by
  induction records with
  | nil => rfl
  | cons r records ih =>
    rw [length_layout_cons, CoreRecord.size, List.length_cons]
    omega

end Layout

section Loads
variable {buffer : List UInt8} {width offset value : ℕ}

/-- A field behind something is loaded at the offset behind it. -/
lemma load_append_left (before : List UInt8) (h : load buffer width offset = .ok value) :
    load (before ++ buffer) width (before.length + offset) = .ok value := by
  rwa [load, read_append_left]

lemma load_toBytes (width : ℕ) (after : List UInt8) (h : value < 256 ^ width) :
    load (toBytes width value ++ after) width 0 = .ok value := by
  rw [load, read_toBytes, Nat.mod_eq_of_lt h]

lemma load_mask (g : GroupAffinity) (after : List UInt8) :
    load (g.bytes ++ after) 8 0 = .ok g.mask.toNat := by
  rw [GroupAffinity.bytes, List.append_assoc]
  exact load_toBytes 8 _ g.mask.toNat_lt

lemma load_size (r : CoreRecord) (after : List UInt8) :
    load (r.bytes ++ after) 4 4 = .ok r.size := by
  have hfield := load_append_left r.relationship.toList (load_toBytes 4
    (r.flags.toList ++ (toBytes 2 r.masks.length ++ (r.masks.flatMap GroupAffinity.bytes ++ after)))
    r.size_lt)
  simpa [CoreRecord.bytes, CoreRecord.header] using hfield

lemma load_groups (r : CoreRecord) (after : List UInt8) :
    load (r.bytes ++ after) 2 30 = .ok r.masks.length := by
  have hfield := load_append_left
    (r.relationship.toList ++ (toBytes 4 r.size ++ r.flags.toList))
    (load_toBytes 2 (r.masks.flatMap GroupAffinity.bytes ++ after) r.count_fits)
  simpa [CoreRecord.bytes, CoreRecord.header] using hfield

end Loads

section Sums
variable (checks : Bool)

lemma u32_of_le {n : ℕ} (h : n ≤ u32Max) : u32 checks n = .ok n := if_pos h

lemma u32_unchecked (n : ℕ) : u32 false n = .ok (n % 2 ^ 32) := by
  by_cases h : n ≤ u32Max
  · rw [u32_of_le false h, Nat.mod_eq_of_lt (by unfold u32Max at h; omega)]
  · rw [u32, if_neg h]
    rfl

lemma u32_checked {n : ℕ} (h : u32Max < n) : u32 true n = .error .overflow := by
  rw [u32, if_neg (by omega)]
  rfl

/-- Settling a sum on the way makes no difference to what comes of it. -/
lemma u32_bind_u32 {β : Type} (a b : ℕ) (next : ℕ → Except Stop β) :
    (u32 checks a >>= fun n => u32 checks (n + b) >>= next) = u32 checks (a + b) >>= next := by
  cases checks with
  | false =>
    rw [u32_unchecked a, u32_unchecked (a + b), ← Nat.mod_add_mod,
      ← u32_unchecked (a % 2 ^ 32 + b)]
    rfl
  | true =>
    by_cases h : a ≤ u32Max
    · rw [u32_of_le true h]
      rfl
    · rw [u32_checked (by omega), u32_checked (by omega)]
      rfl

/-- The loop over the masks settles the sum of their bits. -/
lemma u32_bind_addMasks (masks : List GroupAffinity) (before after : List UInt8) (a : ℕ) :
    (u32 checks a >>= addMasks checks
        (before ++ (masks.flatMap GroupAffinity.bytes ++ after)) masks.length before.length) =
      u32 checks (a + (masks.map fun g => countOnes g.mask.toNat).sum) := by
  induction masks generalizing before a with
  | nil => exact bind_pure _
  | cons g masks ih =>
    have hbuffer : before ++ ((g :: masks).flatMap GroupAffinity.bytes ++ after) =
        (before ++ g.bytes) ++ (masks.flatMap GroupAffinity.bytes ++ after) := by
      simp
    have hload : load (before ++ ((g :: masks).flatMap GroupAffinity.bytes ++ after)) 8
        before.length = .ok g.mask.toNat := by
      rw [List.flatMap_cons, List.append_assoc]
      exact load_append_left before (load_mask g _)
    calc (u32 checks a >>= addMasks checks
            (before ++ ((g :: masks).flatMap GroupAffinity.bytes ++ after))
            (masks.length + 1) before.length)
        = u32 checks a >>= fun n => u32 checks (n + countOnes g.mask.toNat) >>=
            addMasks checks (before ++ ((g :: masks).flatMap GroupAffinity.bytes ++ after))
              masks.length (before.length + 16) := by
          refine congrArg _ (funext fun n => ?_)
          rw [addMasks, hload]
          rfl
      _ = u32 checks (a + countOnes g.mask.toNat) >>= addMasks checks
            ((before ++ g.bytes) ++ (masks.flatMap GroupAffinity.bytes ++ after))
              masks.length (before ++ g.bytes).length := by
          rw [u32_bind_u32, hbuffer, List.length_append, g.length_bytes]
      _ = u32 checks (a + ((g :: masks).map fun g => countOnes g.mask.toNat).sum) := by
          rw [ih, List.map_cons, List.sum_cons, Nat.add_assoc]

end Sums

section Run
variable (checks : Bool) (padding : List UInt8)

/-- A turn at the start of a record counts it and moves to the next. -/
lemma step_of_record (before : List UInt8) (r : CoreRecord) (rest : List UInt8) {bytes : ℕ}
    (hbytes : (before ++ r.bytes).length ≤ bytes) (hfits : bytes ≤ u32Max - 8)
    {cores : ℕ} (hcores : cores < u32Max) (logical : ℕ) (visited : List ℕ) :
    Walk.step checks (before ++ (r.bytes ++ rest)) bytes ⟨before.length, cores, logical, visited⟩ =
      addMasks checks (before ++ (r.bytes ++ rest)) r.masks.length (before.length + 32) logical >>=
        fun logical => .ok (some
          ⟨before.length + r.size, cores + 1, logical, visited ++ [before.length]⟩) := by
  have hsize : r.size ≠ 0 := by
    unfold CoreRecord.size
    omega
  rw [List.length_append, r.length_bytes] at hbytes
  have hheader : ¬bytes < before.length + 8 := by
    unfold CoreRecord.size at hbytes
    omega
  have hloadSize := load_append_left before (load_size r rest)
  have hloadGroups := load_append_left before (load_groups r rest)
  unfold Walk.step
  simp only [u32_of_le checks (n := before.length + 8) (by omega),
    u32_of_le checks (n := cores + 1) (by omega),
    u32_of_le checks (n := before.length + r.size) (by omega),
    hloadSize, hloadGroups, bind, Except.bind, if_neg hheader, if_neg hsize]
  rfl

/-- The walk ends behind the last record. -/
lemma step_at_end (buffer : List UInt8) {bytes : ℕ} (hfits : bytes ≤ u32Max - 8) (w : Walk)
    (hend : w.offset = bytes) : w.step checks buffer bytes = .ok none := by
  unfold Walk.step
  rw [hend, u32_of_le checks (by unfold u32Max at hfits ⊢; omega)]
  exact if_pos (by omega)

/-- From the start of a record on, the walk goes through the records that are left and
settles the sum of their bits. -/
lemma u32_bind_run (records : List CoreRecord) (before : List UInt8) {bytes fuel cores : ℕ}
    (hbytes : bytes = before.length + (layout records).length) (hfits : bytes ≤ u32Max - 8)
    (hfuel : records.length < fuel) (hcores : cores + records.length ≤ u32Max) (a : ℕ)
    (visited : List ℕ) :
    (u32 checks a >>= fun n => Walk.run checks (before ++ (layout records ++ padding)) bytes fuel
        ⟨before.length, cores, n, visited⟩) =
      u32 checks (a + totalOnes records) >>= fun n => .ok
        ⟨bytes, cores + records.length, n, visited ++ starts before.length records⟩ := by
  induction records generalizing before fuel cores a visited with
  | nil =>
    cases fuel with
    | zero => omega
    | succ fuel =>
      have hend : before.length = bytes := by simpa using hbytes.symm
      refine congrArg _ (funext fun n => ?_)
      rw [Walk.run, step_at_end checks _ hfits _ hend, starts, List.append_nil, hend]
      rfl
  | cons r records ih =>
    cases fuel with
    | zero => omega
    | succ fuel =>
      rw [List.length_cons] at hfuel hcores
      rw [length_layout_cons] at hbytes
      have hbuffer : before ++ (layout (r :: records) ++ padding) =
          (before ++ r.bytes) ++ (layout records ++ padding) := by
        simp
      have hmasks : before ++ (layout (r :: records) ++ padding) =
          (before ++ r.header) ++
            (r.masks.flatMap GroupAffinity.bytes ++ (layout records ++ padding)) := by
        simp [CoreRecord.bytes]
      calc _ = u32 checks a >>= fun n => addMasks checks
                (before ++ (layout (r :: records) ++ padding)) r.masks.length
                (before ++ r.header).length n >>= fun n =>
              Walk.run checks (before ++ (layout (r :: records) ++ padding)) bytes fuel
                ⟨(before ++ r.bytes).length, cores + 1, n, visited ++ [before.length]⟩ := by
            refine congrArg _ (funext fun n => ?_)
            rw [Walk.run, layout_cons, List.append_assoc, step_of_record checks before r _
              (by simp; omega) hfits (by omega), bind_assoc, List.length_append, r.length_header,
              List.length_append, r.length_bytes]
            rfl
        _ = u32 checks (a + r.ones) >>= fun n =>
              Walk.run checks ((before ++ r.bytes) ++ (layout records ++ padding)) bytes fuel
                ⟨(before ++ r.bytes).length, cores + 1, n, visited ++ [before.length]⟩ := by
            rw [← bind_assoc, hmasks, u32_bind_addMasks, ← hmasks, hbuffer]
            rfl
        _ = _ := by
            rw [ih (before ++ r.bytes) (by simp; omega) (by omega) (by omega), totalOnes_cons,
              Nat.add_assoc a, Nat.add_assoc cores, Nat.add_comm 1, starts, List.append_assoc,
              List.length_append, r.length_bytes]
            rfl

/-- The walk over an answer counts its records and settles the sum of their bits. -/
theorem run_layout (records : List CoreRecord) (hfits : (layout records).length ≤ u32Max - 8)
    {fuel : ℕ} (hfuel : records.length < fuel) :
    Walk.run checks (filled (layout records).length (layout records)) (layout records).length
        fuel .start =
      u32 checks (totalOnes records) >>= fun n => .ok
        ⟨(layout records).length, records.length, n, starts 0 records⟩ := by
  have hlength := length_le_layout records
  have hcores : 0 + records.length ≤ u32Max := by omega
  have hrun := u32_bind_run checks (List.replicate
    (8 * (((layout records).length + 7) / 8) - (layout records).length) 0) records [] (by simp)
    hfits hfuel hcores 0 []
  rw [Nat.zero_add, Nat.zero_add, u32_of_le checks (Nat.zero_le _)] at hrun
  exact hrun

end Run

section Counted
variable (checks : Bool) (fuel : ℕ) (records : List CoreRecord)

/-- The walk goes over every record once, in order, and counts so many threads. -/
structure Counted (n : ℕ) : Prop where
  walk : Walk.run checks (filled (layout records).length (layout records)) (layout records).length
    fuel .start = .ok ⟨(layout records).length, records.length, n, starts 0 records⟩
  detect : detect checks fuel (layout records).length (some (layout records)) =
    .ok (if n = 0 then none else some ⟨records.length, n⟩)

variable {checks fuel records}

/-- What comes of the sum of the bits is what comes of the machine. -/
lemma detect_layout (hne : records ≠ []) (hfits : (layout records).length ≤ u32Max - 8)
    (hfuel : records.length < fuel) :
    detect checks fuel (layout records).length (some (layout records)) =
      u32 checks (totalOnes records) >>= fun n => .ok
        (if n = 0 then none else some ⟨records.length, n⟩) := by
  have hpos : 0 < records.length := List.length_pos_of_ne_nil hne
  have hlength := length_le_layout records
  unfold detect
  simp only
  rw [if_neg (by omega), run_layout checks records hfits hfuel, bind_assoc]
  refine congrArg _ (funext fun n => ?_)
  simp only [bind, Except.bind, hpos.ne', false_or]
  split_ifs <;> rfl

/-- What the sum of the bits settles to is what is counted. -/
lemma counted_of_u32 (hne : records ≠ []) (hfits : (layout records).length ≤ u32Max - 8)
    (hfuel : records.length < fuel) {n : ℕ} (hsum : u32 checks (totalOnes records) = .ok n) :
    Counted checks fuel records n := by
  constructor
  · rw [run_layout checks records hfits hfuel, hsum]
    rfl
  · rw [detect_layout hne hfits hfuel, hsum]
    rfl

/-- No number of threads above the 32-bit ones is counted. -/
lemma le_of_counted (hfits : (layout records).length ≤ u32Max - 8)
    (hfuel : records.length < fuel) (h : Counted checks fuel records (totalOnes records)) :
    totalOnes records ≤ u32Max := by
  by_contra hsum
  have hwalk := h.walk
  rw [run_layout checks records hfits hfuel] at hwalk
  cases checks with
  | true =>
    rw [u32_checked (by omega)] at hwalk
    cases hwalk
  | false =>
    rw [u32_unchecked] at hwalk
    have hcount : totalOnes records % 2 ^ 32 = totalOnes records :=
      congrArg Walk.logicalProcessors (Except.ok.inj hwalk)
    unfold u32Max at hsum
    omega

end Counted

/-- Every record is counted once, and every set bit where their number is one of 32 bits.
Where it is not, a build with overflow checks stops and one without them wraps. -/
theorem detect_counts_records (records : List CoreRecord) (hne : records ≠ [])
    (hfits : (layout records).length ≤ u32Max - 8) (fuel : ℕ) (hfuel : records.length < fuel) :
    (totalOnes records ≤ u32Max →
      ∀ checks, Counted checks fuel records (totalOnes records)) ∧
    (u32Max < totalOnes records →
      detect true fuel (layout records).length (some (layout records)) = .error .overflow ∧
        Counted false fuel records (totalOnes records % 2 ^ 32)) := by
  constructor
  · intro hsum checks
    exact counted_of_u32 hne hfits hfuel (u32_of_le checks hsum)
  · intro hsum
    refine ⟨?_, counted_of_u32 hne hfits hfuel (u32_unchecked _)⟩
    rw [detect_layout hne hfits hfuel, u32_checked hsum]
    rfl

/-- A record of so many masks, all alike. -/
def uniformRecord (mask : UInt64) (masks : ℕ) (h : masks < 2 ^ 16) : CoreRecord where
  relationship := .replicate 4 0
  flags := .replicate 22 0
  masks := .replicate masks ⟨mask, .replicate 8 0⟩
  count_fits := by rwa [List.length_replicate]

/-- Two cores of two threads each. -/
def twoCores : List CoreRecord :=
  [uniformRecord 0b0011 1 (by norm_num), uniformRecord 0b1100 1 (by norm_num)]

theorem detect_counts_two_cores :
    Counted true 3 twoCores 4 ∧ totalOnes twoCores = 4 := by
  have hones : totalOnes twoCores = 4 := by decide +kernel
  have hcounts := detect_counts_records twoCores (by simp [twoCores]) (by decide +kernel) 3
    (by decide +kernel)
  refine ⟨?_, hones⟩
  rw [← hones]
  exact hcounts.1 (by rw [hones]; decide) true

section Uniform
variable (mask : UInt64) (masks : ℕ) (h : masks < 2 ^ 16) (n : ℕ)

lemma totalOnes_replicate : totalOnes (List.replicate n (uniformRecord mask masks h)) =
    n * (masks * countOnes mask.toNat) := by
  simp [totalOnes, CoreRecord.ones, uniformRecord]

lemma length_layout_replicate : (layout (List.replicate n (uniformRecord mask masks h))).length =
    n * (32 + 16 * masks) := by
  simp [layout, CoreRecord.size, uniformRecord]

end Uniform

/-- A gigabyte of full masks. -/
def fullMasks : List CoreRecord :=
  List.replicate 1025 (uniformRecord 0xFFFFFFFFFFFFFFFF 65535 (by norm_num))

/-- They have more set bits than 32 bits can count. -/
theorem full_masks_miscounted : fullMasks ≠ [] ∧ (layout fullMasks).length ≤ u32Max - 8 ∧
    ∀ checks fuel, fullMasks.length < fuel →
      ¬Counted checks fuel fullMasks (totalOnes fullMasks) := by
  have hlength : (layout fullMasks).length = 1025 * (32 + 16 * 65535) :=
    length_layout_replicate ..
  have hbits : countOnes (0xFFFFFFFFFFFFFFFF : UInt64).toNat = 64 := by decide +kernel
  have hones : totalOnes fullMasks = 1025 * (65535 * 64) := by
    rw [fullMasks, totalOnes_replicate, hbits]
  have hfits : (layout fullMasks).length ≤ u32Max - 8 := by
    rw [hlength]
    decide
  have hne : fullMasks ≠ [] := by
    rw [fullMasks, Ne, List.replicate_eq_nil_iff]
    decide
  refine ⟨hne, hfits, fun checks fuel hfuel h => ?_⟩
  have hle := le_of_counted hfits hfuel h
  rw [hones] at hle
  exact absurd hle (by decide)

end Topology
end LoadBear
