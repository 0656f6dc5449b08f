import LoadBear.Types

/-!
# The specification database

CPUID does not identify a product, so a processor resolves to every entry it
could be, and several candidates are merged into one record to be judged by.
-/
namespace LoadBear

inductive Vendor
  | intel
  | amd
  | other
  deriving DecidableEq, Repr

/-- A CPU model as CPUID reports it. -/
structure CpuKey where
  vendor : Vendor
  family : ℕ
  model : ℕ
  stepping : ℕ
  deriving DecidableEq, Repr

/-- Published limits and guarantees of one CPU model. -/
structure CpuSpec where
  vendor : Vendor
  family : ℕ
  model : ℕ
  stepping : ℕ
  name : String
  baseMhz : ℕ
  boostMhz : Option ℕ
  tdpWatts : ℕ
  ctdpMinWatts : Option ℕ
  ctdpMaxWatts : Option ℕ
  tjmaxC : Option ℚ
  cores : ℕ
  threads : ℕ
  source : String
  deriving DecidableEq, Repr

def CpuSpec.key (s : CpuSpec) : CpuKey := ⟨s.vendor, s.family, s.model, s.stepping⟩

/-- What a processor could be, and what it can be held to. -/
structure SpecMatch where
  spec : CpuSpec
  candidates : ℕ
  deriving DecidableEq, Repr

namespace SpecMatch

def isExact (m : SpecMatch) : Bool := m.candidates = 1

/-- Names the product only when the identity is unambiguous. -/
def label (m : SpecMatch) : String :=
  if m.isExact then m.spec.name
  else s!"{m.spec.cores} cores / {m.spec.threads} threads, one of {m.candidates} models sharing this processor id"

end SpecMatch

/-- Merge candidates field by field. The list the code indexes at zero is here
its first entry and the others, so it cannot be empty. -/
def conservative (first : CpuSpec) (others : List CpuSpec) : CpuSpec :=
  if others = [] then first
  else
    let candidates := first :: others
    { first with
      baseMhz := (candidates.map CpuSpec.baseMhz).min?.getD 0
      boostMhz := (candidates.filterMap CpuSpec.boostMhz).max?
      tdpWatts := (candidates.map CpuSpec.tdpWatts).min?.getD 0
      ctdpMinWatts := (candidates.filterMap CpuSpec.ctdpMinWatts).min?
      ctdpMaxWatts := (candidates.filterMap CpuSpec.ctdpMaxWatts).max?
      tjmaxC := (candidates.filterMap CpuSpec.tjmaxC).max?
      name := s!"{first.name} and {others.length} similar" }

structure SpecDb where
  entries : List CpuSpec

namespace SpecDb

/-- The first entry with exactly this key, stepping included. -/
def lookup (db : SpecDb) (key : CpuKey) : Option CpuSpec :=
  db.entries.find? (·.key = key)

/-- The entries a processor could be: those of its family and model, narrowed to
its thread count when that leaves any. -/
def candidates (db : SpecDb) (key : CpuKey) (threads : ℕ) : List CpuSpec :=
  let byKey := db.entries.filter fun s =>
    s.vendor = key.vendor ∧ s.family = key.family ∧ s.model = key.model
  let narrowed := byKey.filter (·.threads = threads)
  if narrowed = [] then byKey else narrowed

/-- Resolve a processor to the guarantees it can be held to. -/
def resolve (db : SpecDb) (key : CpuKey) (threads : ℕ) : Option SpecMatch :=
  match db.candidates key threads with
  | [] => none
  | first :: others => some ⟨conservative first others, others.length + 1⟩

end SpecDb
end LoadBear
