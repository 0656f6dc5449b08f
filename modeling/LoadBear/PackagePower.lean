import LoadBear.Temperature

/-!
# Package power

The processor counts the energy it has consumed in a register of 32 bits, which wraps. Power
is the difference of two readings over the time between them, and a figure of a kilowatt or
more is taken for an artefact of the wrapping. Over a long interval the counter can wrap
and still leave a figure below that.
-/
namespace LoadBear

def msrRaplPowerUnit : UInt64 := 0xC0010299

def msrPkgEnergyStatus : UInt64 := 0xC001029B

/-- The energy counter is 32 bits wide and wraps. -/
def counterModulus : ℕ := 2 ^ 32

/-- Above this, a reading is treated as a wrap artefact rather than a value. -/
def implausibleWatts : ℚ := 1000

/-- Joules in one count, from the exponent in the unit register. -/
def energyUnitJoules (raw : UInt64) : ℚ := 1 / 2 ^ ((raw >>> 8) &&& 0x1F).toNat

/-- The unit of energy, and the counter with the time it was last read. -/
structure PackagePower where
  joulesPerCount : ℚ
  previous : Option (ℕ × ℕ)
  joulesPerCount_pos : 0 < joulesPerCount

namespace PackagePower

/-- Read the energy unit once. -/
def new (execute : Executor) : Option PackagePower :=
  match readMsr execute msrRaplPowerUnit with
  | none => none
  | some raw =>
    if h : 0 < energyUnitJoules raw then some ⟨energyUnitJoules raw, none, h⟩ else none

section Read
variable (rt : Runtime)

/-- Counts between two readings of the register. A smaller value than last time is ordinary. -/
def ticks (previousCounter counter : ℕ) : ℕ :=
  if previousCounter ≤ counter then counter - previousCounter
  else counter + counterModulus - previousCounter

/-- The average of an interval that has a length, if it is plausible. Fewer than `2 ^ 32` counts
over a millisecond or more are well inside the range of a single precision value. -/
def wattsSince (joulesPerCount : ℚ) (counter nowMs : ℕ) (previous : ℕ × ℕ) : Option ℚ :=
  if nowMs < previous.2 then none
  else if nowMs - previous.2 = 0 then none
  else
    let joules := rt.f64 (ticks previous.1 counter * joulesPerCount)
    let seconds := rt.f64 (rt.f64 (nowMs - previous.2 : ℕ) / 1000)
    let watts := rt.f32 (rt.f64 (joules / seconds))
    if 0 ≤ watts ∧ watts < implausibleWatts then some watts else none

/-- Average package power over the interval since the previous call. -/
def read (p : PackagePower) (execute : Executor) (nowMs : ℕ) : Option ℚ × PackagePower :=
  match readMsr execute msrPkgEnergyStatus with
  | none => (none, p)
  | some raw =>
    let counter := raw.toNat &&& (counterModulus - 1)
    (p.previous.bind (wattsSince rt p.joulesPerCount counter nowMs),
      { p with previous := some (counter, nowMs) })

end Read

section Truth

/-- A call, and what the processor has really counted by then. The register shows the low bits. -/
structure Call where
  execute : Executor
  nowMs : ℕ
  energy : ℕ
  exposes : ∀ raw ∈ readMsr execute msrPkgEnergyStatus,
    raw.toNat % counterModulus = energy % counterModulus

def Call.answers (c : Call) : Bool := (readMsr c.execute msrPkgEnergyStatus).isSome

/-- The last of the calls whose register read succeeded. -/
def lastAnswered (calls : List Call) : Option Call := (calls.filter Call.answers).getLast?

variable (rt : Runtime) (p : PackagePower)

/-- The state after a sequence of calls. -/
def after (calls : List Call) : PackagePower :=
  calls.foldl (fun p c => (p.read rt c.execute c.nowMs).2) p

/-- What a call returns after the ones before it. -/
def returned (earlier : List Call) (c : Call) : Option ℚ :=
  ((p.after rt earlier).read rt c.execute c.nowMs).1

/-- The average over the time since the last successful read, of a count of energy. -/
def averageOver (last c : Call) (count : ℕ) : ℚ :=
  p.joulesPerCount * count / ((c.nowMs - last.nowMs : ℕ) / 1000)

/-- The figure is the energy really consumed since the last successful read, over the time
since then. -/
def IsTrue (earlier : List Call) (c : Call) (watts : ℚ) : Prop :=
  ∃ last ∈ lastAnswered earlier, last.nowMs < c.nowMs ∧
    watts = p.averageOver last c (c.energy - last.energy)

/-- The counter wrapped since the last successful read, and what it shows of the energy
consumed makes a plausible figure. -/
def Slips (earlier : List Call) (c : Call) : Prop :=
  c.answers ∧ ∃ last ∈ lastAnswered earlier, last.nowMs < c.nowMs ∧
    counterModulus ≤ c.energy - last.energy ∧
    p.averageOver last c ((c.energy - last.energy) % counterModulus) < implausibleWatts

end Truth

section Counter

/-- The counter runs on past its width, so the difference is that of the true counts. -/
lemma ticks_mod {previous energy : ℕ} (h : previous ≤ energy) :
    ticks (previous % counterModulus) (energy % counterModulus) =
      (energy - previous) % counterModulus := by
  unfold ticks counterModulus
  split <;> omega

lemma and_counterModulus (raw : ℕ) : raw &&& (counterModulus - 1) = raw % counterModulus :=
  Nat.and_two_pow_sub_one_eq_mod raw 32

end Counter

section Runs

lemma previous_of_new {boot : Executor} {p : PackagePower} (h : new boot = some p) :
    p.previous = none := by
  unfold new at h
  split at h
  · simp at h
  · split at h
    · obtain rfl := Option.some.inj h
      rfl
    · simp at h

variable (rt : Runtime) (p : PackagePower)

/-- A call whose register read fails leaves the state. -/
lemma read_of_not_answers {c : Call} (h : ¬c.answers) :
    p.read rt c.execute c.nowMs = (none, p) := by
  have hnone : readMsr c.execute msrPkgEnergyStatus = none := by simpa [Call.answers] using h
  simp [read, hnone]

/-- A call whose register read succeeds keeps the counter and the time. -/
lemma read_of_answers {c : Call} (h : c.answers) :
    p.read rt c.execute c.nowMs =
      (p.previous.bind (wattsSince rt p.joulesPerCount (c.energy % counterModulus) c.nowMs),
        { p with previous := some (c.energy % counterModulus, c.nowMs) }) := by
  obtain ⟨raw, hraw⟩ := Option.isSome_iff_exists.mp h
  simp [read, hraw, and_counterModulus, c.exposes raw hraw]

lemma after_append (earlier : List Call) (c : Call) :
    p.after rt (earlier ++ [c]) = ((p.after rt earlier).read rt c.execute c.nowMs).2 := by
  simp [after]

/-- Whatever the calls, the state is that of the last successful one. -/
lemma after_eq (hfresh : p.previous = none) (calls : List Call) :
    p.after rt calls = { p with
      previous := (lastAnswered calls).map fun c => (c.energy % counterModulus, c.nowMs) } := by
  induction calls using List.reverseRecOn with
  | nil =>
    cases p
    simp_all [after, lastAnswered]
  | append_singleton earlier c ih =>
    rw [after_append, ih]
    by_cases hc : c.answers
    · simp [read_of_answers rt _ hc, lastAnswered, List.filter_append, hc]
    · simp [read_of_not_answers rt _ hc, lastAnswered, List.filter_append, hc]

lemma lastAnswered_mem {calls : List Call} {c : Call} (h : c ∈ lastAnswered calls) :
    c ∈ calls :=
  (List.mem_filter.mp (List.mem_of_getLast? h)).1

end Runs

section Exact
variable {lowercase : String → String} {p : PackagePower} {earlier : List Call} {c last : Call}

lemma averageOver_nonneg (count : ℕ) : 0 ≤ p.averageOver last c count := by
  have hunit := p.joulesPerCount_pos
  unfold averageOver
  positivity

/-- In exact arithmetic a plausible figure is the average of what the register shows. -/
lemma mem_wattsSince_exact {watts : ℚ} (hle : last.energy ≤ c.energy) :
    watts ∈ wattsSince (.exact lowercase) p.joulesPerCount (c.energy % counterModulus) c.nowMs
        (last.energy % counterModulus, last.nowMs) ↔
      last.nowMs < c.nowMs ∧
        watts = p.averageOver last c ((c.energy - last.energy) % counterModulus) ∧
        watts < implausibleWatts := by
  have havg : (((c.energy - last.energy) % counterModulus : ℕ) * p.joulesPerCount) /
      (((c.nowMs - last.nowMs : ℕ) : ℚ) / 1000) =
      p.averageOver last c ((c.energy - last.energy) % counterModulus) := by
    rw [averageOver, mul_comm p.joulesPerCount]
  have hnonneg : 0 ≤ p.averageOver last c ((c.energy - last.energy) % counterModulus) :=
    averageOver_nonneg _
  by_cases hbefore : last.nowMs < c.nowMs
  · have hlength : c.nowMs - last.nowMs ≠ 0 := by omega
    simp only [wattsSince, ticks_mod hle, Runtime.exact_f32, Runtime.exact_f64, havg, hnonneg,
      hbefore.not_gt, hlength, if_false, true_and, Option.mem_def, Option.ite_none_right_eq_some,
      Option.some.injEq, hbefore]
    constructor
    · rintro ⟨hlt, rfl⟩
      exact ⟨rfl, hlt⟩
    · rintro ⟨rfl, hlt⟩
      exact ⟨hlt, rfl⟩
  · have hnone : wattsSince (.exact lowercase) p.joulesPerCount (c.energy % counterModulus)
        c.nowMs (last.energy % counterModulus, last.nowMs) = none := by
      unfold wattsSince
      split
      · rfl
      · rw [if_pos (by omega)]
    simp [hnone, hbefore]

variable (lowercase) in
/-- What a call of a run returns, in exact arithmetic. -/
lemma mem_returned_iff (watts : ℚ) (hfresh : p.previous = none)
    (hmono : ∀ last ∈ earlier, last.energy ≤ c.energy) :
    watts ∈ p.returned (.exact lowercase) earlier c ↔
      c.answers ∧ ∃ last ∈ lastAnswered earlier, last.nowMs < c.nowMs ∧
        watts = p.averageOver last c ((c.energy - last.energy) % counterModulus) ∧
        watts < implausibleWatts := by
  unfold returned
  rw [after_eq _ _ hfresh]
  by_cases hc : c.answers
  · rw [read_of_answers _ _ hc]
    cases hlast : lastAnswered earlier with
    | none => simp
    | some last =>
      have hle := hmono last (lastAnswered_mem hlast)
      simp [hc, mem_wattsSince_exact hle]
  · rw [read_of_not_answers _ _ hc]
    simp [hc]

lemma averageOver_injective (hbefore : last.nowMs < c.nowMs) :
    Function.Injective (p.averageOver last c) := by
  intro a b h
  have hseconds : ((c.nowMs - last.nowMs : ℕ) : ℚ) / 1000 ≠ 0 := by
    have hlength : c.nowMs - last.nowMs ≠ 0 := by omega
    simp [hlength]
  have hcount := mul_left_cancel₀ p.joulesPerCount_pos.ne' ((div_left_inj' hseconds).mp h)
  exact_mod_cast hcount

end Exact

/-- A call gives the true average or withholds it, unless the counter wrapped since the last
successful read and left a plausible figure. -/
theorem returned_isTrue_iff (lowercase : String → String) {boot : Executor} {p : PackagePower}
    (hp : new boot = some p) (earlier : List Call) (c : Call)
    (hmono : (earlier ++ [c]).Pairwise fun a b => a.energy ≤ b.energy) :
    (∀ watts ∈ p.returned (.exact lowercase) earlier c, p.IsTrue earlier c watts) ↔
      ¬p.Slips earlier c := by
  have hle : ∀ last ∈ earlier, last.energy ≤ c.energy := by
    intro last hlast
    exact (List.pairwise_append.mp hmono).2.2 last hlast c (List.mem_singleton_self c)
  have hreturned := fun watts => mem_returned_iff lowercase watts (previous_of_new hp) hle
  constructor
  · rintro htrue ⟨hanswers, last, hlast, hbefore, hwrapped, hplausible⟩
    obtain ⟨last', hlast', -, heq⟩ :=
      htrue _ ((hreturned _).mpr ⟨hanswers, last, hlast, hbefore, rfl, hplausible⟩)
    obtain rfl : last = last' := Option.some.inj (hlast.symm.trans hlast')
    have hcount := averageOver_injective hbefore heq
    have hlt := Nat.mod_lt (c.energy - last.energy) (by decide : 0 < counterModulus)
    omega
  · intro hslips watts hwatts
    obtain ⟨hanswers, last, hlast, hbefore, rfl, hplausible⟩ := (hreturned watts).mp hwatts
    refine ⟨last, hlast, hbefore, ?_⟩
    by_cases hwrapped : counterModulus ≤ c.energy - last.energy
    · exact absurd ⟨hanswers, last, hlast, hbefore, hwrapped, hplausible⟩ hslips
    · rw [Nat.mod_eq_of_lt (not_le.mp hwrapped)]

/-- A call on a register that shows the count of energy. -/
def reading (energy nowMs : ℕ) : Call where
  execute := fun _ _ _ => some [(energy % counterModulus).toUInt64]
  nowMs := nowMs
  energy := energy
  exposes := by
    intro raw hraw
    obtain rfl := Option.some.inj hraw
    have hlt := Nat.mod_lt energy (by decide : 0 < counterModulus)
    rw [counterModulus] at hlt ⊢
    simp

/-- The unit register of a Zen part, whose exponent is sixteen. -/
def zen : Executor := fun _ _ _ => some [(16 : UInt64) <<< 8]

def zenPower : PackagePower := ⟨1 / 65536, none, by norm_num⟩

lemma new_zen : new zen = some zenPower := by
  have hunit : energyUnitJoules ((16 : UInt64) <<< 8) = 1 / 65536 := by decide +kernel
  simp [new, zen, readMsr, hunit, zenPower]

/-- Ten watts for a second. -/
theorem zen_ten_watts : zenPower.returned (.exact id) [reading 0 0] (reading 655360 1000) =
    some 10 ∧ zenPower.IsTrue [reading 0 0] (reading 655360 1000) 10 := by
  have hreturned : zenPower.returned (.exact id) [reading 0 0] (reading 655360 1000) =
      some 10 := by decide +kernel
  have hmono : ([reading 0 0] ++ [reading 655360 1000]).Pairwise
      fun a b => a.energy ≤ b.energy := by simp [reading]
  refine ⟨hreturned, (returned_isTrue_iff id new_zen _ _ hmono).mpr ?_ 10 hreturned⟩
  rintro ⟨-, last, hlast, -, hwrapped, -⟩
  simp only [reading, counterModulus] at hwrapped
  omega

/-- Fifteen watts over a sleep of two hours read as less than six. -/
theorem zen_long_sleep : new zen = some zenPower ∧
    ∃ watts, zenPower.returned (.exact id) [reading 0 0] (reading 7077888000 7200000) =
      some watts ∧ ¬zenPower.IsTrue [reading 0 0] (reading 7077888000 7200000) watts := by
  refine ⟨new_zen, 42464 / 7200, by decide +kernel, ?_⟩
  rintro ⟨last, hlast, -, heq⟩
  have hfirst : (reading 0 0).answers = true := by decide +kernel
  obtain rfl : reading 0 0 = last := by simpa [lastAnswered, hfirst] using hlast
  norm_num [averageOver, zenPower, reading] at heq

end PackagePower
end LoadBear
