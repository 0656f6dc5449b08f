import LoadBear.Attribution
import LoadBear.TrackerRun

/-!
# The application loop

Each tick evaluates one reading, classifies it, feeds the tracker and publishes a
status: the shown tier, the verdicts of the tick and the reason for the tier.
-/
namespace LoadBear

open TimedHistory

/-- The derived `Debug` name. -/
def Tier.name : Tier → String
  | easy => "Easy"
  | braced => "Braced"
  | strained => "Strained"

/-- The remediation as a sentence naming the thing the user does. -/
def remediationText : Remediation → String
  | .stop => "Close it if you are not using it."
  | .reconfigureLimit => "Give it less memory in Docker Desktop settings, or in .wslconfig."
  | .addExclusion => "Add your project folder to its exclusion list so it stops scanning it."
  | .defer => "Pause it until you have finished what you are doing."
  | .changePowerState =>
    "Check the charger. An underpowered supply limits how hard the processor may work."
  | .physical => "Check the vents are clear and the fans are not blocked."

/-- A verdict kind as a person would say it. -/
def verdictTitle : VerdictKind → String
  | .belowBaseClock => "Running below the promised speed"
  | .throttling => "The processor is holding itself back"
  | .powerOutsideBand => "Power draw outside its rated range"
  | .powerBelowRating => "Not getting the power it is rated for"
  | .thermalHeadroomLow => "Close to the temperature limit"

/-- One clause naming what is happening, with no claim about how long for. -/
def describe : TierReason → String
  | .clear => "Nothing is waiting for a resource."
  | .verdict .belowBaseClock => "Running slower than the manufacturer promises."
  | .verdict .throttling => "The processor is holding itself back."
  | .verdict .powerOutsideBand => "Power draw outside its rated range."
  | .verdict .powerBelowRating => "The machine is not getting the power it is rated for."
  | .verdict .thermalHeadroomLow => "Close to the temperature limit."
  | .stall .cpu => "Work is queueing for a free processor."
  | .stall .memory => "Work is stopping to fetch memory from disk."
  | .stall .io => "Work is waiting on the disk."

def TierReason.isVerdict : TierReason → Bool
  | verdict _ => true
  | clear | stall _ => false

/-- Why the tier is what it is, as a sentence. A verdict has a card of its own, and
a tier that lags behind the window just measured says what is happening instead. -/
def reasonText (adopted latest : Assessment) (settled : Bool) : String :=
  if !settled ∧ adopted.reason = .clear ∧ latest.reason = .clear then "Starting up."
  else if latest.tier = adopted.tier ∧ adopted.reason.isVerdict then ""
  else if latest.tier ≠ adopted.tier then
    let moving := describe latest.reason
    if adopted.tier < latest.tier then moving ++ " Watching to see whether it holds."
    else moving ++ " Easing off."
  else describe adopted.reason

/-- The resource the contributor list is ranked by, as a bare word. -/
def driverWord (assessment : Assessment) : String :=
  match assessment.reason with
  | .clear => ""
  | .stall .memory => "memory"
  | .stall .io => "disk"
  | .stall .cpu | .verdict _ => "cpu"

/-- One verdict as the interface shows it. -/
structure VerdictView where
  kind : String
  severity : String
  detail : String
  basis : String
  cause : Option String
  action : Option String
  deriving DecidableEq, Repr

def verdictView (f : Finding) : VerdictView :=
  { kind := verdictTitle f.verdict.kind
    severity := f.verdict.severity.name
    detail := f.verdict.detail
    basis := f.verdict.basis
    cause := f.cause.map Cause.label
    action := f.remediation.map remediationText }

/-- What a tick publishes about the tier. -/
structure Status where
  tier : String
  verdicts : List VerdictView
  driver : String
  reason : String
  deriving DecidableEq, Repr

/-- One pass of the sampling loop: the reading it takes, and whether the sampling
window has filled. -/
structure Tick where
  reading : Reading
  settled : Bool

variable (rt : Runtime) (spec : Option CpuSpec)

/-- The judgement about the window just measured. -/
def judgement (tick : Tick) : Assessment :=
  classify rt (evaluate rt tick.reading spec) tick.reading.stall

/-- What the tracker is fed on a tick. -/
def observation (tick : Tick) : ℕ × Assessment :=
  (tick.reading.timestampMs, judgement rt spec tick)

/-- One pass of the loop, with the tracker it leaves and the status it publishes. -/
def sample (tracker : TierTracker) (tick : Tick) : TierTracker × Status :=
  let verdicts := evaluate rt tick.reading spec
  let tracker := tracker.observe (classify rt verdicts tick.reading.stall) tick.reading.timestampMs
  let assessment := tracker.current
  let findings := diagnose rt tick.reading verdicts
  (tracker,
    { tier := assessment.tier.name
      verdicts := findings.map verdictView
      driver := driverWord tracker.latest
      reason := reasonText assessment tracker.latest tick.settled })

/-- The tracker after the application has run through some ticks. -/
def trackerAfter (ticks : List Tick) : TierTracker :=
  ticks.foldl (fun tracker tick => (sample rt spec tracker tick).1) .default

/-- The status published on a tick, after the ticks before it. -/
def published (before : List Tick) (tick : Tick) : Status :=
  (sample rt spec (trackerAfter rt spec before) tick).2

variable {rt spec}

theorem trackerAfter_eq_run (ticks : List Tick) : trackerAfter rt spec ticks =
    (TierTracker.new escalateMs settleMs).run (ticks.map (observation rt spec)) := by
  rw [TierTracker.run, List.foldl_map]
  rfl

/-- The observations up to a tick of a run are well timed if those of the run are. -/
lemma wellTimed_upTo {ticks before after : List Tick} {tick : Tick}
    (hw : WellTimed (ticks.map (observation rt spec))) (hticks : ticks = before ++ tick :: after) :
    WellTimed (before.map (observation rt spec) ++ [observation rt spec tick]) :=
  hw.step (by rw [hticks, List.map_append, List.map_cons])

theorem published_tier (before : List Tick) (tick : Tick) :
    (published rt spec before tick).tier = (shownAfter escalateMs settleMs
      (before.map (observation rt spec) ++ [observation rt spec tick])).tier.name := by
  rw [shownAfter, TierTracker.run_concat, ← trackerAfter_eq_run]
  rfl

theorem published_reason (before : List Tick) (tick : Tick) :
    (published rt spec before tick).reason = reasonText
      (shownAfter escalateMs settleMs
        (before.map (observation rt spec) ++ [observation rt spec tick]))
      (judgement rt spec tick) tick.settled := by
  have hlatest := TierTracker.observe_latest (trackerAfter rt spec before)
    (judgement rt spec tick) tick.reading.timestampMs
  rw [shownAfter, TierTracker.run_concat, ← trackerAfter_eq_run, ← hlatest]
  rfl

theorem published_verdicts_eq_nil_iff (before : List Tick) (tick : Tick) :
    (published rt spec before tick).verdicts = [] ↔ evaluate rt tick.reading spec = [] := by
  have hfindings : (published rt spec before tick).verdicts =
      (diagnose rt tick.reading (evaluate rt tick.reading spec)).map verdictView := rfl
  rw [hfindings, diagnose, List.map_map, List.map_eq_nil_iff]

section Texts

lemma Tier.name_injective : Function.Injective Tier.name := by
  intro a b h
  cases a <;> cases b <;> first | rfl | (revert h; decide)

lemma describe_ne_empty (reason : TierReason) : describe reason ≠ "" := by
  rcases reason with _ | kind | resource
  · decide
  · cases kind <;> decide
  · cases resource <;> decide

lemma describe_eq_clear_iff (reason : TierReason) :
    describe reason = describe .clear ↔ reason = .clear := by
  rcases reason with _ | kind | resource
  · simp
  · cases kind <;> decide
  · cases resource <;> decide

/-- A sentence about a moving state is not the bare calm one. -/
lemma describe_append_ne_clear (reason : TierReason) :
    describe reason ++ " Watching to see whether it holds." ≠ describe .clear ∧
      describe reason ++ " Easing off." ≠ describe .clear := by
  rcases reason with _ | kind | resource
  · decide
  · cases kind <;> decide
  · cases resource <;> decide

/-- The sentence is suppressed exactly for a verdict that the window agrees with. -/
theorem reasonText_eq_empty_iff (adopted latest : Assessment) (settled : Bool) :
    reasonText adopted latest settled = "" ↔
      latest.tier = adopted.tier ∧ adopted.reason.isVerdict := by
  unfold reasonText
  split_ifs with hstart hverdict hlag hup
  · obtain ⟨-, hclear, -⟩ := hstart
    simp [hclear, TierReason.isVerdict]
  · simp [hverdict]
  · simp [hlag, describe_ne_empty]
  · simp [hlag, describe_ne_empty]
  · simp [describe_ne_empty, hverdict]

/-- Calm with nothing added is asserted only of a window that agrees with a clear tier. -/
theorem eq_of_reasonText_eq_clear {adopted latest : Assessment} {settled : Bool}
    (h : reasonText adopted latest settled = describe .clear) :
    latest.tier = adopted.tier ∧ adopted.reason = .clear := by
  unfold reasonText at h
  split_ifs at h with hstart hverdict hlag hup
  · exact absurd h (by decide)
  · exact absurd h.symm (describe_ne_empty _)
  · exact absurd h (describe_append_ne_clear _).1
  · exact absurd h (describe_append_ne_clear _).2
  · exact ⟨not_not.mp hlag, (describe_eq_clear_iff _).mp h⟩

end Texts
end LoadBear
