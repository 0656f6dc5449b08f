import LoadBear.Verdict
import Mathlib.Data.List.MinMax

/-!
# The tier

One window is classified from its verdicts and its stall, the worse of the two
winning. The tracker applies the sustained requirement to a history of windows,
which it keeps for twice the longer of its two durations.
-/
namespace LoadBear

inductive Tier
  | easy
  | braced
  | strained
  deriving DecidableEq, Repr

namespace Tier

def rank : Tier → ℕ
  | easy => 0
  | braced => 1
  | strained => 2

lemma rank_injective : Function.Injective rank := by
  intro a b h
  cases a <;> cases b <;> first | rfl | cases h

instance : LinearOrder Tier := LinearOrder.lift' rank rank_injective

lemma easy_le (t : Tier) : easy ≤ t := by cases t <;> decide

lemma easy_lt_iff {t : Tier} : easy < t ↔ t ≠ easy := (easy_le t).lt_iff_ne.trans ne_comm

@[simp] lemma not_lt_easy (t : Tier) : ¬t < easy := (easy_le t).not_gt

end Tier

def stallBraced (rt : Runtime) : ℚ := rt.f32 (2 / 5)

def stallStrained (rt : Runtime) : ℚ := rt.f32 (4 / 5)

/-- Why the tier is what it is. -/
inductive TierReason
  | clear
  | verdict (kind : VerdictKind)
  | stall (resource : Resource)
  deriving DecidableEq, Repr

structure Assessment where
  tier : Tier
  reason : TierReason
  deriving DecidableEq, Repr

/-- The shown assessment, with the reason of a window that agrees with its tier. -/
def Assessment.refresh (shown latest : Assessment) : Assessment :=
  if latest.tier = shown.tier then { shown with reason := latest.reason } else shown

@[simp] theorem Assessment.refresh_tier (shown latest : Assessment) :
    (shown.refresh latest).tier = shown.tier := by
  unfold refresh
  split_ifs <;> rfl

/-- The most severe verdict, the last of several. -/
def worstVerdict (verdicts : List Verdict) : Option Verdict :=
  verdicts.reverse.argmax fun v => v.severity.rank

def Severity.tier : Severity → Tier
  | ok => .easy
  | degraded => .braced
  | outOfSpec => .strained

def stallTier (rt : Runtime) (level : ℚ) : Tier :=
  if stallStrained rt ≤ level then .strained
  else if stallBraced rt ≤ level then .braced
  else .easy

/-- The judgement about one window, the worst input winning. -/
def classify (rt : Runtime) (verdicts : List Verdict) (stall : StallSignal) : Assessment :=
  let fromVerdicts := ((worstVerdict verdicts).map fun v => v.severity.tier).getD .easy
  let (worstResource, worstStall) := stall.worst
  let fromStall := stallTier rt worstStall
  if fromStall ≤ fromVerdicts then
    { tier := fromVerdicts
      reason :=
        match worstVerdict verdicts with
        | some v => if .easy < fromVerdicts then .verdict v.kind else .clear
        | none => .clear }
  else { tier := fromStall, reason := .stall worstResource }

def escalateMs : ℕ := 1500

def settleMs : ℕ := 6000

/-- The tier shown, and the windows it rests on. -/
structure TierTracker where
  escalateMs : ℕ
  settleMs : ℕ
  current : Assessment
  latest : Assessment
  history : List (ℕ × Assessment)
  deriving DecidableEq, Repr

namespace TierTracker

def new (escalateMs settleMs : ℕ) : TierTracker :=
  { escalateMs := escalateMs
    settleMs := settleMs
    current := ⟨.easy, .clear⟩
    latest := ⟨.easy, .clear⟩
    history := [] }

def default : TierTracker := new LoadBear.escalateMs LoadBear.settleMs

/-- How long a window is kept. -/
def retention (t : TierTracker) : ℕ := min (2 * max t.escalateMs t.settleMs) u64Max

/-- The earliest judgement of the tier that all of them support: the least of them
when a worse one is sought, the greatest otherwise. -/
def agreed (worst : Bool) (judgements : List Assessment) : Option Assessment :=
  if worst then judgements.argmin Assessment.tier else judgements.argmax Assessment.tier

/-- The worst or best tier that every window since `nowMs - windowMs` agrees on, or
`none` when the history does not reach back that far. -/
def supportedByAll (t : TierTracker) (nowMs windowMs : ℕ) (worst : Bool) : Option Assessment :=
  let cutoff := nowMs - windowMs
  match t.history with
  | [] => none
  | (oldest, _) :: _ =>
    if cutoff < oldest then none
    else agreed worst ((t.history.filter (cutoff ≤ ·.1)).map Prod.snd)

/-- The tracker with one more window recorded and the outdated ones pruned. -/
def record (t : TierTracker) (assessment : Assessment) (nowMs : ℕ) : TierTracker :=
  let horizon := nowMs - t.retention
  { t with
    latest := assessment
    history := (t.history ++ [(nowMs, assessment)]).dropWhile (·.1 < horizon) }

/-- The tier that must be adopted after a window was recorded, if any. -/
def move (t : TierTracker) (nowMs : ℕ) : Option Assessment :=
  match (t.supportedByAll nowMs t.escalateMs true).filter (t.current.tier < ·.tier) with
  | some worse => some worse
  | none => (t.supportedByAll nowMs t.settleMs false).filter (·.tier < t.current.tier)

/-- Record one window's judgement. The tier to show is the `current` one. -/
def observe (t : TierTracker) (assessment : Assessment) (nowMs : ℕ) : TierTracker :=
  let t := t.record assessment nowMs
  match t.move nowMs with
  | some adopted => { t with current := adopted }
  | none => { t with current := t.current.refresh assessment }

def isSettling (t : TierTracker) : Bool := t.latest.tier ≠ t.current.tier

end TierTracker
end LoadBear
