import LoadBear.DriverCalls

/-!
# What the helper does with its handles

Whatever the library and Windows answer, each function is executed on an open executor that holds
the module it belongs to: the registers of a die only under the guard, a core's only while the
thread is seen on that core, and the table only in its verified layout and brought up to date by
the call before. At the end no handle is left that could be closed, and the thread may run where
it could at first.
-/
namespace LoadBear.Driver

open Dialogue Monitor Pci

/-- What an open executor holds: its library, the module loaded into it, whether its table was
found to have the verified layout, and whether the last call brought the table up to date. -/
structure Slot where
  lib : Library
  loaded : Option Module
  verified : Bool
  fresh : Bool

/-- The executors open under their handles, the guard, and where the thread may run and was last
seen to. -/
structure World where
  slot : Handle → Option Slot
  guard : Option PciGuard
  affinity : UInt64
  landed : Option UInt32

/-- A call on an executor, and what came of it. -/
def Slot.executed (slot : Slot) (name : String) (words : Option (List UInt64)) : Slot :=
  { slot with
    verified :=
      if name = "ioctl_resolve_pm_table" then
        words.any fun resolved => resolved.head?.getD 0 = pmTableRenoir
      else slot.verified
    fresh := name = "ioctl_update_pm_table" ∧ words.isSome }

namespace World

def put (w : World) (handle : Handle) (slot : Option Slot) : World :=
  { w with slot := Function.update w.slot handle slot }

def advance (w : World) : (c : Call) → Answer c → World
  | .openExecutor lib, answer =>
    if answer.1 ≠ 0 then w else w.put answer.2 (some ⟨lib, none, false, false⟩)
  | .load handle blob, hr =>
    if hr ≠ 0 then w
    else w.put handle ((w.slot handle).map fun slot => { slot with loaded := some blob })
  | .execute handle name _ _, answer =>
    w.put handle ((w.slot handle).map (·.executed name (PawnIo.outcome name answer).toOption))
  | .close handle, _ => w.put handle none
  | .acquirePci, guard => { w with guard := some guard }
  | .dropPci _, _ => { w with guard := none }
  | .setThreadAffinityMask mask, previous =>
    if previous = 0 then { w with landed := none }
    else { w with affinity := mask, landed := none }
  | .currentProcessorNumber, number => { w with landed := some number }
  | _, _ => w

end World

/-- The functions that may be executed, and when. -/
inductive Serves (w : World) (slot : Slot) : String → List UInt64 → Prop
  | die (address : UInt64) (hloaded : slot.loaded = some .amd17) (hguard : w.guard.isSome) :
    Serves w slot "ioctl_read_smn" [address]
  | core (i : ℕ) (hi : i ≤ maxAffinityIndex) (hloaded : slot.loaded = some .intelMsr)
    (hpinned : w.affinity = (1 : UInt64) <<< i.toUInt64) (hlanded : ∃ n ∈ w.landed, n.toNat = i) :
    Serves w slot "ioctl_read_msr" [msrThermStatus]
  | package (msr : UInt64) (hmsr : msr = msrTemperatureTarget ∨ msr = msrPackageThermStatus)
    (hloaded : slot.loaded = some .intelMsr) : Serves w slot "ioctl_read_msr" [msr]
  | power (msr : UInt64) (hmsr : msr = msrRaplPowerUnit ∨ msr = msrPkgEnergyStatus)
    (hloaded : slot.loaded = some .amd17 ∨ slot.loaded = some .intelMsr) :
    Serves w slot "ioctl_read_msr" [msr]
  | resolve (hloaded : slot.loaded = some .ryzenSmu) :
    Serves w slot "ioctl_resolve_pm_table" []
  | update (hloaded : slot.loaded = some .ryzenSmu) (hverified : slot.verified) :
    Serves w slot "ioctl_update_pm_table" []
  | table (hloaded : slot.loaded = some .ryzenSmu) (hverified : slot.verified)
    (hfresh : slot.fresh) : Serves w slot "ioctl_read_pm_table" []

/-- A module is loaded once, functions are executed as they may be, and only what is open is
closed. -/
def Allows (w : World) : Call → Prop
  | .load handle _ => ∃ slot ∈ w.slot handle, slot.loaded = none
  | .execute handle name input _ => ∃ slot ∈ w.slot handle, Serves w slot name input
  | .close handle => (w.slot handle).isSome
  | .acquirePci => w.guard = none
  | .dropPci guard => w.guard = some guard
  | _ => True

/-- An opened handle is none of those still open, and Windows answers a change of affinity with
the mask it replaced, or refuses it. It does not refuse the one the thread had at first. -/
def Possible (home : UInt64) (w : World) : (c : Call) → Answer c → Prop
  | .openExecutor _, answer => answer.1 = 0 → w.slot answer.2 = none
  | .setThreadAffinityMask mask, previous =>
    (previous = 0 ∨ previous = w.affinity) ∧ (mask = home → previous ≠ 0)
  | _, _ => True

def monitor (home : UInt64) : Monitor World Call Answer :=
  ⟨Allows, Possible home, World.advance⟩

section Monitor
variable (home : UInt64) (w : World)

@[simp] lemma monitor_allowed (c : Call) : (monitor home).allowed w c = Allows w c := rfl

@[simp] lemma monitor_possible (c : Call) (answer : Answer c) :
    (monitor home).possible w c answer = Possible home w c answer := rfl

@[simp] lemma monitor_advance (c : Call) (answer : Answer c) :
    (monitor home).advance w c answer = w.advance c answer := rfl

end Monitor

namespace World

@[simp] lemma slot_put_self (w : World) (handle : Handle) (slot : Option Slot) :
    (w.put handle slot).slot handle = slot := Function.update_self ..

lemma slot_put_of_ne (w : World) {handle other : Handle} (slot : Option Slot)
    (h : other ≠ handle) : (w.put handle slot).slot other = w.slot other :=
  Function.update_of_ne h ..

@[simp] lemma put_slot (w : World) (handle : Handle) : w.put handle (w.slot handle) = w := by
  simp [put]

@[simp] lemma put_put (w : World) (handle : Handle) (slot slot' : Option Slot) :
    (w.put handle slot).put handle slot' = w.put handle slot' := by
  simp [put]

@[simp] lemma affinity_put (w : World) (handle : Handle) (slot : Option Slot) :
    (w.put handle slot).affinity = w.affinity := rfl

/-- Nothing is guarded, and the thread may run where it could at first. -/
structure AtHome (home : UInt64) (w : World) : Prop where
  guard : w.guard = none
  affinity : w.affinity = home
  landed : w.landed = none

lemma AtHome.put {home : UInt64} {w : World} (h : AtHome home w) (handle : Handle)
    (slot : Option Slot) : AtHome home (w.put handle slot) := ⟨h.guard, h.affinity, h.landed⟩

end World

/-- A handle that nothing closes: null, or of a library that does not export the function. -/
def Stray (handle : Handle) (slot : Slot) : Prop :=
  handle = 0 ∨ "pawnio_close" ∉ slot.lib.exports

/-- The executor is open and holds the module. -/
def Loaded (w : World) (pawn : PawnIo) (blob : Module) : Prop :=
  w.slot pawn.handle = some ⟨pawn.lib, some blob, false, false⟩

variable {home : UInt64} {w : World}

section Calls
variable {pawn : PawnIo}

lemma keeps_mapM_environment (vars : List String) :
    (monitor home).Keeps w (vars.mapM fun var => request (.environment var)) :=
  keeps_mapM fun _ _ => ⟨trivial, fun _ _ => rfl⟩

lemma keeps_firstLibrary (paths : List (List String)) :
    (monitor home).Keeps w (firstLibrary paths) := by
  induction paths with
  | nil => exact keeps_pure none
  | cons path paths ih =>
    have hload : (monitor home).Keeps w (request (.loadLibrary path)) :=
      ⟨trivial, fun _ _ => rfl⟩
    refine hload.bind fun lib => ?_
    cases lib with
    | none => exact ih
    | some lib => exact keeps_pure _

/-- Opening fails and leaves nothing behind, or opens a handle that was not open. -/
theorem meets_open {post : Except PawnIoError PawnIo → World → Prop}
    (herror : ∀ e, post (.error e) w)
    (hok : ∀ pawn : PawnIo, w.slot pawn.handle = none →
      post (.ok pawn) (w.put pawn.handle (some ⟨pawn.lib, none, false, false⟩))) :
    (monitor home).Meets w PawnIo.open post := by
  have hpaths : (monitor home).Keeps w candidatePaths :=
    (keeps_mapM_environment _).bind fun _ => keeps_pure _
  refine meets_bind.mpr (hpaths.meets fun paths => ?_)
  refine meets_bind.mpr ((keeps_firstLibrary paths).meets fun lib => ?_)
  cases lib with
  | none => exact herror _
  | some lib =>
    dsimp only
    split
    · refine meets_ask_bind.mpr ⟨trivial, fun answer hanswer => ?_⟩
      by_cases hr : answer.1 = 0
      · simpa [World.advance, hr] using hok ⟨lib, answer.2⟩ (hanswer hr)
      · simpa [World.advance, hr] using herror _
    · exact herror _

theorem meets_loadModule {post : Except PawnIoError Unit → World → Prop} {blob : Module}
    (hslot : w.slot pawn.handle = some ⟨pawn.lib, none, false, false⟩)
    (herror : ∀ e, post (.error e) w)
    (hok : post (.ok ()) (w.put pawn.handle (some ⟨pawn.lib, some blob, false, false⟩))) :
    (monitor home).Meets w (pawn.loadModule blob) post := by
  rw [PawnIo.loadModule]
  split
  · refine meets_ask_bind.mpr ⟨⟨_, hslot, rfl⟩, fun hr _ => ?_⟩
    by_cases hzero : hr = 0
    · simpa [World.advance, hslot, hzero] using hok
    · simpa [World.advance, hzero] using herror _
  · exact herror _

/-- A function that may be executed is, or the library has no way to. -/
theorem meets_execute {slot : Slot} {name : String} {input : List UInt64} {capacity : ℕ}
    {post : Except PawnIoError (List UInt64) → World → Prop}
    (hslot : w.slot pawn.handle = some slot) (hserves : Serves w slot name input)
    (herror : ∀ e, post (.error e) w)
    (hcall : ∀ r, post r (w.put pawn.handle (some (slot.executed name r.toOption)))) :
    (monitor home).Meets w (pawn.execute name input capacity) post := by
  rw [PawnIo.execute]
  split
  · exact herror _
  · split
    · refine meets_ask_bind.mpr ⟨⟨slot, hslot, hserves⟩, fun answer _ => ?_⟩
      simpa [World.advance, hslot] using hcall (PawnIo.outcome name answer)
    · exact herror _

/-- The handle is closed, unless it is one that nothing closes. -/
theorem meets_drop {slot : Slot} {post : Unit → World → Prop}
    (hslot : w.slot pawn.handle = some slot) (hlib : slot.lib = pawn.lib)
    (hkept : Stray pawn.handle slot → post () w)
    (hclosed : post () (w.put pawn.handle none)) :
    (monitor home).Meets w pawn.drop post := by
  rw [PawnIo.drop]
  split
  · rename_i h
    exact hkept (by rwa [Stray, hlib])
  · refine ⟨?_, fun _ _ => hclosed⟩
    simp [Allows, hslot]

/-- Reading a register leaves an executor as it was. -/
lemma keeps_execute {blob : Module} {name : String} {input : List UInt64} {capacity : ℕ}
    (hloaded : Loaded w pawn blob)
    (hserves : Serves w ⟨pawn.lib, some blob, false, false⟩ name input)
    (hresolve : name ≠ "ioctl_resolve_pm_table") (hupdate : name ≠ "ioctl_update_pm_table") :
    (monitor home).Keeps w (pawn.execute name input capacity) := by
  rw [Keeps]
  refine meets_execute hloaded hserves (fun _ => rfl) fun r => ?_
  rw [show Slot.executed _ name r.toOption = ⟨pawn.lib, some blob, false, false⟩ by
    simp [Slot.executed, hresolve, hupdate], ← hloaded, World.put_slot]

lemma keeps_readMsr {blob : Module} {msr : UInt64} (hloaded : Loaded w pawn blob)
    (hserves : Serves w ⟨pawn.lib, some blob, false, false⟩ "ioctl_read_msr" [msr]) :
    (monitor home).Keeps w (readMsr pawn msr) :=
  (keeps_execute hloaded hserves (by decide) (by decide)).bind fun _ => keeps_pure _

/-- What runs pinned finds the thread on the processor, and afterwards the thread may run where
it could before. -/
theorem meets_onProcessor {α : Type} {f : Talk α} {i : ℕ} {post : Option α → World → Prop}
    (hhome : w.AtHome home) (hnone : post none w)
    (hf : i ≤ maxAffinityIndex → ∀ n : UInt32, n.toNat = i →
      (monitor home).Keeps
        { w with affinity := (1 : UInt64) <<< i.toUInt64, landed := some n } f)
    (hsome : ∀ a, post (some a) w) :
    (monitor home).Meets w (onProcessor i f) post := by
  have hback : { w with affinity := home, landed := none } = w := by
    rw [← hhome.affinity, ← hhome.landed]
  rw [onProcessor]
  split
  · exact hnone
  rename_i hi
  refine meets_ask_bind.mpr ⟨trivial, fun previous hprevious => ?_⟩
  by_cases hzero : previous = 0
  · rw [if_pos hzero]
    simpa [World.advance, hzero, ← hhome.landed] using hnone
  rw [if_neg hzero]
  have hwas : previous = home := (hprevious.1.resolve_left hzero).trans hhome.affinity
  refine meets_ask_bind.mpr ⟨trivial, fun number _ => ?_⟩
  set pinned : World := { w with
    affinity := (1 : UInt64) <<< i.toUInt64
    landed := some number }
  have hrestore : ∀ r, post r w → (monitor home).Meets pinned
      (request (.setThreadAffinityMask previous) >>= fun _ => pure r) post := by
    intro r hr
    refine meets_ask_bind.mpr ⟨trivial, fun answer hanswer => ?_⟩
    have hanswer : answer ≠ 0 := hanswer.2 hwas
    simpa [World.advance, hanswer, hwas, hback, pinned] using hr
  have hadvance : (monitor home).advance ((monitor home).advance w
      (.setThreadAffinityMask ((1 : UInt64) <<< i.toUInt64)) previous) .currentProcessorNumber
      number = pinned := by
    simp [World.advance, hzero, pinned]
  rw [hadvance, whenLanded]
  split
  · rename_i hnumber
    refine meets_bind.mpr (meets_map.mpr ?_)
    have hlanded := hf (le_of_not_gt hi) number (of_decide_eq_true hnumber)
    exact hlanded.meets fun a => hrestore (some a) (hsome a)
  · exact hrestore none hnone

end Calls

section Reading
variable (rt : Runtime) {device : PawnIo}

lemma keeps_readCcds (hloaded : Loaded w device .amd17) (hguard : w.guard.isSome)
    (count ccd : ℕ) : (monitor home).Keeps w (readCcds rt device count ccd) := by
  induction count generalizing ccd with
  | zero => exact keeps_pure []
  | succ count ih =>
    rw [readCcds]
    refine (keeps_execute hloaded (.die _ rfl hguard) (by decide) (by decide)).bind fun out => ?_
    split
    · exact keeps_pure []
    · exact (ih (ccd + 1)).bind fun _ => keeps_pure _

lemma keeps_readDies (hloaded : Loaded w device .amd17) (hguard : w.guard.isSome) :
    (monitor home).Keeps w (readDies rt device) := by
  refine (keeps_execute hloaded (.die _ rfl hguard) (by decide) (by decide)).bind fun die => ?_
  cases die with
  | error e => exact keeps_pure _
  | ok die => exact (keeps_readCcds rt hloaded hguard _ _).bind fun _ => keeps_pure _

/-- The dies are read under the guard, which is dropped again. -/
lemma keeps_readAmdTemperature (hhome : w.AtHome home) (hloaded : Loaded w device .amd17) :
    (monitor home).Keeps w (readAmdTemperature rt device) := by
  refine meets_ask_bind.mpr ⟨hhome.guard, fun guard _ => ?_⟩
  have hguarded : (monitor home).Keeps { w with guard := some guard } (readDies rt device) :=
    keeps_readDies rt hloaded rfl
  refine meets_bind.mpr (hguarded.meets fun reading => ?_)
  refine meets_ask_bind.mpr ⟨rfl, fun _ _ => ?_⟩
  simp [World.advance, ← hhome.guard]

lemma keeps_readTjmax (hloaded : Loaded w device .intelMsr) :
    (monitor home).Keeps w (readTjmax device) :=
  (keeps_readMsr hloaded (.package _ (.inl rfl) rfl)).bind fun _ => keeps_pure _

lemma keeps_coreZone (hhome : w.AtHome home) (hloaded : Loaded w device .intelMsr) (tjmax : ℚ)
    (i : ℕ) : (monitor home).Keeps w (coreZone rt device tjmax i) := by
  have hpinned : (monitor home).Keeps w (onProcessor i (readMsr device msrThermStatus)) := by
    refine meets_onProcessor hhome rfl (fun hi n hn => ?_) fun _ => rfl
    exact keeps_readMsr hloaded (.core i hi rfl rfl ⟨n, rfl, hn⟩)
  exact hpinned.bind fun _ => keeps_pure _

lemma keeps_readIntelTemperature (hhome : w.AtHome home) (hloaded : Loaded w device .intelMsr)
    (n : ℕ) : (monitor home).Keeps w (readIntelTemperature rt device n) := by
  refine (keeps_readTjmax hloaded).bind fun tjmax => ?_
  cases tjmax with
  | none => exact keeps_pure _
  | some tjmax =>
    refine (keeps_readMsr hloaded (.package _ (.inr rfl) rfl)).bind fun package => ?_
    refine (keeps_mapM fun i _ => ?_).bind fun zones => keeps_pure _
    exact keeps_coreZone rt hhome hloaded tjmax i

end Reading

section PerCore

/-- The executor of the table is open and holds its module. -/
def Listed (w : World) (p : PerCoreTemperature) : Prop :=
  ∃ fresh, w.slot p.pawn.handle = some ⟨p.pawn.lib, some .ryzenSmu, p.supported, fresh⟩

/-- The layout is verified exactly if the executor is said to be supported. -/
lemma meets_check {pawn : PawnIo} {post : Except PawnIoError PerCoreTemperature → World → Prop}
    (herror : ∀ e slot, slot.lib = pawn.lib → post (.error e) (w.put pawn.handle (some slot)))
    (hok : ∀ p : PerCoreTemperature, p.pawn = pawn →
      post (.ok p) (w.put pawn.handle (some ⟨pawn.lib, some .ryzenSmu, p.supported, false⟩))) :
    (monitor home).Meets (w.put pawn.handle (some ⟨pawn.lib, none, false, false⟩))
      (PerCoreTemperature.check pawn) post := by
  refine meets_bind.mpr (meets_loadModule (World.slot_put_self ..) ?_ ?_)
  · exact fun e => herror e _ rfl
  dsimp only
  rw [World.put_put, meets_bind]
  refine meets_execute (World.slot_put_self ..) (.resolve rfl) (fun e => herror e _ rfl) ?_
  intro r
  rw [World.put_put]
  cases r with
  | error e => exact herror e _ rfl
  | ok resolved =>
    simpa [Slot.executed, Except.toOption] using
      hok ⟨pawn, resolved.head?.getD 0 = pmTableRenoir⟩ rfl

/-- An executor that was opened is dropped again, and at most a stray is left. -/
lemma meets_drop_opened {pawn : PawnIo} {slot : Slot} {post : Unit → World → Prop}
    (hfree : w.slot pawn.handle = none) (hlib : slot.lib = pawn.lib) (hclosed : post () w)
    (hstray : ∀ handle slot, w.slot handle = none → Stray handle slot →
      post () (w.put handle (some slot))) :
    (monitor home).Meets (w.put pawn.handle (some slot)) pawn.drop post := by
  refine meets_drop (World.slot_put_self ..) hlib (hstray _ _ hfree) ?_
  rwa [World.put_put, ← hfree, World.put_slot]

lemma meets_new {post : Except PawnIoError PerCoreTemperature → World → Prop}
    (herror : ∀ e, post (.error e) w)
    (hstray : ∀ e handle slot, w.slot handle = none → Stray handle slot →
      post (.error e) (w.put handle (some slot)))
    (hok : ∀ p : PerCoreTemperature, w.slot p.pawn.handle = none →
      post (.ok p) (w.put p.pawn.handle
        (some ⟨p.pawn.lib, some .ryzenSmu, p.supported, false⟩))) :
    (monitor home).Meets w PerCoreTemperature.new post := by
  refine meets_bind.mpr (meets_open herror fun pawn hfree => ?_)
  refine meets_bind.mpr (meets_check (fun e slot hlib => ?_) fun p hp => ?_)
  · exact meets_bind.mpr (meets_drop_opened hfree hlib (herror e) (hstray e))
  · subst hp
    exact hok p hfree

/-- The executor is one of its own, or it is dropped again and at most a stray is left. -/
theorem meets_openPerCore {post : Option PerCoreTemperature → World → Prop}
    (hnone : post none w)
    (hstray : ∀ handle slot, w.slot handle = none → Stray handle slot →
      post none (w.put handle (some slot)))
    (hsome : ∀ p : PerCoreTemperature, w.slot p.pawn.handle = none →
      post (some p) (w.put p.pawn.handle
        (some ⟨p.pawn.lib, some .ryzenSmu, p.supported, false⟩))) :
    (monitor home).Meets w WindowsTemperature.openPerCore post := by
  refine meets_bind.mpr (meets_new (fun _ => hnone) (fun _ => hstray) fun p hfree => ?_)
  dsimp only
  split
  · exact hsome p hfree
  · exact meets_bind.mpr (meets_drop_opened hfree rfl hnone hstray)

/-- The table is read right after it was brought up to date, and the executor stays open. -/
theorem meets_readTable {p : PerCoreTemperature} {n : ℕ} {post : List F32 → World → Prop}
    (hlisted : Listed w p) (hsame : ∀ values, post values w)
    (hpost : ∀ values fresh, post values
      (w.put p.pawn.handle (some ⟨p.pawn.lib, some .ryzenSmu, p.supported, fresh⟩))) :
    (monitor home).Meets w (p.read n) post := by
  obtain ⟨fresh, hslot⟩ := hlisted
  rw [PerCoreTemperature.read]
  split
  · exact hsame []
  rename_i hsupported
  have hverified : p.supported = true := by simpa using hsupported
  rw [meets_bind]
  refine meets_execute hslot (.update rfl hverified) (fun _ => hsame []) fun r => ?_
  cases r with
  | error e => exact hpost [] _
  | ok words =>
    dsimp only
    rw [meets_bind]
    refine meets_execute (World.slot_put_self ..) (.table rfl hverified ?_)
      (fun e => hpost [] _) fun r => ?_
    · simp [Slot.executed, Except.toOption]
    rw [World.put_put]
    cases r with
    | error e => exact hpost [] _
    | ok words => exact hpost _ _

end PerCore

section Source
variable (rt : Runtime)

/-- No handle is left that could be closed. -/
structure Released (home : UInt64) (w : World) : Prop where
  stray : ∀ handle, ∀ slot ∈ w.slot handle, Stray handle slot
  atHome : w.AtHome home

/-- What is open is what the source holds, each executor with its module. -/
structure Owns (home : UInt64) (t : WindowsTemperature) (w : World) : Prop where
  device : ∀ d ∈ t.device, ∃ blob ∈ moduleOf t.vendor, Loaded w d blob
  perCore : ∀ p ∈ t.perCore, Listed w p
  held : ∀ handle, ∀ slot ∈ w.slot handle, Stray handle slot ∨
    (∃ d ∈ t.device, d.handle = handle) ∨ ∃ p ∈ t.perCore, p.pawn.handle = handle
  atHome : w.AtHome home

lemma Released.put {handle : Handle} {slot : Slot} (h : Released home w)
    (hstray : Stray handle slot) : Released home (w.put handle (some slot)) := by
  refine ⟨fun other slot' hslot => ?_, h.atHome.put ..⟩
  by_cases hother : other = handle
  · subst hother
    obtain rfl : slot = slot' := by simpa using hslot
    exact hstray
  · rw [World.slot_put_of_ne _ _ hother] at hslot
    exact h.stray other slot' hslot

lemma Released.owns {cores : ℕ} {vendor : Vendor} {reason : String} {remedy : Remedy}
    (h : Released home w) : Owns home (.absent cores vendor reason remedy) w where
  device := by simp [WindowsTemperature.absent]
  perCore := by simp [WindowsTemperature.absent]
  held handle slot hslot := .inl (h.stray handle slot hslot)
  atHome := h.atHome

/-- With the device open, whatever happens to the executor of the table. -/
lemma Released.owns_device {d : PawnIo} {blob : Module} {t : WindowsTemperature}
    (h : Released home w) (hblob : moduleOf t.vendor = some blob)
    (hdevice : t.device = some d) (hperCore : t.perCore = none) :
    Owns home t (w.put d.handle (some ⟨d.lib, some blob, false, false⟩)) where
  device := by
    simpa [hdevice, Loaded] using hblob
  perCore := by simp [hperCore]
  held handle slot hslot := by
    by_cases hother : handle = d.handle
    · exact .inr (.inl ⟨d, hdevice, hother.symm⟩)
    · rw [World.slot_put_of_ne _ _ hother] at hslot
      exact .inl (h.stray handle slot hslot)
  atHome := h.atHome.put ..

/-- A stray beside it changes nothing. -/
lemma Owns.put_stray {t : WindowsTemperature} {handle : Handle} {slot : Slot}
    (h : Owns home t w) (hfree : w.slot handle = none) (hstray : Stray handle slot) :
    Owns home t (w.put handle (some slot)) := by
  have hother : ∀ other, w.slot other ≠ none → (w.put handle (some slot)).slot other =
      w.slot other := by
    intro other hopen
    refine World.slot_put_of_ne _ _ ?_
    rintro rfl
    exact hopen hfree
  refine ⟨fun d hd => ?_, fun p hp => ?_, fun other slot' hslot => ?_, h.atHome.put ..⟩
  · obtain ⟨blob, hblob, hloaded⟩ := h.device d hd
    exact ⟨blob, hblob, (hother _ (by rw [hloaded]; simp)).trans hloaded⟩
  · obtain ⟨fresh, hlisted⟩ := h.perCore p hp
    exact ⟨fresh, (hother _ (by rw [hlisted]; simp)).trans hlisted⟩
  · by_cases hhandle : other = handle
    · subst hhandle
      obtain rfl : slot = slot' := by simpa using hslot
      exact .inl hstray
    · rw [World.slot_put_of_ne _ _ hhandle] at hslot
      exact h.held other slot' hslot

/-- The executor of the table beside the device. -/
lemma Owns.put_perCore {t : WindowsTemperature} {p : PerCoreTemperature} {fresh : Bool}
    (h : Owns home { t with perCore := none } w) (hfree : w.slot p.pawn.handle = none) :
    Owns home { t with perCore := some p }
      (w.put p.pawn.handle (some ⟨p.pawn.lib, some .ryzenSmu, p.supported, fresh⟩)) := by
  refine ⟨fun d hd => ?_, ?_, fun other slot' hslot => ?_, h.atHome.put ..⟩
  · obtain ⟨blob, hblob, hloaded⟩ := h.device d hd
    refine ⟨blob, hblob, ?_⟩
    rw [Loaded, World.slot_put_of_ne]
    · exact hloaded
    · rintro heq
      rw [Loaded, heq, hfree] at hloaded
      cases hloaded
  · rintro q ⟨⟩
    exact ⟨fresh, World.slot_put_self ..⟩
  · by_cases hhandle : other = p.pawn.handle
    · exact .inr (.inr ⟨p, rfl, hhandle.symm⟩)
    · rw [World.slot_put_of_ne _ _ hhandle] at hslot
      exact (h.held other slot' hslot).imp_right fun h => h.imp_right fun h => absurd h (by simp)

lemma keeps_processors : (monitor home).Keeps w WindowsTemperature.processors := by
  refine meets_ask_bind.mpr ⟨trivial, fun n _ => ?_⟩
  cases n with
  | some n => exact keeps_pure n
  | none => exact meets_ask_bind.mpr ⟨trivial, fun n _ => keeps_pure _⟩

/-- A source is prepared with its handles, or without any and with nothing left open. -/
theorem meets_newSource (key : Option CpuKey) (h : Released home w) :
    (monitor home).Meets w (WindowsTemperature.new key)
      fun t u => t.power = none ∧ Owns home t u := by
  refine meets_bind.mpr (keeps_processors.meets fun cores => ?_)
  refine meets_bind.mpr (meets_open (fun e => ?_) fun d hfree => ?_)
  · cases e <;> exact ⟨rfl, h.owns⟩
  dsimp only
  split
  · refine meets_bind.mpr (meets_drop_opened hfree rfl ⟨rfl, h.owns⟩ fun _ _ _ hstray => ?_)
    exact ⟨rfl, (h.put hstray).owns⟩
  rename_i blob hblob
  rw [meets_bind]
  refine meets_loadModule (World.slot_put_self ..) (fun e => ?_) ?_
  · refine meets_bind.mpr (meets_drop_opened hfree rfl ⟨rfl, h.owns⟩ fun _ _ _ hstray => ?_)
    exact ⟨rfl, (h.put hstray).owns⟩
  rw [World.put_put]
  dsimp only
  have howns : Owns home
      ⟨some d, none, none, cores, .available, (key.map CpuKey.vendor).getD .other⟩
      (w.put d.handle (some ⟨d.lib, some blob, false, false⟩)) := h.owns_device hblob rfl rfl
  split
  · rw [meets_bind]
    refine meets_openPerCore ⟨rfl, howns⟩ (fun _ _ hfree hstray => ?_) fun p hfree => ?_
    · exact ⟨rfl, howns.put_stray hfree hstray⟩
    · exact ⟨rfl, Owns.put_perCore (t := ⟨some d, none, none, cores, .available, _⟩) howns hfree⟩
  · exact ⟨rfl, howns⟩

end Source

section Passes
variable (rt : Runtime) {t : WindowsTemperature}

lemma moduleOf_ne_ryzenSmu (vendor : Vendor) : moduleOf vendor ≠ some .ryzenSmu := by
  cases vendor <;> simp [moduleOf]

/-- The device and the table have an executor each. -/
lemma Owns.handle_ne (h : Owns home t w) {d : PawnIo} {p : PerCoreTemperature}
    (hd : d ∈ t.device) (hp : p ∈ t.perCore) : d.handle ≠ p.pawn.handle := by
  intro hsame
  obtain ⟨blob, hblob, hloaded⟩ := h.device d hd
  obtain ⟨fresh, hlisted⟩ := h.perCore p hp
  rw [Loaded, hsame, hlisted] at hloaded
  have hryzen : Module.ryzenSmu = blob := by simpa using congrArg (·.map Slot.loaded) hloaded
  exact moduleOf_ne_ryzenSmu _ (hryzen ▸ hblob)

/-- The table keeps its executor, whatever the last call on it was. -/
lemma Owns.refresh (h : Owns home t w) {p : PerCoreTemperature} (hp : p ∈ t.perCore)
    (fresh : Bool) : Owns home t
      (w.put p.pawn.handle (some ⟨p.pawn.lib, some .ryzenSmu, p.supported, fresh⟩)) := by
  refine ⟨fun d hd => ?_, fun q hq => ?_, fun other slot hslot => ?_, h.atHome.put ..⟩
  · obtain ⟨blob, hblob, hloaded⟩ := h.device d hd
    exact ⟨blob, hblob, (World.slot_put_of_ne _ _ (h.handle_ne hd hp)).trans hloaded⟩
  · obtain rfl := Option.mem_unique hp hq
    exact ⟨fresh, World.slot_put_self ..⟩
  · by_cases hhandle : other = p.pawn.handle
    · exact .inr (.inr ⟨p, hp, hhandle.symm⟩)
    · rw [World.slot_put_of_ne _ _ hhandle] at hslot
      exact h.held other slot hslot

lemma meets_readPerCore (h : Owns home t w) :
    (monitor home).Meets w t.readPerCore fun _ u => Owns home t u := by
  rw [WindowsTemperature.readPerCore]
  split
  · exact h
  rename_i p hp
  exact meets_bind.mpr <|
    meets_readTable (h.perCore p hp) (fun _ => h) fun _ fresh => h.refresh hp fresh

/-- A reading leaves the source with the handles it had. -/
theorem meets_read (h : Owns home t w) :
    (monitor home).Meets w (t.read rt) fun _ u => Owns home t u := by
  rw [WindowsTemperature.read]
  split
  · exact h
  rename_i d hd
  obtain ⟨blob, hblob, hloaded⟩ := h.device d hd
  split
  · rename_i hvendor
    obtain rfl : Module.amd17 = blob := by simpa [moduleOf, hvendor] using hblob
    refine meets_bind.mpr ((keeps_readAmdTemperature rt h.atHome hloaded).meets fun _ => ?_)
    exact meets_bind.mpr (meets_readPerCore h)
  · rename_i hvendor
    obtain rfl : Module.intelMsr = blob := by simpa [moduleOf, hvendor] using hblob
    exact (keeps_readIntelTemperature rt h.atHome hloaded _).meets fun _ => h
  · exact h

/-- The power registers are read by whichever module the device holds. -/
lemma keeps_readPowerMsr (h : Owns home t w) {d : PawnIo} (hd : d ∈ t.device) {msr : UInt64}
    (hmsr : msr = msrRaplPowerUnit ∨ msr = msrPkgEnergyStatus) :
    (monitor home).Keeps w (readMsr d msr) := by
  obtain ⟨blob, hblob, hloaded⟩ := h.device d hd
  refine keeps_readMsr hloaded (.power msr hmsr ?_)
  cases hvendor : t.vendor <;> simp_all [moduleOf]

lemma keeps_lazyPower (h : Owns home t w) {d : PawnIo} (hd : d ∈ t.device) :
    (monitor home).Keeps w (t.lazyPower d) := by
  rw [WindowsTemperature.lazyPower]
  split
  · exact keeps_pure _
  · exact (keeps_readPowerMsr h hd (.inl rfl)).bind fun _ => keeps_pure _

lemma meets_packageWatts (h : Owns home t w) (nowMs : ℕ) :
    (monitor home).Meets w (t.packageWatts rt nowMs) fun r u => Owns home r.2 u := by
  have hwith : ∀ power, Owns home { t with power := power } w := fun power =>
    ⟨h.device, h.perCore, h.held, h.atHome⟩
  rw [WindowsTemperature.packageWatts]
  split
  · exact h
  rename_i d hd
  refine meets_bind.mpr ((keeps_lazyPower h hd).meets fun power => ?_)
  cases power with
  | none => exact hwith none
  | some p =>
    have hpower : (monitor home).Keeps w (readPower rt d p nowMs) :=
      (keeps_readPowerMsr h hd (.inr rfl)).bind fun _ => keeps_pure _
    exact meets_bind.mpr (hpower.meets fun r => hwith _)

lemma meets_tjmaxC (h : Owns home t w) : (monitor home).Keeps w t.tjmaxC := by
  rw [WindowsTemperature.tjmaxC]
  split
  · exact keeps_pure none
  rename_i d hd
  obtain ⟨blob, hblob, hloaded⟩ := h.device d hd
  split
  · rename_i hvendor
    obtain rfl : Module.intelMsr = blob := by simpa [moduleOf, hvendor] using hblob
    exact (keeps_readTjmax hloaded).bind fun _ => keeps_pure _
  · exact keeps_pure none
  · exact keeps_pure none

/-- A pass keeps the handles, and the next one finds them. -/
theorem meets_pass (h : Owns home t w) (tjmax : Option F32) :
    (monitor home).Meets w (pass rt tjmax t) fun r u => Owns home r.2 u := by
  refine meets_ask_bind.mpr ⟨trivial, fun now _ => ?_⟩
  refine meets_bind.mpr ((meets_read rt h).mono fun reading u hread => ?_)
  exact meets_bind.mpr (meets_packageWatts rt hread now)

theorem meets_passes (h : Owns home t w) (tjmax : Option F32) (n : ℕ) :
    (monitor home).Meets w (passes rt tjmax n t) fun r u => Owns home r.2 u := by
  induction n generalizing t w with
  | zero => exact h
  | succ n ih =>
    refine meets_bind.mpr ((meets_pass rt h tjmax).mono fun first u hfirst => ?_)
    exact meets_bind.mpr (ih hfirst)

/-- What is open is held by some executors, each with a handle of its own. -/
structure Holds (home : UInt64) (pawns : List PawnIo) (w : World) : Prop where
  opened : ∀ pawn ∈ pawns, ∃ slot ∈ w.slot pawn.handle, slot.lib = pawn.lib
  distinct : (pawns.map PawnIo.handle).Nodup
  held : ∀ handle, ∀ slot ∈ w.slot handle, Stray handle slot ∨ ∃ p ∈ pawns, p.handle = handle
  atHome : w.AtHome home

/-- Each handle is closed that can be. -/
lemma meets_dropAll {pawns : List PawnIo} (h : Holds home pawns w) :
    (monitor home).Meets w (pawns.forM PawnIo.drop) fun _ u => Released home u := by
  induction pawns generalizing w with
  | nil =>
    refine ⟨fun handle slot hslot => ?_, h.atHome⟩
    exact (h.held handle slot hslot).resolve_right (by simp)
  | cons pawn pawns ih =>
    obtain ⟨⟨slot, hslot, hlib⟩, hopened⟩ := List.forall_mem_cons.mp h.opened
    obtain ⟨hhead, hdistinct⟩ := List.nodup_cons.mp h.distinct
    refine meets_bind.mpr (meets_drop hslot hlib (fun hstray => ih ?_) (ih ?_))
    · refine ⟨hopened, hdistinct, fun handle slot' hslot' => ?_, h.atHome⟩
      obtain hother | ⟨p, hp, rfl⟩ := h.held handle slot' hslot'
      · exact .inl hother
      obtain rfl | hp := List.mem_cons.mp hp
      · exact .inl (Option.mem_unique hslot hslot' ▸ hstray)
      · exact .inr ⟨p, hp, rfl⟩
    · have hother : ∀ handle, handle ≠ pawn.handle →
          (w.put pawn.handle none).slot handle = w.slot handle :=
        fun handle hne => World.slot_put_of_ne _ _ hne
      refine ⟨fun p hp => ?_, hdistinct, fun handle slot' hslot' => ?_, h.atHome.put ..⟩
      · obtain ⟨slot', hslot', hlib'⟩ := hopened p hp
        refine ⟨slot', ?_, hlib'⟩
        rwa [hother]
        rintro hsame
        exact hhead (hsame ▸ List.mem_map_of_mem hp)
      · have hne : handle ≠ pawn.handle := by
          rintro rfl
          simp at hslot'
        rw [hother _ hne] at hslot'
        refine (h.held handle slot' hslot').imp_right fun ⟨p, hp, hhandle⟩ => ⟨p, ?_, hhandle⟩
        exact (List.mem_cons.mp hp).resolve_left fun heq => hne (heq ▸ hhandle).symm

lemma mem_executors {pawn : PawnIo} : pawn ∈ t.executors ↔
    pawn ∈ t.device ∨ ∃ p ∈ t.perCore, p.pawn = pawn := by
  simp [WindowsTemperature.executors]

lemma Owns.holds (h : Owns home t w) : Holds home t.executors w where
  opened pawn hpawn := by
    obtain hd | ⟨p, hp, rfl⟩ := mem_executors.mp hpawn
    · obtain ⟨blob, -, hloaded⟩ := h.device pawn hd
      exact ⟨_, hloaded, rfl⟩
    · obtain ⟨fresh, hlisted⟩ := h.perCore p hp
      exact ⟨_, hlisted, rfl⟩
  distinct := by
    cases hd : t.device with
    | none => cases hp : t.perCore <;> simp [WindowsTemperature.executors, hd, hp]
    | some d =>
      cases hp : t.perCore with
      | none => simp [WindowsTemperature.executors, hd, hp]
      | some p => simpa [WindowsTemperature.executors, hd, hp] using h.handle_ne hd hp
  held handle slot hslot := by
    refine (h.held handle slot hslot).imp_right ?_
    rintro (⟨d, hd, hhandle⟩ | ⟨p, hp, hhandle⟩)
    · exact ⟨d, mem_executors.mpr (.inl hd), hhandle⟩
    · exact ⟨p.pawn, mem_executors.mpr (.inr ⟨p, hp, rfl⟩), hhandle⟩
  atHome := h.atHome

/-- Whatever is answered, the helper keeps to what may be done, and gives back what it took. -/
theorem meets_life (key : Option CpuKey) (n : ℕ) (h : Released home w) :
    (monitor home).Meets w (life rt key n) fun _ u => Released home u := by
  refine meets_bind.mpr ((meets_newSource key h).mono fun t u hnew => ?_)
  refine meets_bind.mpr ((meets_tjmaxC hnew.2).meets fun tjmax => ?_)
  refine meets_bind.mpr ((meets_passes rt hnew.2 tjmax n).mono fun r u' hr => ?_)
  exact meets_bind.mpr ((meets_dropAll hr.holds).mono fun _ u' hreleased => hreleased)

end Passes

/-- Nothing is open yet. -/
def start (home : UInt64) : World := ⟨fun _ => none, none, home, none⟩

lemma released_start (home : UInt64) : Released home (start home) :=
  ⟨fun _ _ hslot => (Option.not_mem_none _ hslot).elim, rfl, rfl, rfl⟩

variable {rt : Runtime} {key : Option CpuKey} {n : ℕ} {events : List Event}

/-- A driver that is installed, and has one thing to say. -/
def installed (w : World) : (c : Call) → Answer c
  | .environment _ => some "C:"
  | .loadLibrary _ =>
    some ⟨["pawnio_open", "pawnio_load", "pawnio_execute", "pawnio_close"]⟩
  | .openExecutor _ =>
    if (w.slot 1).isNone then (0, 1) else if (w.slot 2).isNone then (0, 2) else (1, 0)
  | .load _ _ => 0
  | .execute _ _ _ capacity => (0, Vector.replicate capacity pmTableRenoir, capacity)
  | .close _ => ()
  | .acquirePci => ⟨true, true⟩
  | .dropPci _ => ()
  | .setThreadAffinityMask mask => if mask = 0 then 0 else w.affinity
  | .currentProcessorNumber => 0
  | .detectTopology => some 4
  | .availableParallelism => none
  | .now => 0

lemma possible_installed (hhome : home ≠ 0) (w : World) (c : Call) (hw : w.affinity ≠ 0) :
    (monitor home).possible w c (installed w c) ∧
      ((monitor home).advance w c (installed w c)).affinity ≠ 0 := by
  cases c with
  | openExecutor lib =>
    simp only [monitor_possible, monitor_advance, Possible, World.advance, installed]
    cases h1 : w.slot 1 <;> cases h2 : w.slot 2 <;> simp [h1, h2, hw]
  | setThreadAffinityMask mask =>
    simp only [monitor_possible, monitor_advance, Possible, World.advance, installed]
    by_cases hmask : mask = 0 <;> simp [hmask, hw, hhome.symm]
  | load handle blob => simp [Possible, World.advance, installed, hw]
  | _ => exact ⟨trivial, hw⟩

def zenKey : CpuKey := ⟨.amd, 23, 96, 1⟩

/-- The helper samples an AMD processor twice. -/
def sampledTwice : List Event × List SharedTemperature :=
  (monitor 255).answered installed (start 255) (life .ieee (some zenKey) 2)

end LoadBear.Driver
