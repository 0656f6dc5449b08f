import LoadBear.DriverConduct
import LoadBear.HelperLoop
import LoadBear.Recording

/-!
# A pass read back from its calls

The driver may answer the same call differently from one moment to the next, and from one
processor to another. In a pass it is asked nothing twice from the same place, so a pass comes to
what it comes to over one fixed driver: the one that answers what was answered.
-/
namespace LoadBear.Driver

open Dialogue Recorder

/-- A function executed, and the processor the thread was seen on, if it was pinned. -/
structure Question where
  handle : Handle
  place : Option ℕ
  name : String
  input : List UInt64
  capacity : ℕ
  deriving DecidableEq

/-- A change of affinity unpins the thread until it is seen again. -/
def recorder : Recorder Call Answer (Option ℕ) Question (Option (List UInt64)) where
  move
    | _, ⟨.setThreadAffinityMask _, _⟩ => none
    | _, ⟨.currentProcessorNumber, number⟩ => some number.toNat
    | place, _ => place
  tell
    | place, ⟨.execute handle name input capacity, answer⟩ =>
      some (⟨handle, place, name, input, capacity⟩, (PawnIo.outcome name answer).toOption)
    | _, _ => none

abbrev Table := Question → Option (Option (List UInt64))

/-- What an executor answers from one place. -/
def heard (t : Table) (handle : Handle) (place : Option ℕ) (name : String) (input : List UInt64)
    (capacity : ℕ) : Option (List UInt64) :=
  (t ⟨handle, place, name, input, capacity⟩).join

def heardPawn (t : Table) (handle : Handle) : LoadBear.PawnIo :=
  ⟨heard t handle none, fun i => some (heard t handle (some i))⟩

/-- The source over a fixed driver. -/
def WindowsTemperature.heard (w : WindowsTemperature) (t : Table) :
    LoadBear.WindowsTemperature where
  device := w.device.map fun d => heardPawn t d.handle
  perCore := w.perCore.map fun p => ⟨Driver.heard t p.pawn.handle none, p.supported⟩
  cores := w.cores
  vendor := w.vendor

section Calls
variable {pawn : PawnIo} {place : Option ℕ}

/-- A call that is no question. -/
lemma reads_request {c : Call} (hmove : ∀ answer, recorder.move place ⟨c, answer⟩ = place)
    (htell : ∀ answer, recorder.tell place ⟨c, answer⟩ = none) :
    recorder.Reads place (request c) [] fun _ _ => True := by
  intro events answer hruns
  obtain rfl := runs_ask.mp hruns
  exact ⟨hmove answer, by simp [replies, htell], fun _ _ => trivial⟩

lemma reads_execute (name : String) (input : List UInt64) (capacity : ℕ) :
    recorder.Reads place (pawn.execute name input capacity)
      [⟨pawn.handle, place, name, input, capacity⟩]
      fun t r => heard t pawn.handle place name input capacity = r.toOption := by
  have hnone : ∀ e, recorder.Reads place (pure (.error e) : Talk (Except PawnIoError _))
      [⟨pawn.handle, place, name, input, capacity⟩]
      fun t (r : Except PawnIoError (List UInt64)) =>
        heard t pawn.handle place name input capacity = r.toOption := by
    rintro e events r ⟨rfl, rfl⟩
    refine ⟨rfl, by simp, fun t ht => ?_⟩
    simp only [heard]
    rw [ht _ (List.mem_singleton_self _)]
    rfl
  rw [PawnIo.execute]
  split
  · exact hnone _
  split
  · intro events r hruns
    obtain ⟨answer, before, after, rfl, hask, rfl, rfl⟩ := runs_bind.mp hruns
    obtain rfl := runs_ask.mp hask
    refine ⟨rfl, by simp [replies, recorder], fun t ht => ?_⟩
    simp only [heard]
    rw [ht _ (List.mem_singleton_self _)]
    simp [table, replies, recorder]
  · exact hnone _

/-- The question a register is read by. -/
def msrQuestion (handle : Handle) (place : Option ℕ) (msr : UInt64) : Question :=
  ⟨handle, place, "ioctl_read_msr", [msr], 1⟩

lemma reads_readMsr (msr : UInt64) :
    recorder.Reads place (readMsr pawn msr) [msrQuestion pawn.handle place msr]
      fun t raw => raw = LoadBear.readMsr (heard t pawn.handle place) msr :=
  (reads_execute _ _ _).returns fun t out hout => by rw [LoadBear.readMsr, hout]

/-- Nothing is asked where the thread is not seen. -/
lemma reads_onProcessor {α : Type} {f : Talk α} {i : ℕ} {keys : List Question}
    {mid : Table → α → Prop} (hf : recorder.Reads (some i) f keys mid) :
    recorder.Reads none (onProcessor i f) keys fun t r =>
      (r = none ∧ ∀ k ∈ keys, t k = none) ∨
        i ≤ maxAffinityIndex ∧ ∃ a, r = some a ∧ mid t a := by
  intro events r hruns
  have hquiet : ∀ events, recorder.replies none events = [] → ∀ t : Table,
      (∀ k ∈ keys, t k = recorder.table none events k) → ∀ k ∈ keys, t k = none := by
    intro events hreplies t ht k hk
    rw [ht k hk, table, hreplies, List.lookup_nil]
  rw [onProcessor] at hruns
  split at hruns
  · obtain ⟨rfl, rfl⟩ := hruns
    exact ⟨rfl, by simp, fun t ht => .inl ⟨rfl, hquiet [] rfl t ht⟩⟩
  rename_i hi
  obtain ⟨previous, _, rest, rfl, hask, hrest⟩ := runs_bind.mp hruns
  obtain rfl := runs_ask.mp hask
  by_cases hzero : previous = 0
  · rw [if_pos hzero] at hrest
    obtain ⟨rfl, rfl⟩ := hrest
    exact ⟨rfl, by simp [replies, recorder], fun t ht => .inl ⟨rfl, hquiet _ rfl t ht⟩⟩
  rw [if_neg hzero] at hrest
  obtain ⟨number, _, rest, rfl, hask, hlanded⟩ := runs_bind.mp hrest
  obtain rfl := runs_ask.mp hask
  obtain ⟨_, inner, rest, rfl, hinner, hback⟩ := runs_bind.mp hlanded
  obtain ⟨answer, _, _, rfl, hask, rfl, rfl⟩ := runs_bind.mp hback
  obtain rfl := runs_ask.mp hask
  rw [whenLanded] at hinner
  split at hinner
  · rename_i hnumber
    obtain ⟨a, rfl, hrun⟩ := runs_map.mp hinner
    obtain ⟨hstands, hasked, hmid⟩ := hf inner a hrun
    have hreplies : recorder.replies none ([⟨_, previous⟩] ++ ([⟨_, number⟩] ++
        (inner ++ ([⟨.setThreadAffinityMask previous, answer⟩] ++ [])))) =
          recorder.replies (some i) inner := by
      rw [← of_decide_eq_true hnumber]
      simp [replies, replies_append, recorder]
    refine ⟨by simp [stands, recorder], hreplies ▸ hasked, fun t ht => .inr ⟨by omega, a, rfl, ?_⟩⟩
    refine hmid t fun k hk => ?_
    rw [ht k hk, table, hreplies, table]
  · obtain ⟨rfl, rfl⟩ := hinner
    exact ⟨rfl, by simp [replies, recorder], fun t ht => .inl ⟨rfl, hquiet _ rfl t ht⟩⟩

end Calls

section Intel
variable (rt : Runtime) {pawn : PawnIo}

lemma reads_coreZone (tjmax : ℚ) (i : ℕ) :
    recorder.Reads none (coreZone rt pawn tjmax i)
      [msrQuestion pawn.handle (some i) msrThermStatus]
      fun t zone => zone = LoadBear.coreZone rt (heardPawn t pawn.handle) tjmax i := by
  refine (reads_onProcessor (reads_readMsr msrThermStatus)).returns fun t raw hraw => ?_
  have hjoin : raw.join = (LoadBear.onProcessor (heardPawn t pawn.handle) i fun execute =>
      LoadBear.readMsr execute msrThermStatus).join := by
    rw [LoadBear.onProcessor]
    obtain ⟨rfl, hnone⟩ | ⟨hi, word, rfl, rfl⟩ := hraw
    · have hsilent : t (msrQuestion pawn.handle (some i) msrThermStatus) = none :=
        hnone _ (List.mem_singleton_self _)
      split
      · rfl
      · simp only [msrQuestion] at hsilent
        simp [heardPawn, LoadBear.readMsr, heard, hsilent]
    · rw [if_neg (not_lt_of_ge hi)]
      rfl
  rw [LoadBear.coreZone, ← hjoin]
  cases raw.join with
  | none => rfl
  | some word => exact Option.map_eq_bind

/-- The questions of a reading on an Intel part. -/
def intelQuestions (handle : Handle) (n : ℕ) : List Question :=
  msrQuestion handle none msrTemperatureTarget :: msrQuestion handle none msrPackageThermStatus ::
    (List.range n).map fun i => msrQuestion handle (some i) msrThermStatus

lemma nodup_intelQuestions (handle : Handle) (n : ℕ) : (intelQuestions handle n).Nodup := by
  have hcores : ((List.range n).map fun i =>
      msrQuestion handle (some i) msrThermStatus).Nodup := by
    refine List.nodup_range.map fun i j h => ?_
    simpa [msrQuestion] using h
  refine List.nodup_cons.mpr ⟨?_, List.nodup_cons.mpr ⟨?_, hcores⟩⟩
  · simp [msrQuestion, msrTemperatureTarget, msrPackageThermStatus]
  · simp [msrQuestion]

/-- The zones of the processors that could be reached. -/
lemma reads_coreZones (tjmax : ℚ) (n : ℕ) :
    recorder.Reads none ((List.range n).mapM (coreZone rt pawn tjmax))
      ((List.range n).map fun i => msrQuestion pawn.handle (some i) msrThermStatus)
      fun t zones => zones = (List.range n).map fun i =>
        LoadBear.coreZone rt (heardPawn t pawn.handle) tjmax i :=
  reads_mapM (fun i _ => reads_coreZone rt tjmax i)
    (List.nodup_cons.mp (List.nodup_cons.mp (nodup_intelQuestions pawn.handle n)).2).2

theorem reads_readIntelTemperature (n : ℕ) :
    recorder.Reads none (readIntelTemperature rt pawn n) (intelQuestions pawn.handle n)
      fun t r => r = LoadBear.readIntelTemperature rt (heardPawn t pawn.handle) n := by
  obtain ⟨htarget, hrest⟩ := List.nodup_cons.mp (nodup_intelQuestions pawn.handle n)
  obtain ⟨hpackage, -⟩ := List.nodup_cons.mp hrest
  have htjmax : recorder.Reads none (readTjmax pawn)
      [msrQuestion pawn.handle none msrTemperatureTarget]
      fun t tjmax => tjmax = LoadBear.readTjmax (heardPawn t pawn.handle) :=
    (reads_readMsr msrTemperatureTarget).returns fun t raw hraw => by rw [hraw]; rfl
  refine htjmax.bind (List.singleton_disjoint.mpr htarget) fun tjmax => ?_
  cases tjmax with
  | none =>
    refine (reads_pure fun t htarget => ?_).mono (List.nil_subset _) fun _ _ h => h
    rw [LoadBear.readIntelTemperature, ← htarget]
  | some tjmax =>
    refine (reads_readMsr msrPackageThermStatus).bind (List.singleton_disjoint.mpr hpackage)
      fun package => ?_
    refine (reads_coreZones rt tjmax n).returns fun t zones hzones hpackage htarget => ?_
    rw [LoadBear.readIntelTemperature, ← htarget, hzones, hpackage, List.filterMap_map]
    rfl

end Intel

section Amd
variable (rt : Runtime) {pawn : PawnIo}

/-- The question a die is read by. -/
def dieQuestion (handle : Handle) (address : UInt64) : Question :=
  ⟨handle, none, "ioctl_read_smn", [address], 1⟩

/-- The register of a core complex die. -/
def ccdAddress (ccd : ℕ) : UInt64 := smnTempBase + renoirCcdOffset + ccd.toUInt64 * 4

/-- Nine registers, all of them different. -/
lemma nodup_addresses : (smnTempBase :: (List.range' 0 renoirCcdCount).map ccdAddress).Nodup := by
  decide

def dieQuestions (handle : Handle) : List Question :=
  dieQuestion handle smnTempBase ::
    (List.range' 0 renoirCcdCount).map fun ccd => dieQuestion handle (ccdAddress ccd)

lemma nodup_dieQuestions (handle : Handle) : (dieQuestions handle).Nodup := by
  have h := nodup_addresses.map (f := dieQuestion handle) fun a b h => by
    simpa [dieQuestion] using h
  rwa [List.map_cons, List.map_map] at h

lemma reads_readCcds (count ccd : ℕ)
    (hnodup : ((List.range' ccd count).map fun i => dieQuestion pawn.handle (ccdAddress i)).Nodup) :
    recorder.Reads none (readCcds rt pawn count ccd)
      ((List.range' ccd count).map fun i => dieQuestion pawn.handle (ccdAddress i))
      fun t zones => zones = LoadBear.readCcds rt (heard t pawn.handle none) count ccd := by
  induction count generalizing ccd with
  | zero => exact reads_pure fun _ => rfl
  | succ count ih =>
    rw [List.range'_succ, List.map_cons] at hnodup ⊢
    obtain ⟨hfresh, hrest⟩ := List.nodup_cons.mp hnodup
    rw [readCcds]
    refine (reads_execute _ _ _).bind (List.singleton_disjoint.mpr hfresh) fun out => ?_
    cases hraw : out.toOption.bind List.head? with
    | none =>
      refine (reads_pure fun t hout => ?_).mono (List.nil_subset _) fun _ _ h => h
      rw [LoadBear.readCcds, hout, hraw]
    | some raw =>
      refine (ih (ccd + 1) hrest).returns fun t zones hzones hout => ?_
      rw [LoadBear.readCcds, hout, hraw, hzones]

lemma reads_readDies :
    recorder.Reads none (readDies rt pawn) (dieQuestions pawn.handle)
      fun t r => r.toOption = LoadBear.readAmdTemperature rt (heardPawn t pawn.handle) := by
  obtain ⟨hdie, hccds⟩ := List.nodup_cons.mp (nodup_dieQuestions pawn.handle)
  refine (reads_execute _ _ _).bind (List.singleton_disjoint.mpr hdie) fun die => ?_
  cases die with
  | error e =>
    refine (reads_pure fun t hout => ?_).mono (List.nil_subset _) fun _ _ h => h
    have hout : (heardPawn t pawn.handle).execute "ioctl_read_smn" [smnTempBase] 1 = none := hout
    rw [LoadBear.readAmdTemperature, hout]
    rfl
  | ok die =>
    refine (reads_readCcds rt renoirCcdCount 0 hccds).returns fun t zones hzones hout => ?_
    have hout : (heardPawn t pawn.handle).execute "ioctl_read_smn" [smnTempBase] 1 = some die :=
      hout
    rw [LoadBear.readAmdTemperature, hout, hzones]
    rfl

theorem reads_readAmdTemperature :
    recorder.Reads none (readAmdTemperature rt pawn) (dieQuestions pawn.handle)
      fun t r => r.toOption = LoadBear.readAmdTemperature rt (heardPawn t pawn.handle) :=
  (reads_request (fun _ => rfl) fun _ => rfl).quiet_bind fun _ =>
    (reads_readDies rt).bind_quiet (reads_request (fun _ => rfl) fun _ => rfl)

end Amd

section Source
variable (rt : Runtime) {w : WindowsTemperature}

/-- The table is read after its update, if at all. -/
def tableQuestions (handle : Handle) : List Question :=
  [⟨handle, none, "ioctl_update_pm_table", [], 0⟩,
    ⟨handle, none, "ioctl_read_pm_table", [], tableWords⟩]

/-- What the words of a table come to. -/
def tableValues (n : ℕ) (words : Option (List UInt64)) : List F32 :=
  words.elim [] fun words =>
    ((List.range (min n coreTempCount)).filterMap fun i =>
      floatAt words (coreTempIndex + i)).filter isPlausibleCelsius

lemma read_supported (pawn : Executor) (n : ℕ) :
    (LoadBear.PerCoreTemperature.mk pawn true).read n =
      (pawn "ioctl_update_pm_table" [] 0).elim [] fun _ =>
        tableValues n (pawn "ioctl_read_pm_table" [] tableWords) := by
  cases hupdate : pawn "ioctl_update_pm_table" [] 0 <;>
    cases htable : pawn "ioctl_read_pm_table" [] tableWords <;>
    simp [LoadBear.PerCoreTemperature.read, hupdate, htable, tableValues]

lemma reads_readTable (p : PerCoreTemperature) (n : ℕ) :
    recorder.Reads none (p.read n) (tableQuestions p.pawn.handle) fun t values => values =
      (LoadBear.PerCoreTemperature.mk (heard t p.pawn.handle none) p.supported).read n := by
  rw [PerCoreTemperature.read]
  split
  · rename_i hsupported
    refine (reads_pure fun t => ?_).mono (List.nil_subset _) fun _ _ h => h
    rw [LoadBear.PerCoreTemperature.read, if_pos hsupported]
  rename_i hsupported
  have hsupported : p.supported = true := by simpa using hsupported
  have hdisjoint : List.Disjoint [Question.mk p.pawn.handle none "ioctl_update_pm_table" [] 0]
      [⟨p.pawn.handle, none, "ioctl_read_pm_table", [], tableWords⟩] := by
    simp
  have htable : recorder.Reads none (p.pawn.execute "ioctl_read_pm_table" [] tableWords)
      [⟨p.pawn.handle, none, "ioctl_read_pm_table", [], tableWords⟩] fun t r =>
        heard t p.pawn.handle none "ioctl_read_pm_table" [] tableWords = r.toOption :=
    reads_execute _ _ _
  refine (reads_execute _ _ _).bind hdisjoint fun r => ?_
  cases r with
  | error e =>
    refine (reads_pure fun t hupdate => ?_).mono (List.nil_subset _) fun _ _ h => h
    rw [hsupported, read_supported, hupdate]
    rfl
  | ok updated =>
    refine (htable.bind (List.disjoint_nil_right _) fun r => ?_).mono (by simp) fun _ _ h => h
    cases r with
    | error e =>
      refine reads_pure fun t htable hupdate => ?_
      rw [hsupported, read_supported, hupdate, htable]
      rfl
    | ok words =>
      refine reads_pure fun t htable hupdate => ?_
      rw [hsupported, read_supported, hupdate, htable]
      rfl

/-- The questions the table adds to a reading. -/
def perCoreQuestions (w : WindowsTemperature) : List Question :=
  w.perCore.elim [] fun p => tableQuestions p.pawn.handle

/-- The questions of one reading. -/
def readQuestions (w : WindowsTemperature) : List Question :=
  w.device.elim [] fun d =>
    match w.vendor with
    | .amd => dieQuestions d.handle ++ perCoreQuestions w
    | .intel => intelQuestions d.handle w.cores
    | .other => []

/-- The questions of one figure of power. -/
def powerQuestions (w : WindowsTemperature) : List Question :=
  w.device.elim [] fun d =>
    [msrQuestion d.handle none msrRaplPowerUnit, msrQuestion d.handle none msrPkgEnergyStatus]

lemma reads_readPerCore :
    recorder.Reads none w.readPerCore (perCoreQuestions w) fun t zones =>
      zones = ((w.heard t).perCore.map fun pc =>
        LoadBear.WindowsTemperature.coreZones (pc.read w.cores)).getD [] := by
  rw [WindowsTemperature.readPerCore]
  cases hperCore : w.perCore with
  | none =>
    rw [perCoreQuestions, hperCore]
    exact reads_pure fun t => by simp [WindowsTemperature.heard, hperCore]
  | some p =>
    rw [perCoreQuestions, hperCore]
    refine (reads_readTable p w.cores).returns fun t values hvalues => ?_
    simp [WindowsTemperature.heard, hperCore, hvalues]

lemma disjoint_tableQuestions (handle : Handle) :
    (dieQuestions handle).Disjoint (perCoreQuestions w) := by
  cases hperCore : w.perCore with
  | none => simp [perCoreQuestions, hperCore]
  | some p => simp [perCoreQuestions, hperCore, tableQuestions, dieQuestions, dieQuestion]

theorem reads_read :
    recorder.Reads none (w.read rt) (readQuestions w) fun t r => r = (w.heard t).read rt := by
  rw [WindowsTemperature.read]
  cases hdevice : w.device with
  | none =>
    rw [readQuestions, hdevice]
    exact reads_pure fun t => by
      simp [LoadBear.WindowsTemperature.read, WindowsTemperature.heard, hdevice]
  | some d =>
    rw [readQuestions, hdevice]
    dsimp only [Option.elim]
    have hheard (t : Table) : (w.heard t).device = some (heardPawn t d.handle) := by
      simp [WindowsTemperature.heard, hdevice]
    have hvendor (t : Table) : (w.heard t).vendor = w.vendor := rfl
    cases hw : w.vendor with
    | amd =>
      refine (reads_readAmdTemperature rt).bind (disjoint_tableQuestions d.handle) fun r => ?_
      refine reads_readPerCore.returns fun t zones hzones hr => ?_
      rw [LoadBear.WindowsTemperature.read, hheard, hvendor, hw, hzones, hr]
      rfl
    | intel =>
      refine (reads_readIntelTemperature rt w.cores).mono (List.Subset.refl _) fun t r hr => ?_
      rw [LoadBear.WindowsTemperature.read, hheard, hvendor, hw, hr]
      rfl
    | other =>
      exact reads_pure fun t => by rw [LoadBear.WindowsTemperature.read, hheard, hvendor, hw]

lemma readMsr_saying (raw : Option UInt64) (msr : UInt64) :
    LoadBear.readMsr (saying raw) msr = raw := by
  cases raw <;> rfl

lemma new_saying (execute : Executor) :
    PackagePower.new (saying (LoadBear.readMsr execute msrRaplPowerUnit)) =
      PackagePower.new execute := by
  rw [PackagePower.new, readMsr_saying, PackagePower.new]

lemma read_saying (p : PackagePower) (execute : Executor) (nowMs : ℕ) :
    p.read rt (saying (LoadBear.readMsr execute msrPkgEnergyStatus)) nowMs =
      p.read rt execute nowMs := by
  rw [PackagePower.read, readMsr_saying, PackagePower.read]

lemma reads_lazyPower (d : PawnIo) :
    recorder.Reads none (w.lazyPower d) [msrQuestion d.handle none msrRaplPowerUnit] fun t p =>
      p = w.power.or (PackagePower.new (heardPawn t d.handle).execute) := by
  rw [WindowsTemperature.lazyPower]
  split
  · rename_i p hpower
    refine (reads_pure fun t => ?_).mono (List.nil_subset _) fun _ _ h => h
    rw [hpower, Option.some_or]
  · rename_i hpower
    refine (reads_readMsr msrRaplPowerUnit).returns fun t raw hraw => ?_
    rw [hpower, Option.none_or, hraw, new_saying]
    rfl

/-- The power is that of the helper over the fixed driver, and nothing else changes. -/
theorem reads_packageWatts (nowMs : ℕ) :
    recorder.Reads none (w.packageWatts rt nowMs) (powerQuestions w) fun t r =>
      (r.1, r.2.power) = Helper.packageWatts rt w.power (w.heard t) nowMs ∧
        r.2 = { w with power := r.2.power } := by
  rw [WindowsTemperature.packageWatts]
  cases hdevice : w.device with
  | none =>
    rw [powerQuestions, hdevice]
    refine reads_pure fun t => ⟨?_, by rw [← hdevice]⟩
    simp [Helper.packageWatts, WindowsTemperature.heard, hdevice]
  | some d =>
    rw [powerQuestions, hdevice]
    have hheard (t : Table) : (w.heard t).device = some (heardPawn t d.handle) := by
      simp [WindowsTemperature.heard, hdevice]
    have hdisjoint : List.Disjoint [msrQuestion d.handle none msrRaplPowerUnit]
        [msrQuestion d.handle none msrPkgEnergyStatus] := by
      simp [msrQuestion, msrRaplPowerUnit, msrPkgEnergyStatus]
    refine (reads_lazyPower d).bind hdisjoint fun power => ?_
    cases power with
    | none =>
      refine (reads_pure fun t hpower => ⟨?_, rfl⟩).mono (List.nil_subset _) fun _ _ h => h
      rw [Helper.packageWatts, hheard]
      dsimp only
      rw [← hpower]
    | some p =>
      have hread : recorder.Reads none (readPower rt d p nowMs)
          [msrQuestion d.handle none msrPkgEnergyStatus] fun t r =>
            r = p.read rt (heardPawn t d.handle).execute nowMs :=
        (reads_readMsr msrPkgEnergyStatus).returns fun t raw hraw => by
          rw [hraw, read_saying]
          rfl
      refine hread.returns fun t r hr hpower => ⟨?_, rfl⟩
      rw [Helper.packageWatts, hheard]
      dsimp only
      rw [← hpower, hr]

/-- The questions of a reading and those of a figure of power are different. -/
lemma disjoint_powerQuestions : (readQuestions w).Disjoint (powerQuestions w) := by
  cases hdevice : w.device with
  | none => simp [readQuestions, hdevice]
  | some d =>
    rw [readQuestions, powerQuestions, hdevice]
    dsimp only [Option.elim]
    cases hvendor : w.vendor with
    | amd =>
      rw [List.disjoint_append_left]
      refine ⟨by simp [dieQuestions, dieQuestion, msrQuestion], ?_⟩
      cases hperCore : w.perCore <;>
        simp [perCoreQuestions, hperCore, tableQuestions, msrQuestion]
    | intel =>
      simp [intelQuestions, msrQuestion, msrTemperatureTarget, msrPackageThermStatus,
        msrRaplPowerUnit, msrPkgEnergyStatus]
    | other => exact List.disjoint_nil_left _

end Source

section Passes
variable {rt : Runtime} {tjmax : Option F32} {w : WindowsTemperature} {events : List Event}

/-- What the driver answered in some calls. -/
def said (events : List Event) : Table := recorder.table none events

/-- One pass gives what the helper makes of the driver that answers as it did then. -/
theorem pass_heard {r : SharedTemperature × WindowsTemperature}
    (hruns : (pass rt tjmax w).Runs events r) :
    ∃ nowMs rest, events = ⟨.now, nowMs⟩ :: rest ∧
      (r.1, r.2.power) = Helper.sample rt tjmax w.power ⟨nowMs, w.heard (said events)⟩ ∧
        r.2 = { w with power := r.2.power } := by
  obtain ⟨nowMs, _, rest, rfl, hnow, hrest⟩ := runs_bind.mp hruns
  obtain rfl := runs_ask.mp hnow
  have hbody : recorder.Reads none (do
      let reading ← w.read rt
      let r ← w.packageWatts rt nowMs
      return (SharedTemperature.ofSample reading (r.1.map .finite) tjmax nowMs, r.2))
      (readQuestions w ++ powerQuestions w) fun t r =>
        (r.1, r.2.power) = Helper.sample rt tjmax w.power ⟨nowMs, w.heard t⟩ ∧
          r.2 = { w with power := r.2.power } := by
    refine (reads_read rt).bind disjoint_powerQuestions fun reading => ?_
    refine (reads_packageWatts rt nowMs).returns fun t r hr hreading => ⟨?_, hr.2⟩
    rw [Helper.sample, ← hr.1, hreading]
  have hends := hbody.ends hrest
  exact ⟨nowMs, rest, rfl, hends⟩

/-- Some calls are those of a pass, over the driver that answers as it did in them. -/
def Heard (w : WindowsTemperature) (piece : List Event) (pass : Pass) : Prop :=
  (∃ rest, piece = ⟨.now, pass.nowMs⟩ :: rest) ∧ pass.source = w.heard (said piece)

/-- What each of some passes publishes after the ones before it. -/
def records (rt : Runtime) (tjmax : Option F32) : List Pass → List Pass → List SharedTemperature
  | _, [] => []
  | earlier, pass :: later =>
    Helper.latest rt tjmax (pass :: earlier) :: records rt tjmax (pass :: earlier) later

/-- The passes publish what the helper's passes over the drivers that were heard do. -/
theorem passes_heard {n : ℕ} {earlier : List Pass}
    {r : List SharedTemperature × WindowsTemperature} (hruns : (passes rt tjmax n w).Runs events r)
    (hpower : w.power = Helper.powerAfter rt earlier) :
    ∃ pieces sources, events = pieces.flatten ∧ List.Forall₂ (Heard w) pieces sources ∧
      sources.length = n ∧ r.1 = records rt tjmax earlier sources := by
  induction n generalizing w events r earlier with
  | zero =>
    obtain ⟨rfl, rfl⟩ := hruns
    exact ⟨[], [], rfl, .nil, rfl, rfl⟩
  | succ n ih =>
    obtain ⟨first, piece, _, rfl, hfirst, hrest⟩ := runs_bind.mp hruns
    obtain ⟨later, rest, _, rfl, hlater, rfl, rfl⟩ := runs_bind.mp hrest
    obtain ⟨nowMs, calls, hpiece, hsample, hsame⟩ := pass_heard hfirst
    set source : Pass := ⟨nowMs, w.heard (said piece)⟩
    rw [hpower] at hsample
    obtain ⟨hrecord, hafter⟩ := Prod.ext_iff.mp hsample
    have hafter : first.2.power = Helper.powerAfter rt (source :: earlier) := hafter
    obtain ⟨pieces, sources, rfl, hheard, hlength, hrecords⟩ := ih hlater hafter
    have hheard' : List.Forall₂ (Heard w) pieces sources := by
      rw [hsame] at hheard
      exact hheard
    refine ⟨piece :: pieces, source :: sources, ?_, .cons ⟨⟨calls, hpiece⟩, rfl⟩ hheard', ?_, ?_⟩
    · rw [List.append_nil, List.flatten_cons]
    · rw [List.length_cons, hlength]
    · rw [records, ← hrecords]
      exact congrArg (· :: later.1) hrecord

lemma reads_tjmaxC : recorder.Reads none w.tjmaxC
    (w.device.elim [] fun d => [msrQuestion d.handle none msrTemperatureTarget])
    fun t r => r = (w.heard t).tjmaxC := by
  rw [WindowsTemperature.tjmaxC]
  cases hdevice : w.device with
  | none =>
    refine reads_pure fun t => ?_
    cases hw : w.vendor <;>
      simp [LoadBear.WindowsTemperature.tjmaxC, WindowsTemperature.heard, hdevice, hw]
  | some d =>
    have hheard (t : Table) : (w.heard t).device = some (heardPawn t d.handle) := by
      simp [WindowsTemperature.heard, hdevice]
    have hvendor (t : Table) : (w.heard t).vendor = w.vendor := rfl
    cases hw : w.vendor with
    | intel =>
      have htjmax : recorder.Reads none (readTjmax d)
          [msrQuestion d.handle none msrTemperatureTarget]
          fun t tjmax => tjmax = LoadBear.readTjmax (heardPawn t d.handle) :=
        (reads_readMsr msrTemperatureTarget).returns fun t raw hraw => by rw [hraw]; rfl
      refine htjmax.returns fun t tjmax ht => ?_
      rw [LoadBear.WindowsTemperature.tjmaxC, hheard, hvendor, hw, ht]
      rfl
    | amd =>
      refine (reads_pure fun t => ?_).mono (List.nil_subset _) fun _ _ h => h
      rw [LoadBear.WindowsTemperature.tjmaxC, hvendor, hw]
    | other =>
      refine (reads_pure fun t => ?_).mono (List.nil_subset _) fun _ _ h => h
      rw [LoadBear.WindowsTemperature.tjmaxC, hvendor, hw]

/-- A source is available exactly when it has a device, and no figure of power has been asked for
when it is prepared. -/
lemma prepared_new {key : Option CpuKey} (hruns : (WindowsTemperature.new key).Runs events w) :
    (w.status = .available ↔ w.device.isSome) ∧ w.power = none := by
  have habsent : ∀ cores vendor reason remedy,
      ((WindowsTemperature.absent cores vendor reason remedy).status = .available ↔
        (WindowsTemperature.absent cores vendor reason remedy).device.isSome) ∧
          (WindowsTemperature.absent cores vendor reason remedy).power = none := by
    simp [WindowsTemperature.absent]
  obtain ⟨cores, _, _, rfl, -, hrest⟩ := runs_bind.mp hruns
  obtain ⟨opened, _, _, rfl, -, hopened⟩ := runs_bind.mp hrest
  cases opened with
  | error e => cases e <;> exact hopened.2 ▸ habsent ..
  | ok d =>
    dsimp only at hopened
    split at hopened
    · obtain ⟨_, _, _, rfl, -, rfl, rfl⟩ := runs_bind.mp hopened
      exact habsent ..
    obtain ⟨loaded, _, _, rfl, -, hloaded⟩ := runs_bind.mp hopened
    cases loaded with
    | error e =>
      obtain ⟨_, _, _, rfl, -, rfl, rfl⟩ := runs_bind.mp hloaded
      exact habsent ..
    | ok _ =>
      dsimp only at hloaded
      split at hloaded <;>
      · obtain ⟨_, _, _, rfl, -, rfl, rfl⟩ := runs_bind.mp hloaded
        exact ⟨by simp, rfl⟩

/-- Whatever the driver answers, each time anew, the helper publishes what its passes over fixed
drivers publish: in each pass the driver that answers as it did then. -/
theorem life_heard {key : Option CpuKey} {n : ℕ} {published : List SharedTemperature}
    (hruns : (life rt key n).Runs events published) :
    ∃ (w : WindowsTemperature) (opening asked : List Event) (pieces : List (List Event))
      (closing : List Event) (sources : List Pass),
      events = opening ++ (asked ++ (pieces.flatten ++ closing)) ∧
        (WindowsTemperature.new key).Runs opening w ∧
          List.Forall₂ (Heard w) pieces sources ∧ sources.length = n ∧
            published = records rt (w.heard (said asked)).tjmaxC [] sources := by
  obtain ⟨w, opening, _, rfl, hnew, hrest⟩ := runs_bind.mp hruns
  obtain ⟨tjmax, asked, _, rfl, hasked, hrest⟩ := runs_bind.mp hrest
  obtain ⟨r, passed, closing, rfl, hpasses, hdrop⟩ := runs_bind.mp hrest
  obtain ⟨_, closing, _, rfl, -, rfl, rfl⟩ := runs_bind.mp hdrop
  have hpower : w.power = Helper.powerAfter rt [] := (prepared_new hnew).2
  obtain ⟨pieces, sources, rfl, hheard, hlength, hrecords⟩ := passes_heard hpasses hpower
  have htjmax : tjmax = (w.heard (said asked)).tjmaxC := reads_tjmaxC.ends hasked
  refine ⟨w, opening, asked, pieces, closing, sources, ?_, hnew, hheard, hlength, ?_⟩
  · rw [List.append_nil]
  · rw [← htjmax, hrecords]

theorem sampledTwice_heard :
    ∃ (w : WindowsTemperature) (opening asked : List Event) (pieces : List (List Event))
      (closing : List Event) (sources : List Pass),
      sampledTwice.1 = opening ++ (asked ++ (pieces.flatten ++ closing)) ∧
        (WindowsTemperature.new (some zenKey)).Runs opening w ∧
          List.Forall₂ (Heard w) pieces sources ∧ sources.length = 2 ∧
            sampledTwice.2 = records .ieee (w.heard (said asked)).tjmaxC [] sources :=
  life_heard (Monitor.runs_answered installed _ (life .ieee (some zenKey) 2))

end Passes

end LoadBear.Driver
