import LoadBear.Installer
import LoadBear.ServiceControl

/-!
# Enabling the temperature

The interface has one elevated child do everything that needs rights: run the installer of the
driver, then set up the helper. All it learns of that is an exit code, which it turns into a
sentence. It says that the temperature is enabled only where a setup program was run and the
helper is registered and has run.
-/
namespace LoadBear.Enabling

open Transitions

/-- What the child exits with. An installer that did not succeed is taken for one that found
the driver there. -/
def setup (driver : Except Installer.InstallError Unit)
    (service : Except ServiceControl.ServiceError Unit) : UInt32 :=
  let helper :=
    match service with
    | .ok () => 0
    | .error _ => 4
  match driver with
  | .ok () | .error .alreadyInstalled | .error .installerFailed => helper
  | .error .declined => 2
  | .error _ => 3

/-- What the user is told, and whether the loop is asked to open the mapping again. The helper is
looked for first, and the child may not come to run at all. -/
def enableTemperature (helper : Except ServiceControl.ServiceError Unit)
    (child : Except Installer.InstallError UInt32) : Except String String × Bool :=
  match helper with
  | .error e => (.error e.message, false)
  | .ok () =>
    match child with
    | .error e => (.error e.message, false)
    | .ok 0 => (.ok "Temperature enabled.", true)
    | .ok 2 => (.error "Setup was declined.", false)
    | .ok 3 => (.error "The hardware driver could not be installed.", false)
    | .ok 4 => (.error "The background helper could not be registered.", false)
    | .ok _ => (.error "Setup did not complete.", false)

variable {driver : Except Installer.InstallError Unit}
  {service helper : Except ServiceControl.ServiceError Unit}
  {child : Except Installer.InstallError UInt32} {text : String} {reprobe : Bool}

/-- The user is told of success on one exit code alone. -/
lemma enableTemperature_ok (h : enableTemperature helper child = (.ok text, reprobe)) :
    child = .ok 0 ∧ reprobe = true := by
  unfold enableTemperature at h
  split at h
  · cases h
  · split at h
    · cases h
    · obtain ⟨-, rfl⟩ := Prod.mk.inj h
      exact ⟨rfl, rfl⟩
    all_goals cases h

/-- And that code means that the helper is set up, whatever the installer of the driver did. -/
lemma setup_eq_zero (h : setup driver service = 0) : service = .ok () ∧
    (driver = .ok () ∨ driver = .error .alreadyInstalled ∨ driver = .error .installerFailed) := by
  have hhelper : ∀ service : Except ServiceControl.ServiceError Unit,
      setup (.ok ()) service = 0 → service = .ok () := by
    intro service hzero
    match service with
    | .ok () => rfl
    | .error e => simp [setup] at hzero
  match driver with
  | .ok () => exact ⟨hhelper _ h, .inl rfl⟩
  | .error e => cases e <;> first | exact ⟨hhelper _ h, by simp⟩ | simp [setup] at h

/-- When the user is told that the temperature is enabled, the loop is asked to open the mapping,
one setup program was run, which had passed what others did not put in its place afterwards, and
the helper that lay beside the caller is installed, registered and has run. -/
theorem enabled_stands (signed : List UInt8 → Bool) (temporary : Option (List UInt8))
    (beside installed : String) (m : ServiceControl.Machine)
    {driverActions : List Installer.Action} {installation : Installer.Installation}
    (hdriver : run (Installer.step signed) (Installer.start temporary) driverActions =
      some installation) (hdone : installation.phase = .finished driver)
    {serviceActions : List ServiceControl.Action} {s : ServiceControl.Setup}
    (hservice : run (ServiceControl.step beside installed .install)
      (ServiceControl.start .install m) serviceActions = some s)
    (hover : s.phase = .finished service)
    (h : enableTemperature helper (.ok (setup driver service)) = (.ok text, reprobe)) :
    reprobe = true ∧
      (∃ c, installation.launched = [c] ∧ Installer.PassedAtLaunch signed driverActions c) ∧
      ∃ program, ServiceControl.Reported beside installed m s program := by
  obtain ⟨hcode, hreprobe⟩ := enableTemperature_ok h
  obtain ⟨rfl, hdriverResult⟩ := setup_eq_zero (Except.ok.inj hcode)
  have hone : installation.launched.length = 1 := by
    have hconsistent := Installer.consistent_of_run hdriver
    rw [Installer.Consistent, hdone] at hconsistent
    rcases hdriverResult with rfl | rfl | rfl
    · exact hconsistent
    · rcases hconsistent with ⟨hearly, -⟩ | ⟨hlate, -⟩
      · exact hearly.elim
      · simp at hlate
    · rcases hconsistent with ⟨hearly, -⟩ | ⟨-, hone⟩
      · exact hearly.elim
      · exact hone
  obtain ⟨c, hc⟩ := List.length_eq_one_iff.mp hone
  exact ⟨hreprobe, ⟨c, hc, (Installer.traced_of_run hdriver).launched c (by simp [hc])⟩,
    ServiceControl.reported_of_run hservice hover⟩

section Upgrade
open Installer BoundedRead

/-- The driver is there already, so its installer exits with an error. -/
def presentActions : List Installer.Action :=
  [.answered (.ofBytes zeros), .written, .checked] ++ [.started, .exited 1]

theorem upgrade_enabled :
    let installation : Installation :=
      ⟨.finished (.error .installerFailed), some zeros, [zeros]⟩
    true = true ∧ (∃ c, installation.launched = [c] ∧
      PassedAtLaunch (fun _ => true) presentActions c) ∧
      ∃ program, ServiceControl.Reported "new" "installed" ServiceControl.oldMachine
        ServiceControl.upgraded program := by
  intro installation
  have hdriver : run (step fun _ => true) (start none) presentActions = some installation :=
    run_append.mpr ⟨_, run_checked none looksRight_zeros rfl, rfl⟩
  have hover : ServiceControl.upgraded.phase = .finished (.ok ()) := by rfl
  have htold : enableTemperature (.ok ()) (.ok (setup (.error .installerFailed) (.ok ()))) =
      (.ok "Temperature enabled.", true) := rfl
  exact enabled_stands (fun _ => true) none "new" "installed" ServiceControl.oldMachine hdriver rfl
    ServiceControl.run_upgradeActions hover htold

end Upgrade

end LoadBear.Enabling
