import LoadBear.BoundedRead
import LoadBear.Transitions

/-!
# Running the installer of the driver

The setup program is downloaded, written to a temporary file, checked for its signature and run
elevated, in that order. The file lies where others can write to it all the while. What is run
had a trusted signature when it was checked, or somebody else put it there after the check.
-/
namespace LoadBear.Installer

open BoundedRead Transitions

inductive InstallError
  | downloadFailed
  | stagingFailed
  | notAnInstaller
  | signatureRejected
  | launchFailed
  | declined
  | alreadyInstalled
  | installerFailed
  deriving DecidableEq, Repr

def InstallError.message : InstallError → String
  | downloadFailed =>
    "the driver installer could not be downloaded. Check your connection and try again."
  | stagingFailed => "the downloaded installer could not be written to a temporary file"
  | notAnInstaller => "the downloaded file does not look like an installer"
  | signatureRejected => "the download is not signed by a trusted publisher, so it was not run"
  | launchFailed => "the installer could not be started"
  | declined => "installation was declined"
  | alreadyInstalled => "PawnIO is already installed. Uninstall it first to reinstall."
  | installerFailed => "the installer ran but did not complete successfully"

def maxInstallerBytes : ℕ := 32 * 1024 * 1024

def minInstallerBytes : ℕ := 1024 * 1024

/-- What every program starts with. -/
def magic : List UInt8 := [0x4d, 0x5a]

/-- What one read can take. -/
def chunkBytes : ℕ := 64 * 1024

/-- What comes of the request: a status, if there is an answer at all, and what the reads after
it give. -/
structure Response where
  status : Option ℕ
  answers : List (Option (List UInt8))
  fits : ∀ piece, some piece ∈ answers → piece.length ≤ chunkBytes

/-- The body comes in some pieces, and then the server is done. -/
def Response.ofPieces (pieces : List (List UInt8))
    (hfits : ∀ piece ∈ pieces, piece.length ≤ chunkBytes) : Response where
  status := some 200
  answers := stream pieces false
  fits piece hpiece := by
    rcases List.mem_append.mp hpiece with hmapped | hend
    · obtain ⟨other, hother, heq⟩ := List.mem_map.mp hmapped
      exact Option.some.inj heq ▸ hfits other hother
    · simp at hend
      simp [hend]

/-- One byte for each read. -/
def Response.ofBytes (body : List UInt8) : Response :=
  .ofPieces (body.map fun byte => [byte]) (by simp [chunkBytes])

/-- Fetch the official setup program into memory. A read that waits for too long fails. -/
def fetch (r : Response) : Except InstallError (List UInt8) :=
  if r.status = some 200 then
    let read := gather maxInstallerBytes [] r.answers
    match read.stop with
    | .waiting | .failed => .error .downloadFailed
    | .tooLong => .error .notAnInstaller
    | .ended =>
      if read.held.length < minInstallerBytes ∨ ¬magic.isPrefixOf read.held then
        .error .notAnInstaller
      else .ok read.held
  else .error .downloadFailed

/-- The shape and size that reach the check of the signature. -/
def LooksRight (body : List UInt8) : Prop :=
  minInstallerBytes ≤ body.length ∧ body.length ≤ maxInstallerBytes ∧ magic <+: body

/-- Only what looks right is fetched. -/
lemma looksRight_of_fetch {r : Response} {body : List UInt8} (h : fetch r = .ok body) :
    LooksRight body := by
  unfold fetch at h
  split at h
  · have hlong : (gather maxInstallerBytes [] r.answers).stop = .tooLong ↔
        maxInstallerBytes < (gather maxInstallerBytes [] r.answers).held.length :=
      stop_iff (Nat.zero_le _)
    dsimp only at h
    split at h
    · cases h
    · cases h
    · cases h
    · rename_i hended
      split at h
      · cases h
      · rename_i hshape
        obtain rfl := Except.ok.inj h
        push Not at hshape
        refine ⟨hshape.1, not_lt.mp fun hmore => ?_, List.isPrefixOf_iff_prefix.mp hshape.2⟩
        simp [hlong.mpr hmore] at hended
  · cases h

/-- However it is divided, what looks right is fetched whole. -/
lemma fetch_ofPieces {pieces : List (List UInt8)}
    (hfits : ∀ piece ∈ pieces, piece.length ≤ chunkBytes) (hne : ∀ piece ∈ pieces, piece ≠ [])
    (h : LooksRight pieces.flatten) : fetch (.ofPieces pieces hfits) = .ok pieces.flatten := by
  obtain ⟨hmin, hmax, hmagic⟩ := h
  have hgather := gather_stream maxInstallerBytes false hne
  rw [if_neg (not_lt.mpr hmax)] at hgather
  have hshape : ¬(pieces.flatten.length < minInstallerBytes ∨
      ¬magic.isPrefixOf pieces.flatten) := by
    rw [List.isPrefixOf_iff_prefix, not_or, not_not]
    exact ⟨not_lt.mpr hmin, hmagic⟩
  simp only [fetch, Response.ofPieces, hgather, if_true, if_neg hshape]
  rfl

lemma fetch_ofBytes {body : List UInt8} (h : LooksRight body) :
    fetch (.ofBytes body) = .ok body := by
  have hflat : (body.map fun byte => [byte]).flatten = body := List.flatMap_singleton' body
  have hne : ∀ piece ∈ body.map fun byte => [byte], piece ≠ [] := by simp
  have hfetch := fetch_ofPieces (by simp [chunkBytes]) hne (by rwa [hflat])
  rwa [hflat] at hfetch

section Run

/-- How far the installation has come. -/
inductive Phase
  | fetching
  | staging (body : List UInt8)
  | checking
  | launching
  | running
  | removing
  | finished (result : Except InstallError Unit)

/-- An installation, the temporary file, and what was handed over to be run elevated. -/
structure Installation where
  phase : Phase
  file : Option (List UInt8)
  launched : List (List UInt8)

def start (file : Option (List UInt8)) : Installation := ⟨.fetching, file, []⟩

/-- What can happen: the server answers; the file is written, or is not and left somehow; the
signature is checked; the user declines, no process comes of it, or the program is started; it
exits; the file is removed or not. At any time somebody else can write to the file. -/
inductive Action
  | answered (r : Response)
  | written
  | unwritten (left : Option (List UInt8))
  | checked
  | refused
  | lost
  | started
  | exited (code : UInt32)
  | removed (gone : Bool)
  | meddled (file : Option (List UInt8))

variable (signed : List UInt8 → Bool)

/-- Download, verify and run, in that order. -/
def step (s : Installation) (a : Action) : Option Installation :=
  match s.phase, a with
  | _, .meddled file => some { s with file := file }
  | .fetching, .answered r =>
    match fetch r with
    | .ok body => some { s with phase := .staging body }
    | .error e => some { s with phase := .finished (.error e) }
  | .staging body, .written => some { s with phase := .checking, file := some body }
  | .staging _, .unwritten left =>
    some { s with phase := .finished (.error .stagingFailed), file := left }
  | .checking, .checked =>
    if s.file.any signed then some { s with phase := .launching }
    else some { s with phase := .finished (.error .signatureRejected) }
  | .launching, .refused => some { s with phase := .finished (.error .declined) }
  | .launching, .lost =>
    s.file.map fun c =>
      { s with phase := .finished (.error .launchFailed), launched := s.launched ++ [c] }
  | .launching, .started =>
    s.file.map fun c => { s with phase := .running, launched := s.launched ++ [c] }
  | .running, .exited code =>
    if code = 0 then some { s with phase := .removing }
    else some { s with phase := .finished (.error .installerFailed) }
  | .removing, .removed gone =>
    some { s with phase := .finished (.ok ()), file := if gone then none else s.file }
  | _, _ => none

/-- What a step does. -/
inductive Step (s : Installation) : Action → Installation → Prop
  | meddled (file) : Step s (.meddled file) { s with file := file }
  | fetched {r body} (hphase : s.phase = .fetching) (hfetch : fetch r = .ok body) :
    Step s (.answered r) { s with phase := .staging body }
  | failed {r e} (hphase : s.phase = .fetching) (hfetch : fetch r = .error e) :
    Step s (.answered r) { s with phase := .finished (.error e) }
  | written {body} (hphase : s.phase = .staging body) :
    Step s .written { s with phase := .checking, file := some body }
  | unwritten {body left} (hphase : s.phase = .staging body) :
    Step s (.unwritten left) { s with phase := .finished (.error .stagingFailed), file := left }
  | trusted {c} (hphase : s.phase = .checking) (hfile : s.file = some c) (hsigned : signed c) :
    Step s .checked { s with phase := .launching }
  | rejected (hphase : s.phase = .checking) :
    Step s .checked { s with phase := .finished (.error .signatureRejected) }
  | refused (hphase : s.phase = .launching) :
    Step s .refused { s with phase := .finished (.error .declined) }
  | lost {c} (hphase : s.phase = .launching) (hfile : s.file = some c) :
    Step s .lost
      { s with phase := .finished (.error .launchFailed), launched := s.launched ++ [c] }
  | started {c} (hphase : s.phase = .launching) (hfile : s.file = some c) :
    Step s .started { s with phase := .running, launched := s.launched ++ [c] }
  | succeeded (hphase : s.phase = .running) :
    Step s (.exited 0) { s with phase := .removing }
  | exited {code} (hphase : s.phase = .running) (hcode : code ≠ 0) :
    Step s (.exited code) { s with phase := .finished (.error .installerFailed) }
  | removed {gone} (hphase : s.phase = .removing) :
    Step s (.removed gone)
      { s with phase := .finished (.ok ()), file := if gone then none else s.file }

variable {signed} {s t : Installation} {a : Action}

lemma step_cases (h : step signed s a = some t) : Step signed s a t := by
  unfold step at h
  split at h
  · obtain rfl := Option.some.inj h
    exact .meddled _
  · rename_i hphase
    split at h
    · rename_i hfetch
      obtain rfl := Option.some.inj h
      exact .fetched hphase hfetch
    · rename_i hfetch
      obtain rfl := Option.some.inj h
      exact .failed hphase hfetch
  · rename_i hphase
    obtain rfl := Option.some.inj h
    exact .written hphase
  · rename_i hphase
    obtain rfl := Option.some.inj h
    exact .unwritten hphase
  · rename_i hphase
    split at h
    · rename_i htrusted
      obtain rfl := Option.some.inj h
      obtain ⟨c, hfile, hsigned⟩ := (Option.any_eq_true _ _).mp htrusted
      exact .trusted hphase hfile hsigned
    · obtain rfl := Option.some.inj h
      exact .rejected hphase
  · rename_i hphase
    obtain rfl := Option.some.inj h
    exact .refused hphase
  · rename_i hphase
    obtain ⟨c, hfile, rfl⟩ := Option.map_eq_some_iff.mp h
    exact .lost hphase hfile
  · rename_i hphase
    obtain ⟨c, hfile, rfl⟩ := Option.map_eq_some_iff.mp h
    exact .started hphase hfile
  · rename_i hphase
    split at h
    · rename_i hcode
      obtain rfl := Option.some.inj h
      exact hcode ▸ .succeeded hphase
    · rename_i hcode
      obtain rfl := Option.some.inj h
      exact .exited hphase hcode
  · rename_i hphase
    obtain rfl := Option.some.inj h
    exact .removed hphase
  · cases h

/-- Somebody else put it into the file since something was done. -/
def PutSince (mark : Action) (actions : List Action) (c : List UInt8) : Prop :=
  ∃ before since, actions = before ++ mark :: since ∧ .meddled (some c) ∈ since

variable {actions : List Action} {mark : Action} {c : List UInt8}

lemma PutSince.concat (h : PutSince mark actions c) (a : Action) :
    PutSince mark (actions ++ [a]) c := by
  obtain ⟨before, since, rfl, hput⟩ := h
  exact ⟨before, since ++ [a], by simp, List.mem_append_left _ hput⟩

lemma putSince_meddled (h : mark ∈ actions) : PutSince mark (actions ++ [.meddled (some c)]) c := by
  obtain ⟨before, since, rfl⟩ := List.append_of_mem h
  exact ⟨before, since ++ [.meddled (some c)], by simp, by simp⟩

variable (signed) in
/-- It looks right and is signed, but for what others put into the file since it was written, and
since it was checked. -/
def Passed (actions : List Action) (c : List UInt8) : Prop :=
  (LooksRight c ∨ PutSince .written actions c) ∧ (signed c ∨ PutSince .checked actions c)

def Action.Launches (a : Action) : Prop := a = .started ∨ a = .lost

variable (signed) in
/-- It had passed when it was launched. -/
def PassedAtLaunch (actions : List Action) (c : List UInt8) : Prop :=
  ∃ before launch after, actions = before ++ launch :: after ∧ launch.Launches ∧
    Passed signed before c

lemma PassedAtLaunch.concat (h : PassedAtLaunch signed actions c) (a : Action) :
    PassedAtLaunch signed (actions ++ [a]) c := by
  obtain ⟨before, launch, after, rfl, hlaunch, hpassed⟩ := h
  exact ⟨before, launch, after ++ [a], by simp, hlaunch, hpassed⟩

variable (signed) in
/-- Where the file and what was launched come from. -/
structure Traced (actions : List Action) (s : Installation) : Prop where
  staging : ∀ body, s.phase = .staging body → LooksRight body
  checking : s.phase = .checking → .written ∈ actions ∧
    ∀ c ∈ s.file, LooksRight c ∨ PutSince .written actions c
  launching : s.phase = .launching → .written ∈ actions ∧ .checked ∈ actions ∧
    ∀ c ∈ s.file, Passed signed actions c
  launched : ∀ c ∈ s.launched, PassedAtLaunch signed actions c

lemma Traced.start (file : Option (List UInt8)) : Traced signed [] (start file) :=
  ⟨by simp [Installer.start], by simp [Installer.start], by simp [Installer.start],
    by simp [Installer.start]⟩

lemma Traced.later (hs : Traced signed actions s) :
    ∀ c ∈ s.launched, PassedAtLaunch signed (actions ++ [a]) c :=
  fun c hc => (hs.launched c hc).concat a

/-- What is launched is what the file holds. -/
lemma Traced.launch (hs : Traced signed actions s) (ha : a.Launches)
    (hphase : s.phase = .launching) (hfile : s.file = some c) :
    ∀ d ∈ s.launched ++ [c], PassedAtLaunch signed (actions ++ [a]) d := by
  intro d hd
  rcases List.mem_append.mp hd with hbefore | hnow
  · exact hs.later d hbefore
  · obtain rfl := List.mem_singleton.mp hnow
    obtain ⟨-, -, hpassed⟩ := hs.launching hphase
    exact ⟨actions, a, [], rfl, ha, hpassed d hfile⟩

lemma Traced.step (hs : Traced signed actions s) (h : Step signed s a t) :
    Traced signed (actions ++ [a]) t := by
  cases h with
  | meddled file =>
    refine ⟨hs.staging, fun hphase => ?_, fun hphase => ?_, hs.later⟩
    · obtain ⟨hwritten, -⟩ := hs.checking hphase
      refine ⟨List.mem_append_left _ hwritten, fun c hc => .inr ?_⟩
      obtain rfl : file = some c := hc
      exact putSince_meddled hwritten
    · obtain ⟨hwritten, hchecked, -⟩ := hs.launching hphase
      refine ⟨List.mem_append_left _ hwritten, List.mem_append_left _ hchecked, fun c hc => ?_⟩
      obtain rfl : file = some c := hc
      exact ⟨.inr (putSince_meddled hwritten), .inr (putSince_meddled hchecked)⟩
  | fetched hphase hfetch =>
    refine ⟨fun body hbody => ?_, by simp, by simp, hs.later⟩
    exact Phase.staging.inj hbody ▸ looksRight_of_fetch hfetch
  | written hphase =>
    refine ⟨by simp, fun _ => ⟨by simp, fun c hc => .inl ?_⟩, by simp, hs.later⟩
    exact Option.some.inj hc ▸ hs.staging _ hphase
  | trusted hphase hfile hsigned =>
    obtain ⟨hwritten, hshape⟩ := hs.checking hphase
    refine ⟨by simp, by simp, fun _ => ⟨List.mem_append_left _ hwritten, by simp, ?_⟩, hs.later⟩
    intro c hc
    refine ⟨(hshape c hc).imp_right (·.concat _), .inl ?_⟩
    exact Option.some.inj (hfile.symm.trans hc) ▸ hsigned
  | lost hphase hfile =>
    exact ⟨by simp, by simp, by simp, hs.launch (.inr rfl) hphase hfile⟩
  | started hphase hfile =>
    exact ⟨by simp, by simp, by simp, hs.launch (.inl rfl) hphase hfile⟩
  | failed | unwritten | rejected | refused | succeeded | exited | removed =>
    exact ⟨by simp, by simp, by simp, hs.later⟩

lemma traced_of_run {file : Option (List UInt8)}
    (h : run (step signed) (start file) actions = some s) : Traced signed actions s :=
  run_traces (P := Traced signed) (.start file)
    (fun _ _ _ _ hs hstep => hs.step (step_cases hstep)) h

/-- However the server answers and whatever others write and when: what is handed to Windows to
run elevated looks right and is signed, but for what others put into the file after it was
written, and after it was checked, and before the launch. -/
theorem launched_passed (signed : List UInt8 → Bool) (file : Option (List UInt8))
    {actions : List Action} {s : Installation}
    (h : run (step signed) (start file) actions = some s) {c : List UInt8}
    (hc : c ∈ s.launched) :
    ∃ before launch after, actions = before ++ launch :: after ∧ launch.Launches ∧
      (LooksRight c ∨ PutSince .written before c) ∧ (signed c ∨ PutSince .checked before c) :=
  (traced_of_run h).launched c hc

/-- A downloaded program that is signed gets to its launch. -/
lemma run_checked (file : Option (List UInt8)) (hshape : LooksRight c) (hsigned : signed c) :
    run (step signed) (start file)
        [.answered (.ofBytes c), .written, .checked] =
      some ⟨.launching, some c, []⟩ := by
  simp [run, step, start, fetch_ofBytes hshape, hsigned]

/-- A megabyte of zeros behind what a program starts with. -/
def zeros : List UInt8 := magic ++ List.replicate minInstallerBytes 0

lemma length_zeros : zeros.length = 2 + minInstallerBytes := by
  rw [zeros, List.length_append, List.length_replicate]
  rfl

lemma looksRight_zeros : LooksRight zeros := by
  refine ⟨?_, ?_, List.prefix_append _ _⟩ <;> rw [length_zeros] <;> decide

/-- Somebody puts another file in its place once it is checked. -/
theorem swapped_passed :
    let actions : List Action := [.answered (.ofBytes zeros), .written, .checked] ++
      [.meddled (some [1]), .started]
    ∃ before launch after, actions = before ++ launch :: after ∧ launch.Launches ∧
      (LooksRight [1] ∨ PutSince .written before [1]) ∧
      (([1] : List UInt8) != [1] ∨ PutSince .checked before [1]) := by
  have hother : zeros != [1] := by
    rw [bne_iff_ne]
    intro h
    have hlength := congrArg List.length h
    rw [length_zeros, List.length_singleton] at hlength
    omega
  exact launched_passed (· != [1]) none
    (run_append.mpr ⟨_, run_checked none looksRight_zeros hother, rfl⟩) (List.mem_singleton.mpr rfl)

/-- If nobody else writes to the file, then what can come to be run elevated are the signed
programs of an acceptable size, and no others. -/
theorem launchable_iff (signed : List UInt8 → Bool) (file : Option (List UInt8))
    (c : List UInt8) :
    (∃ actions s, run (step signed) (start file) actions = some s ∧ c ∈ s.launched ∧
      ∀ other, .meddled other ∉ actions) ↔ signed c ∧ LooksRight c := by
  constructor
  · rintro ⟨actions, s, hrun, hlaunched, halone⟩
    obtain ⟨before, launch, after, rfl, -, hshape, hsigned⟩ :=
      (traced_of_run hrun).launched c hlaunched
    have hnot (mark : Action) : ¬PutSince mark before c := by
      rintro ⟨early, since, rfl, hput⟩
      exact halone (some c) (by simp [hput])
    exact ⟨hsigned.resolve_right (hnot _), hshape.resolve_right (hnot _)⟩
  · rintro ⟨hsigned, hshape⟩
    have hlaunch : run (step signed) ⟨.launching, some c, []⟩ [.started] =
        some ⟨.running, some c, [c]⟩ := rfl
    exact ⟨_, _, run_append.mpr ⟨_, run_checked file hshape hsigned, hlaunch⟩,
      List.mem_singleton.mpr rfl, by simp⟩

/-- The errors of an installation that has handed nothing over. -/
def InstallError.Early : InstallError → Prop
  | downloadFailed | stagingFailed | notAnInstaller | signatureRejected | declined => True
  | launchFailed | alreadyInstalled | installerFailed => False

/-- Whether something was launched shows in the phase. -/
def Consistent (s : Installation) : Prop :=
  match s.phase with
  | .fetching | .staging _ | .checking | .launching => s.launched = []
  | .running | .removing | .finished (.ok ()) => s.launched.length = 1
  | .finished (.error e) => (e.Early ∧ s.launched = []) ∨
      ((e = .launchFailed ∨ e = .installerFailed) ∧ s.launched.length = 1)

lemma fetch_early {r : Response} {e : InstallError} (h : fetch r = .error e) : e.Early := by
  unfold fetch at h
  split at h
  · dsimp only at h
    split at h
    · exact Except.error.inj h ▸ trivial
    · exact Except.error.inj h ▸ trivial
    · exact Except.error.inj h ▸ trivial
    · split at h
      · exact Except.error.inj h ▸ trivial
      · cases h
  · exact Except.error.inj h ▸ trivial

lemma Consistent.step (hs : Consistent s) (h : Step signed s a t) : Consistent t := by
  cases h with
  | meddled file => exact hs
  | fetched hphase _ | written hphase | trusted hphase _ _ | succeeded hphase
  | removed hphase =>
    rw [Consistent, hphase] at hs
    exact hs
  | failed hphase hfetch =>
    rw [Consistent, hphase] at hs
    exact .inl ⟨fetch_early hfetch, hs⟩
  | unwritten hphase | rejected hphase | refused hphase =>
    rw [Consistent, hphase] at hs
    exact .inl ⟨trivial, hs⟩
  | lost hphase hfile =>
    rw [Consistent, hphase] at hs
    exact .inr ⟨.inl rfl, by simp [hs]⟩
  | started hphase hfile =>
    rw [Consistent, hphase] at hs
    change (s.launched ++ _).length = 1
    simp [hs]
  | exited hphase hcode =>
    rw [Consistent, hphase] at hs
    exact .inr ⟨.inr rfl, hs⟩

lemma consistent_of_run {file : Option (List UInt8)}
    (h : run (step signed) (start file) actions = some s) : Consistent s := by
  have hstart : Consistent (start file) := rfl
  exact run_keeps (P := Consistent) (fun _ _ _ hs hstep => hs.step (step_cases hstep)) hstart h

/-- Of an installation that is over, the result tells whether anything was handed to Windows to
run, which happens once at most. -/
theorem launched_of_finished (signed : List UInt8 → Bool) (file : Option (List UInt8))
    {actions : List Action} {s : Installation} {result : Except InstallError Unit}
    (h : run (step signed) (start file) actions = some s) (hover : s.phase = .finished result) :
    (s.launched = [] ↔ ∃ e, result = .error e ∧ e.Early) ∧ s.launched.length ≤ 1 ∧
      result ≠ .error .alreadyInstalled := by
  have hs : Consistent s := consistent_of_run h
  rw [Consistent, hover] at hs
  match result with
  | .ok () =>
    have hone : s.launched.length = 1 := hs
    refine ⟨⟨fun hnil => by simp [hnil] at hone, ?_⟩, hone.le, by simp⟩
    rintro ⟨e, he, -⟩
    cases he
  | .error e =>
    rcases hs with ⟨hearly, hnil⟩ | ⟨hlate, hone⟩
    · refine ⟨⟨fun _ => ⟨e, rfl, hearly⟩, fun _ => hnil⟩, by simp [hnil], ?_⟩
      intro heq
      obtain rfl := Except.error.inj heq
      exact hearly
    · refine ⟨⟨fun hnil => by simp [hnil] at hone, ?_⟩, hone.le, ?_⟩
      · rintro ⟨e', he', hearly⟩
        obtain rfl := Except.error.inj he'
        rcases hlate with rfl | rfl <;> exact hearly.elim
      · intro heq
        obtain rfl := Except.error.inj heq
        simp at hlate

/-- The setup program runs to its end and is removed. -/
theorem zeros_launched :
    let s : Installation := ⟨.finished (.ok ()), none, [zeros]⟩
    (s.launched = [] ↔ ∃ e, (.ok () : Except InstallError Unit) = .error e ∧ e.Early) ∧
      s.launched.length ≤ 1 ∧
      (.ok () : Except InstallError Unit) ≠ .error .alreadyInstalled := by
  have hrun : run (step fun _ => true) (start none)
      ([.answered (.ofBytes zeros), .written, .checked] ++ [.started, .exited 0, .removed true]) =
      some ⟨.finished (.ok ()), none, [zeros]⟩ :=
    run_append.mpr ⟨_, run_checked none looksRight_zeros rfl, rfl⟩
  exact launched_of_finished (fun _ => true) none hrun rfl

end Run

end LoadBear.Installer
