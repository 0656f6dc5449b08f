import LoadBear.Docker

/-!
# What an answer can do to the reader

The scanners only slice at places they found, so no text stops them. The chunks are cut at
lengths the engine counted in the bytes it sent, and what was no character by then has been
replaced by a mark of three bytes: a length that ends inside a character stops the thread.
-/
namespace LoadBear.Docker

open ByteText

section Chunks

/-- Putting the chunks together comes to one whose length ends inside a character. -/
inductive CutsCharacter : List Char → Prop
  | here {remaining sizeLine after : List Char}
      (line : splitOnce crlf remaining = some (sizeLine, after))
      (positive : 0 < chunkSize sizeLine) (inRange : chunkSize sizeLine ≤ size after)
      (inside : ∀ piece rest, after = piece ++ rest → size piece ≠ chunkSize sizeLine) :
      CutsCharacter remaining
  | later {remaining sizeLine after piece rest : List Char}
      (line : splitOnce crlf remaining = some (sizeLine, after))
      (positive : 0 < chunkSize sizeLine) (parts : after = piece ++ rest)
      (between : size piece = chunkSize sizeLine)
      (next : CutsCharacter ((stripPrefix crlf rest).getD [])) : CutsCharacter remaining

lemma length_stripPrefix_le (rest : List Char) :
    ((stripPrefix crlf rest).getD []).length ≤ rest.length := by
  cases h : stripPrefix crlf rest with
  | none => simp
  | some after => simp [eq_of_stripPrefix h]

/-- A response with nothing more to put together cuts nothing. -/
lemma not_cutsCharacter_of_stop {remaining sizeLine after : List Char}
    (hline : splitOnce crlf remaining = some (sizeLine, after))
    (hstop : chunkSize sizeLine = 0 ∨ size after < chunkSize sizeLine) :
    ¬CutsCharacter remaining := by
  intro h
  cases h with
  | here line positive inRange inside =>
    obtain ⟨rfl, rfl⟩ := Prod.mk.inj (Option.some.inj (hline.symm.trans line))
    omega
  | later line positive parts between next =>
    obtain ⟨rfl, rfl⟩ := Prod.mk.inj (Option.some.inj (hline.symm.trans line))
    subst parts
    rw [size_append] at hstop
    omega

lemma cutsCharacter_iff_next {remaining sizeLine piece rest : List Char}
    (hline : splitOnce crlf remaining = some (sizeLine, piece ++ rest))
    (hpositive : 0 < chunkSize sizeLine) (hsize : size piece = chunkSize sizeLine) :
    CutsCharacter remaining ↔ CutsCharacter ((stripPrefix crlf rest).getD []) := by
  constructor
  · intro h
    cases h with
    | here line positive inRange inside =>
      obtain ⟨rfl, rfl⟩ := Prod.mk.inj (Option.some.inj (hline.symm.trans line))
      exact absurd hsize (inside piece rest rfl)
    | later line positive parts between next =>
      obtain ⟨rfl, rfl⟩ := Prod.mk.inj (Option.some.inj (hline.symm.trans line))
      have hsame : cut (size piece) (piece ++ rest) = .ok (piece, rest) := cut_append
      rw [parts, hsize, ← between, cut_append] at hsame
      obtain ⟨-, rfl⟩ := Prod.mk.inj (Except.ok.inj hsame)
      exact next
  · exact fun h => .later hline hpositive rfl hsize h

/-- With fuel for every character the chunks are put together, or a slice stops it. -/
lemma dechunk_cases {fuel : ℕ} {remaining : List Char} (h : remaining.length < fuel) :
    (∃ out, dechunk fuel remaining = .ok out ∧ out.length ≤ remaining.length ∧
      ¬CutsCharacter remaining) ∨
    (dechunk fuel remaining = .error .slice ∧ CutsCharacter remaining) := by
  induction fuel generalizing remaining with
  | zero => omega
  | succ fuel ih =>
    rw [dechunk]
    cases hline : splitOnce crlf remaining with
    | none =>
      refine .inl ⟨[], rfl, by simp, fun hcuts => ?_⟩
      cases hcuts with
      | here line => simp [hline] at line
      | later line => simp [hline] at line
    | some parts =>
      obtain ⟨sizeLine, after⟩ := parts
      by_cases hstop : chunkSize sizeLine = 0 ∨ size after < chunkSize sizeLine
      · exact .inl ⟨[], by simp [hstop], by simp, not_cutsCharacter_of_stop hline hstop⟩
      obtain ⟨hpositive, hrange⟩ : 0 < chunkSize sizeLine ∧ chunkSize sizeLine ≤ size after := by
        omega
      simp only [if_neg hstop]
      cases hcut : cut (chunkSize sizeLine) after with
      | error e =>
        obtain rfl := cut_error hcut
        have hto : sliceTo (chunkSize sizeLine) after = .error .slice := by rw [sliceTo, hcut]; rfl
        refine .inr ⟨by rw [hto]; rfl, ?_⟩
        exact .here hline hpositive hrange (cut_eq_error_iff.mp ⟨_, hcut⟩)
      | ok cutParts =>
        obtain ⟨piece, rest⟩ := cutParts
        obtain ⟨rfl, hsize⟩ := eq_append_of_cut hcut
        have hlength : remaining.length = sizeLine.length + (piece.length + rest.length + 2) := by
          rw [eq_of_splitOnce hline]
          simp [crlf]
        have hto : sliceTo (chunkSize sizeLine) (piece ++ rest) = .ok piece :=
          hsize ▸ sliceTo_append
        have hfrom : sliceFrom (chunkSize sizeLine) (piece ++ rest) = .ok rest :=
          hsize ▸ sliceFrom_append
        have hnext := length_stripPrefix_le rest
        rw [cutsCharacter_iff_next hline hpositive hsize]
        have hfuel : ((stripPrefix crlf rest).getD []).length < fuel := by omega
        rcases ih hfuel with ⟨out, hout, hshort, hcuts⟩ | ⟨hout, hcuts⟩
        · refine .inl ⟨piece ++ out, ?_, ?_, hcuts⟩
          · rw [hto, hfrom]
            simp only [bind, Except.bind, hout]
            rfl
          · rw [List.length_append]
            omega
        · refine .inr ⟨?_, hcuts⟩
          rw [hto, hfrom]
          simp only [bind, Except.bind, hout]

end Chunks

section Elements

/-- A piece of the text from an opening brace to a closing one. -/
def IsElement (text item : List Char) : Prop :=
  item <:+: text ∧ ∃ inner, item = '{' :: (inner ++ ['}'])

/-- After some of the text: a start is the place of an opening brace, and the depth is no
greater than the number of characters. -/
structure Scan.Sound (text done : List Char) (s : Scan) : Prop where
  start : ∀ place ∈ s.start, ∃ before inner, done = before ++ '{' :: inner ∧ size before = place
  depth : |s.depth| ≤ done.length
  items : ∀ item ∈ s.items, IsElement text item

variable {text done rest : List Char} {s : Scan} {c : Char}

lemma checkedDepth_of_abs_le {depth : ℤ} {n : ℕ} (h : |depth| ≤ n) (hn : n < 2 ^ 31) :
    checkedDepth depth = .ok depth := by
  obtain ⟨hlow, hhigh⟩ := abs_le.mp h
  apply checkedDepth_eq
  · omega
  · omega

/-- A character that moves no brace keeps what is known. -/
lemma Scan.Sound.skip (h : s.Sound text done) (inString escaped : Bool) :
    Scan.Sound text (done ++ [c]) { s with inString := inString, escaped := escaped } where
  start := by
    intro place hplace
    obtain ⟨before, inner, rfl, hsize⟩ := h.start place hplace
    exact ⟨before, inner ++ [c], by simp, hsize⟩
  depth := by
    have hdepth := h.depth
    rw [List.length_append]
    push_cast
    omega
  items := h.items

/-- The element that a closing brace ends is there to be sliced. -/
lemma slice_element (htext : text = done ++ '}' :: rest) (h : s.Sound text done) {place : ℕ}
    (hplace : place ∈ s.start) :
    ∃ item, slice place (size done + 1) text = .ok item ∧ IsElement text item := by
  obtain ⟨before, inner, rfl, rfl⟩ := h.start place hplace
  have hsplit : text = before ++ ('{' :: (inner ++ ['}']) ++ rest) := by simp [htext]
  have hend : size (before ++ '{' :: inner) + 1 =
      size before + size ('{' :: (inner ++ ['}'])) := by
    have hbrace : '}'.utf8Size = 1 := rfl
    simp [hbrace]
    omega
  refine ⟨'{' :: (inner ++ ['}']), ?_, ⟨before, rest, by rw [hsplit]; simp⟩, inner, rfl⟩
  rw [hend, hsplit]
  exact slice_append _

/-- Whatever the character, the scan goes on. -/
lemma Scan.step_sound (htext : text = done ++ c :: rest) (hlength : text.length < 2 ^ 31)
    (h : s.Sound text done) :
    ∃ next, s.step text (size done) c = .ok next ∧ next.Sound text (done ++ [c]) := by
  have hdone : done.length + 1 ≤ text.length := by
    rw [htext]
    simp
  have hdepth := h.depth
  unfold Scan.step
  by_cases hescaped : s.escaped
  · exact ⟨_, if_pos hescaped, h.skip s.inString false⟩
  rw [if_neg hescaped]
  by_cases hbackslash : c = '\\' ∧ s.inString
  · exact ⟨_, if_pos hbackslash, h.skip s.inString true⟩
  rw [if_neg hbackslash]
  by_cases hquote : c = '"'
  · exact ⟨_, if_pos hquote, h.skip (!s.inString) s.escaped⟩
  rw [if_neg hquote]
  by_cases hopen : c = '{' ∧ ¬s.inString
  · have hdeeper : |s.depth + 1| ≤ (done.length + 1 : ℕ) := by
      push_cast
      exact (abs_add_le _ _).trans (by simpa using hdepth)
    rw [if_pos hopen, checkedDepth_of_abs_le hdeeper (by omega)]
    obtain ⟨rfl, -⟩ := hopen
    refine ⟨_, rfl, ?_, by simpa using hdeeper, h.items⟩
    intro place hplace
    by_cases houter : s.depth = 0
    · simp only [houter, if_true] at hplace
      obtain rfl := Option.some.inj hplace
      exact ⟨done, [], rfl, rfl⟩
    · simp only [houter, if_false] at hplace
      exact (h.skip s.inString s.escaped).start place hplace
  rw [if_neg hopen]
  by_cases hclose : c = '}' ∧ ¬s.inString
  · have hshallower : |s.depth - 1| ≤ (done.length + 1 : ℕ) := by
      push_cast
      exact (abs_sub _ _).trans (by simpa using hdepth)
    rw [if_pos hclose, checkedDepth_of_abs_le hshallower (by omega)]
    obtain ⟨rfl, -⟩ := hclose
    have hskip := h.skip (c := '}') s.inString s.escaped
    simp only [bind, Except.bind]
    cases hstart : if s.depth - 1 = 0 then s.start else none with
    | none => exact ⟨_, rfl, hskip.start, by simpa using hshallower, h.items⟩
    | some place =>
      obtain ⟨-, hplace⟩ := Option.ite_none_right_eq_some.mp hstart
      obtain ⟨item, hitem, helement⟩ := slice_element htext h hplace
      simp only [hitem]
      refine ⟨_, rfl, nofun, by simpa using hshallower, fun other hother => ?_⟩
      rcases List.mem_append.mp hother with hold | hnew
      · exact h.items other hold
      · rw [List.mem_singleton.mp hnew]
        exact helement
  · exact ⟨_, if_neg hclose, h.skip s.inString s.escaped⟩

lemma Scan.run_sound (htext : text = done ++ rest) (hlength : text.length < 2 ^ 31)
    (h : s.Sound text done) :
    ∃ last, Scan.run text s (size done) rest = .ok last ∧ last.Sound text text := by
  induction rest generalizing done s with
  | nil =>
    rw [List.append_nil] at htext
    exact ⟨s, rfl, htext ▸ h⟩
  | cons c rest ih =>
    obtain ⟨next, hstep, hnext⟩ := Scan.step_sound htext hlength h
    have hplace : size done + c.utf8Size = size (done ++ [c]) := by simp
    rw [Scan.run, hstep, hplace]
    exact ih (by simp [htext]) hnext

/-- The elements of any text are pieces of it between braces. -/
theorem arrayItems_safe (hlength : text.length < 2 ^ 31) :
    ∃ items, arrayItems text = .ok items ∧ ∀ item ∈ items, IsElement text item := by
  have hstart : Scan.Sound text [] ⟨[], 0, none, false, false⟩ := ⟨nofun, by simp, nofun⟩
  obtain ⟨last, hrun, hlast⟩ := Scan.run_sound (List.nil_append text).symm hlength hstart
  refine ⟨last.items, ?_, hlast.items⟩
  rw [arrayItems]
  exact congrArg (Except.map Scan.items) hrun

end Elements

section Fields

/-- The text holds a field with white space and then something behind its name. -/
def HoldsField (text key value : List Char) : Prop :=
  ∃ before space after, text = before ++ (needle key ++ (space ++ (value ++ after))) ∧
    ∀ c ∈ space, isWhitespace c

/-- A text between quotes. -/
def inQuotes (value : List Char) : List Char := '"' :: (value ++ ['"'])

variable {text key : List Char}

lemma size_needle (key : List Char) : size (needle key) = size key + 3 := by
  have hquote : '"'.utf8Size = 1 := rfl
  have hcolon : ':'.utf8Size = 1 := rfl
  simp [needle, hquote, hcolon]
  omega

/-- What stands after a name that was found. -/
lemma sliceFrom_of_find {place : ℕ} (h : find key text = some place) :
    ∃ before after, text = before ++ (key ++ after) ∧
      sliceFrom place text = .ok (key ++ after) ∧
      sliceFrom (place + size key) text = .ok after := by
  obtain ⟨before, after, rfl, rfl⟩ := eq_of_find h
  refine ⟨before, after, rfl, sliceFrom_append, ?_⟩
  rw [← size_append, ← List.append_assoc]
  exact sliceFrom_append

lemma isWhitespace_takeWhile {c : Char} (h : c ∈ text.takeWhile isWhitespace) :
    isWhitespace c := List.mem_takeWhile_imp h

/-- What is read between quotes stands there. -/
lemma quoted_safe (text : List Char) : ∃ value, quoted text = .ok value ∧
    ∀ v ∈ value, ∃ after, text = inQuotes v ++ after := by
  unfold quoted
  cases hquote : stripPrefix ['"'] text with
  | none => exact ⟨none, rfl, nofun⟩
  | some rest =>
    cases hlast : find ['"'] rest with
    | none => exact ⟨none, by simp [hlast], nofun⟩
    | some last =>
      obtain ⟨value, after, hrest, rfl⟩ := eq_of_find hlast
      refine ⟨some value, ?_, fun v hv => ⟨after, ?_⟩⟩
      · simp only [hlast]
        rw [hrest, sliceTo_append]
        rfl
      · obtain rfl := Option.some.inj hv
        rw [eq_of_stripPrefix hquote, hrest]
        simp [inQuotes]

/-- A text value comes from behind its field's name. -/
theorem string_safe (text key : List Char) : ∃ value, string text key = .ok value ∧
    ∀ v ∈ value, HoldsField text key (inQuotes v) := by
  unfold string
  cases hplace : find (needle key) text with
  | none => exact ⟨none, rfl, nofun⟩
  | some place =>
    obtain ⟨before, rest, rfl, -, hrest⟩ := sliceFrom_of_find hplace
    obtain ⟨value, hvalue, hquotes⟩ := quoted_safe (trimStart rest)
    refine ⟨value, ?_, fun v hv => ?_⟩
    · simp only [hrest, bind, Except.bind, hvalue]
    · obtain ⟨after, hafter⟩ := hquotes v hv
      refine ⟨before, rest.takeWhile isWhitespace, after, ?_, fun c => isWhitespace_takeWhile⟩
      rw [← hafter, ← eq_append_trimStart]

/-- A name comes from behind the opening bracket of the names, less its slashes. -/
theorem firstName_safe (text : List Char) : ∃ value, firstName text = .ok value ∧
    ∀ v ∈ value, ∃ space slashes, (∀ c ∈ space, isWhitespace c) ∧ (∀ c ∈ slashes, c = '/') ∧
      HoldsField text "Names".toList ('[' :: (space ++ inQuotes (slashes ++ v))) := by
  unfold firstName
  cases hplace : find (needle "Names".toList) text with
  | none => exact ⟨none, rfl, nofun⟩
  | some place =>
    obtain ⟨before, rest, rfl, -, hrest⟩ := sliceFrom_of_find hplace
    simp only [hrest, bind, Except.bind]
    cases hbracket : stripPrefix ['['] (trimStart rest) with
    | none => exact ⟨none, rfl, nofun⟩
    | some entries =>
      obtain ⟨name, hname, hquotes⟩ := quoted_safe (trimStart entries)
      refine ⟨name.map (List.dropWhile (· = '/')), by simp [hname]; rfl, fun v hv => ?_⟩
      obtain ⟨whole, hwhole, rfl⟩ := Option.map_eq_some_iff.mp hv
      obtain ⟨after, hafter⟩ := hquotes whole hwhole
      refine ⟨entries.takeWhile isWhitespace, whole.takeWhile (· = '/'),
        fun c => isWhitespace_takeWhile, fun c hc => by simpa using List.mem_takeWhile_imp hc,
        before, rest.takeWhile isWhitespace, after, ?_, fun c => isWhitespace_takeWhile⟩
      have hentries : entries = entries.takeWhile isWhitespace ++ (inQuotes whole ++ after) := by
        rw [← hafter, ← eq_append_trimStart]
      calc before ++ (needle "Names".toList ++ rest)
          = before ++ (needle "Names".toList ++
              (rest.takeWhile isWhitespace ++ (['['] ++ entries))) := by
            rw [← eq_of_stripPrefix hbracket, ← eq_append_trimStart]
        _ = _ := by
            rw [List.takeWhile_append_dropWhile]
            conv_lhs => rw [hentries]
            simp

/-- A number that fits comes from behind its field's name. -/
lemma numberOf_safe (key scope : List Char) : ∃ value, numberOf key scope = .ok value ∧
    ∀ n ∈ value, ∃ digits, HoldsField scope key digits ∧ parseU64 digits = some n := by
  unfold numberOf
  cases hplace : find (needle key) scope with
  | none => exact ⟨none, rfl, nofun⟩
  | some place =>
    obtain ⟨before, rest, rfl, -, hrest⟩ := sliceFrom_of_find hplace
    rw [size_needle, ← Nat.add_assoc] at hrest
    simp only [hrest, bind, Except.bind]
    refine ⟨_, rfl, fun n hn => ⟨(trimStart rest).takeWhile Char.isDigit, ?_, hn⟩⟩
    refine ⟨before, rest.takeWhile isWhitespace, (trimStart rest).dropWhile Char.isDigit, ?_,
      fun c => isWhitespace_takeWhile⟩
    rw [List.takeWhile_append_dropWhile, ← eq_append_trimStart]

lemma scopeOf_safe (key text : List Char) : ∃ value, scopeOf key text = .ok value ∧
    ∀ scope ∈ value, ∃ before, text = before ++ scope := by
  unfold scopeOf
  cases hplace : find (needle key) text with
  | none => exact ⟨none, rfl, nofun⟩
  | some place =>
    obtain ⟨before, rest, rfl, hscope, -⟩ := sliceFrom_of_find hplace
    refine ⟨some (needle key ++ rest), by simp only [hscope]; rfl, fun scope hmem => ⟨before, ?_⟩⟩
    rw [← Option.some.inj hmem]

lemma HoldsField.append_left {scope value : List Char} (h : HoldsField scope key value)
    (before : List Char) : HoldsField (before ++ scope) key value := by
  obtain ⟨inner, space, after, rfl, hspace⟩ := h
  exact ⟨before ++ inner, space, after, by simp, hspace⟩

lemma le_of_parseU64 {digits : List Char} {n : ℕ} (h : parseU64 digits = some n) : n ≤ u64Max := by
  unfold parseU64 at h
  dsimp only at h
  split_ifs at h with hnone
  obtain rfl := Option.some.inj h
  exact not_lt.mp (not_or.mp hnone).2

/-- A nested number fits, and comes from behind the name of the innermost field. -/
theorem nestedU64_safe (text outer inner : List Char) :
    ∃ value, nestedU64 text outer inner = .ok value ∧ ∀ n ∈ value, n ≤ u64Max ∧
      ∃ digits, HoldsField text ((stripPrefix "cpu_usage_".toList inner).getD inner) digits ∧
        parseU64 digits = some n := by
  have hnumber : ∀ before scope key : List Char, text = before ++ scope →
      ∃ value, numberOf key scope = .ok value ∧ ∀ n ∈ value, n ≤ u64Max ∧
        ∃ digits, HoldsField text key digits ∧ parseU64 digits = some n := by
    rintro before scope key rfl
    obtain ⟨value, hvalue, hholds⟩ := numberOf_safe key scope
    refine ⟨value, hvalue, fun n hn => ?_⟩
    obtain ⟨digits, hfield, hparse⟩ := hholds n hn
    exact ⟨le_of_parseU64 hparse, digits, hfield.append_left before, hparse⟩
  unfold nestedU64
  obtain ⟨scope, hscope, hbefore⟩ := scopeOf_safe outer text
  simp only [hscope, bind, Except.bind]
  cases scope with
  | none => exact ⟨none, rfl, nofun⟩
  | some scope =>
    obtain ⟨before, rfl⟩ := hbefore scope rfl
    cases hleaf : stripPrefix "cpu_usage_".toList inner with
    | none => exact hnumber before scope inner rfl
    | some leaf =>
      obtain ⟨nested, hnested, hwithin⟩ := scopeOf_safe "cpu_usage".toList scope
      simp only [hnested]
      cases nested with
      | none => exact ⟨none, rfl, nofun⟩
      | some nested =>
        obtain ⟨within, rfl⟩ := hwithin nested rfl
        exact hnumber (before ++ within) nested leaf (by simp)

end Fields

section Answers
variable (rt : Runtime)

/-- The figures a share of the processor is made of, each with the field it is nested in. -/
def cpuFigures : List (List Char × List Char) :=
  [("cpu_stats".toList, "cpu_usage_total_usage".toList),
    ("precpu_stats".toList, "cpu_usage_total_usage".toList),
    ("cpu_stats".toList, "system_cpu_usage".toList),
    ("precpu_stats".toList, "system_cpu_usage".toList)]

lemma cpuShare_mem (total preTotal system preSystem : ℕ) :
    0 ≤ cpuShare rt total preTotal system preSystem ∧
      cpuShare rt total preTotal system preSystem ≤ 100 := by
  have hhundred : rt.f32 (100 : ℚ) = 100 := by simpa using rt.f32.intCast 100 (by norm_num)
  unfold cpuShare
  dsimp only
  split_ifs
  · norm_num
  · norm_num
  · constructor
    · calc (0 : ℚ) = rt.f32 0 := rt.f32.zero.symm
        _ ≤ _ := rt.f32.mono (le_max_left _ _)
    · calc _ ≤ rt.f32 100 := rt.f32.mono (max_le (by norm_num) (min_le_left _ _))
        _ = 100 := hhundred

/-- The share lies between zero and a hundred, and is zero where a figure is missing. -/
theorem cpuPercent_safe (stats : List Char) : ∃ percent, cpuPercent rt stats = .ok percent ∧
    0 ≤ percent ∧ percent ≤ 100 ∧
      ((∃ figure ∈ cpuFigures, nestedU64 stats figure.1 figure.2 = .ok none) → percent = 0) := by
  obtain ⟨total, htotal, -⟩ :=
    nestedU64_safe stats "cpu_stats".toList "cpu_usage_total_usage".toList
  obtain ⟨preTotal, hpreTotal, -⟩ :=
    nestedU64_safe stats "precpu_stats".toList "cpu_usage_total_usage".toList
  obtain ⟨system, hsystem, -⟩ := nestedU64_safe stats "cpu_stats".toList "system_cpu_usage".toList
  obtain ⟨preSystem, hpreSystem, -⟩ :=
    nestedU64_safe stats "precpu_stats".toList "system_cpu_usage".toList
  unfold cpuPercent
  simp only [htotal, hpreTotal, hsystem, hpreSystem, bind, Except.bind]
  split
  · obtain ⟨hlow, hhigh⟩ := cpuShare_mem rt _ _ _ _
    refine ⟨_, rfl, hlow, hhigh, ?_⟩
    rintro ⟨figure, hfigure, hnone⟩
    simp only [cpuFigures, List.mem_cons, List.not_mem_nil, or_false] at hfigure
    rcases hfigure with rfl | rfl | rfl | rfl <;> simp_all
  · exact ⟨0, rfl, le_rfl, by norm_num, fun _ => rfl⟩

/-- Every reader comes to an end on the text, and what is not where it is looked for is nothing,
an empty list or a zero. -/
structure ReadersSafe (text : List Char) : Prop where
  arrayItems : ∃ items, arrayItems text = .ok items ∧ ∀ item ∈ items, IsElement text item
  string : ∀ key, ∃ value, string text key = .ok value ∧
    ∀ v ∈ value, HoldsField text key (inQuotes v)
  firstName : ∃ value, firstName text = .ok value ∧
    ∀ v ∈ value, ∃ space slashes, (∀ c ∈ space, isWhitespace c) ∧ (∀ c ∈ slashes, c = '/') ∧
      HoldsField text "Names".toList ('[' :: (space ++ inQuotes (slashes ++ v)))
  nestedU64 : ∀ outer inner, ∃ value, nestedU64 text outer inner = .ok value ∧
    ∀ n ∈ value, n ≤ u64Max ∧ ∃ digits,
      HoldsField text ((stripPrefix "cpu_usage_".toList inner).getD inner) digits ∧
        parseU64 digits = some n
  cpuPercent : ∃ percent, cpuPercent rt text = .ok percent ∧ 0 ≤ percent ∧ percent ≤ 100 ∧
    ((∃ figure ∈ cpuFigures, Docker.nestedU64 text figure.1 figure.2 = .ok none) → percent = 0)

theorem readersSafe {text : List Char} (h : text.length < 2 ^ 31) : ReadersSafe rt text where
  arrayItems := arrayItems_safe h
  string := string_safe text
  firstName := firstName_safe text
  nestedU64 := nestedU64_safe text
  cpuPercent := cpuPercent_safe rt text

/-- A successful answer is sent in chunks, one of which ends inside a character. -/
def CutsChunk (raw : List UInt8) : Prop :=
  raw.length ≤ maxResponseBytes ∧ ∃ head rest,
    splitOnce (crlf ++ crlf) (Utf8.decodeLossy raw) = some (head, rest) ∧
      statusOk head ∧ isChunked rt head ∧ CutsCharacter rest

/-- An answer makes a text no longer than itself, or a slice stops the thread. -/
lemma get_cases (raw : List UInt8) :
    (∃ answer, get rt raw = .ok answer ∧ (∀ text ∈ answer, text.length ≤ maxResponseBytes) ∧
      ¬CutsChunk rt raw) ∨
    (get rt raw = .error .slice ∧ CutsChunk rt raw) := by
  unfold get
  by_cases hlong : maxResponseBytes < raw.length
  · exact .inl ⟨none, if_pos hlong, nofun, fun hcuts => hlong.not_ge hcuts.1⟩
  rw [if_neg hlong]
  have hdecoded : (Utf8.decodeLossy raw).length ≤ maxResponseBytes :=
    (Utf8.length_decodeFrom_le 0 raw).trans (not_lt.mp hlong)
  unfold body
  cases hsplit : splitOnce (crlf ++ crlf) (Utf8.decodeLossy raw) with
  | none => exact .inl ⟨none, rfl, nofun, fun hcuts => by simp [CutsChunk, hsplit] at hcuts⟩
  | some parts =>
    obtain ⟨head, rest⟩ := parts
    have hrest : rest.length ≤ maxResponseBytes := by
      rw [eq_of_splitOnce hsplit] at hdecoded
      simp at hdecoded
      omega
    have hcuts : CutsChunk rt raw ↔ statusOk head ∧ isChunked rt head ∧ CutsCharacter rest := by
      simp [CutsChunk, hsplit, not_lt.mp hlong]
    rw [hcuts]
    by_cases hstatus : statusOk head
    · by_cases hchunked : isChunked rt head
      · simp only [hstatus, hchunked, not_true_eq_false, if_false, true_and]
        rcases dechunk_cases (Nat.lt_succ_self rest.length) with
          ⟨out, hout, hshort, hnot⟩ | ⟨hout, hcut⟩
        · refine .inl ⟨some out, by rw [hout]; rfl, fun text htext => ?_, hnot⟩
          obtain rfl := Option.some.inj htext
          exact hshort.trans hrest
        · exact .inr ⟨by rw [hout]; rfl, hcut⟩
      · refine .inl ⟨some rest, by simp [hstatus, hchunked], fun text htext => ?_,
          by simp [hchunked]⟩
        obtain rfl := Option.some.inj htext
        exact hrest
    · exact .inl ⟨none, by simp [hstatus], nofun, by simp [hstatus]⟩

/-- The answer is read to its end, and so is everything that is read out of it. -/
def AnswerSafe (raw : List UInt8) : Prop :=
  ∃ answer, get rt raw = .ok answer ∧ ∀ text ∈ answer,
    ReadersSafe rt text ∧ ∀ item, IsElement text item → ReadersSafe rt item

/-- An answer whose two chunks have a byte each of one character. -/
def splitCharacter : List UInt8 :=
  Utf8.bytes "HTTP/1.1 200 OK\r\nTransfer-Encoding: chunked\r\n\r\n1\r\n".toList ++ [0xC3] ++
    Utf8.bytes "\r\n1\r\n".toList ++ [0xA9] ++ Utf8.bytes "\r\n0\r\n\r\n".toList

end Answers
end LoadBear.Docker
