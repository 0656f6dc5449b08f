import LoadBear.ContainerAnswers
import LoadBear.JsonFields

/-!
# Nested numbers

A number two or three names down is looked for with one search after another, each from where
the last one stopped. The searches see no nesting, so the number found is that of the first
field so named from there on, and it need not lie in the object that was asked for.
-/
namespace LoadBear.Docker

open ByteText JsonText

section Asked

/-- The names below the outermost one. -/
def innerPath (inner : List Char) : List (List Char) :=
  match stripPrefix "cpu_usage_".toList inner with
  | none => [inner]
  | some leaf => ["cpu_usage".toList, leaf]

/-- The last of these names. -/
def leafName (inner : List Char) : List Char :=
  (stripPrefix "cpu_usage_".toList inner).getD inner

/-- A value that stands at the end of a path of member names. -/
def StandsAt : List (List Char) → Json → Json → Prop
  | [], j, value => j = value
  | name :: path, j, value => ∃ members, j = .object members ∧
      ∃ member ∈ members, Spells member.1 name ∧ StandsAt path member.2 value

/-- The member that is asked for is the given number. -/
def Holds (j : Json) (outer inner : List Char) (n : ℕ) : Prop :=
  ∃ number : Number, StandsAt (outer :: innerPath inner) j (.number number) ∧ number.value = n

/-- A number is read only where the member that is asked for is that number. -/
def ReadsOwnMember (j : Json) (text outer inner : List Char) : Prop :=
  ∃ answer, nestedU64 text outer inner = .ok answer ∧ ∀ n ∈ answer, Holds j outer inner n

end Asked

section Reached

/-- The text from the last of some names on, each first found from the one before it. -/
def Reaches : List (List Char) → List Char → List Char → Prop
  | [], scope, found => scope = found
  | name :: names, scope, found => ∃ before after, scope = before ++ (needle name ++ after) ∧
      FirstAfter (needle name) before ∧ Reaches names (needle name ++ after) found

/-- The number that stands after the last name. -/
def Reads (text outer inner : List Char) (n : ℕ) : Prop :=
  ∃ after, Reaches (outer :: innerPath inner) text (needle (leafName inner) ++ after) ∧
    parseU64 ((trimStart after).takeWhile Char.isDigit) = some n

/-- The number of the first field so named, each name looked for from the one before it. -/
def firstNumber (j : Json) (outer inner : List Char) : Option ℕ :=
  let fields := (outer :: innerPath inner).foldl (fun fields name => since name fields) (fieldsOf j)
  fields.head?.bind fun f => parseU64 f.digits

/-- The first field so named has no number, or that of the member that is asked for. -/
def FirstIsOwn (j : Json) (outer inner : List Char) : Prop :=
  ∀ n ∈ firstNumber j outer inner, Holds j outer inner n

end Reached

section Searches
variable {text outer inner name scope : List Char} {n : ℕ}

/-- The text from where a name first stands. -/
def scopeIn (name scope : List Char) : Option (List Char) :=
  (splitOnce (needle name) scope).map fun parts => needle name ++ parts.2

/-- The number after the name that a text starts with. -/
def valueAt (name scope : List Char) : Option ℕ :=
  parseU64 ((trimStart (scope.drop (needle name).length)).takeWhile Char.isDigit)

lemma valueAt_append (after : List Char) : valueAt name (needle name ++ after) =
    parseU64 ((trimStart after).takeWhile Char.isDigit) := by
  rw [valueAt, List.drop_left]

lemma scopeOf_eq (name text : List Char) : scopeOf name text = .ok (scopeIn name text) := by
  unfold scopeOf scopeIn find
  cases hsplit : splitOnce (needle name) text with
  | none => rfl
  | some parts =>
    rw [eq_of_splitOnce hsplit]
    simp [Except.map]

lemma numberOf_eq (name scope : List Char) :
    numberOf name scope = .ok ((scopeIn name scope).bind (valueAt name)) := by
  unfold numberOf scopeIn find
  cases hsplit : splitOnce (needle name) scope with
  | none => rfl
  | some parts =>
    have hplace : size parts.1 + size name + 3 = size (parts.1 ++ needle name) := by
      rw [size_append, size_needle, Nat.add_assoc]
    have htext : scope = (parts.1 ++ needle name) ++ parts.2 := by
      rw [List.append_assoc]
      exact eq_of_splitOnce hsplit
    have hslice : sliceFrom (size parts.1 + size name + 3) scope = .ok parts.2 := by
      rw [hplace, htext]
      exact sliceFrom_append
    simp [hslice, valueAt_append, bind, Except.bind, pure, Except.pure]

/-- The searches follow the path. -/
lemma nestedU64_eq (text outer inner : List Char) : nestedU64 text outer inner =
    .ok (((outer :: innerPath inner).foldlM (fun scope name => scopeIn name scope) text).bind
      (valueAt (leafName inner))) := by
  unfold nestedU64 innerPath leafName
  generalize "cpu_usage".toList = cpu
  -- a search that finds nothing ends the path with no answer
  rw [scopeOf_eq]
  cases houter : scopeIn outer text with
  | none =>
    cases stripPrefix "cpu_usage_".toList inner <;>
      simp [houter, bind, Except.bind, pure, Except.pure]
  | some scope =>
    cases stripPrefix "cpu_usage_".toList inner with
    | none => simp [houter, numberOf_eq, bind, Except.bind]
    | some leaf =>
      cases hinner : scopeIn cpu scope with
      | none => simp [houter, scopeOf_eq, hinner, bind, Except.bind, pure, Except.pure]
      | some deeper => simp [houter, scopeOf_eq, hinner, numberOf_eq, bind, Except.bind]

lemma needle_ne_nil (name : List Char) : needle name ≠ [] := List.cons_ne_nil _ _

lemma scopeIn_eq_some_iff {next : List Char} : scopeIn name scope = some next ↔
    ∃ before after, scope = before ++ (needle name ++ after) ∧ FirstAfter (needle name) before ∧
      next = needle name ++ after := by
  constructor
  · intro h
    obtain ⟨parts, hsplit, rfl⟩ := Option.map_eq_some_iff.mp h
    exact ⟨parts.1, parts.2, eq_of_splitOnce hsplit, firstAfter_of_splitOnce hsplit, rfl⟩
  · intro h
    obtain ⟨before, after, rfl, hfirst, rfl⟩ := h
    rw [scopeIn, splitOnce_append (needle_ne_nil name) hfirst]
    rfl

lemma reaches_iff (names : List (List Char)) (scope found : List Char) :
    Reaches names scope found ↔
      names.foldlM (fun scope name => scopeIn name scope) scope = some found := by
  induction names generalizing scope with
  | nil => simp [Reaches, pure]
  | cons name names ih =>
    rw [Reaches, List.foldlM_cons, Option.bind_eq_bind, Option.bind_eq_some_iff]
    constructor
    · intro h
      obtain ⟨before, after, hscope, hfirst, hrest⟩ := h
      exact ⟨_, scopeIn_eq_some_iff.mpr ⟨before, after, hscope, hfirst, rfl⟩, (ih _).mp hrest⟩
    · intro h
      obtain ⟨next, hnext, hrest⟩ := h
      obtain ⟨before, after, hscope, hfirst, rfl⟩ := scopeIn_eq_some_iff.mp hnext
      exact ⟨before, after, hscope, hfirst, (ih _).mpr hrest⟩

lemma exists_innerPath_eq (inner : List Char) :
    ∃ names, innerPath inner = names ++ [leafName inner] := by
  unfold innerPath leafName
  cases stripPrefix "cpu_usage_".toList inner with
  | none => exact ⟨[], rfl⟩
  | some leaf => exact ⟨["cpu_usage".toList], rfl⟩

/-- What is reached begins with the last name. -/
lemma exists_after {names : List (List Char)} {found : List Char}
    (h : (names ++ [name]).foldlM (fun scope name => scopeIn name scope) scope = some found) :
    ∃ after, found = needle name ++ after := by
  rw [List.foldlM_append, Option.bind_eq_bind, Option.bind_eq_some_iff] at h
  obtain ⟨mid, -, hlast⟩ := h
  obtain ⟨before, after, -, -, hfound⟩ := scopeIn_eq_some_iff.mp (by simpa using hlast)
  exact ⟨after, hfound⟩

theorem nestedU64_eq_some_iff :
    nestedU64 text outer inner = .ok (some n) ↔ Reads text outer inner n := by
  obtain ⟨names, hnames⟩ := exists_innerPath_eq inner
  rw [nestedU64_eq, Except.ok.injEq, Option.bind_eq_some_iff, hnames, ← List.cons_append]
  unfold Reads
  rw [hnames, ← List.cons_append]
  simp only [reaches_iff]
  constructor
  · intro h
    obtain ⟨found, hfound, hvalue⟩ := h
    obtain ⟨after, rfl⟩ := exists_after hfound
    rw [valueAt_append] at hvalue
    exact ⟨after, hfound, hvalue⟩
  · intro h
    obtain ⟨after, hfound, hvalue⟩ := h
    exact ⟨_, hfound, by rwa [valueAt_append]⟩

end Searches

section Fields
variable {name : List Char} {scope : Option (List Char)} {fields : List Field}

/-- Where a search stands in the text and where it stands among the fields. -/
inductive Tracks (name : List Char) : Option (List Char) → List Field → Prop
  | lost : Tracks name none []
  | place (after : List Char) (later : List Field) (hvalue : trimStart after = after)
      (hflat : Flat (⟨name, after.takeWhile Char.isDigit⟩ :: later) (needle name ++ after)) :
      Tracks name (some (needle name ++ after)) (⟨name, after.takeWhile Char.isDigit⟩ :: later)

lemma tracks_of_flat {text : List Char} (h : Flat fields text) (hname : IsPlainName name) :
    Tracks name (scopeIn name text) (since name fields) := by
  have hlabel : label name = needle name := rfl
  cases h.finds hname with
  | nothing hsince hsplit =>
    rw [scopeIn, ← hlabel, hsplit, hsince]
    exact .lost
  | first later before after hsince hsplit hvalue hflat =>
    rw [scopeIn, ← hlabel, hsplit, hsince]
    exact .place after later hvalue hflat

/-- One more search goes on from where the last one stopped. -/
lemma Tracks.next {outer : List Char} (h : Tracks outer scope fields) (hname : IsPlainName name) :
    Tracks name (scope.bind (scopeIn name)) (since name fields) := by
  cases h with
  | lost => exact .lost
  | place after later hvalue hflat => exact tracks_of_flat hflat hname

lemma Tracks.number (h : Tracks name scope fields) :
    scope.bind (valueAt name) = fields.head?.bind fun f => parseU64 f.digits := by
  cases h with
  | lost => rfl
  | place after later hvalue hflat =>
    show valueAt name (needle name ++ after) = parseU64 (after.takeWhile Char.isDigit)
    rw [valueAt_append, hvalue]

lemma isPlainName_cpuUsage : IsPlainName "cpu_usage".toList where
  plain := by simp [IsPlain]
  start := by simp [IsSpace]

variable {outer inner text : List Char} {j : Json}

/-- For plain names the searches go by the fields in the order they are written. -/
theorem nestedU64_flat (h : Flat (fieldsOf j) text) (houter : IsPlainName outer)
    (hleaf : IsPlainName (leafName inner)) :
    nestedU64 text outer inner = .ok (firstNumber j outer inner) := by
  have hstart := tracks_of_flat h houter
  have hcpu := isPlainName_cpuUsage
  rw [nestedU64_eq]
  congr 1
  unfold firstNumber
  unfold leafName at hleaf ⊢
  unfold innerPath
  generalize "cpu_usage".toList = cpu at hcpu ⊢
  generalize stripPrefix "cpu_usage_".toList inner = stripped at hleaf ⊢
  cases stripped with
  | none => simpa using (hstart.next hleaf).number
  | some leaf => simpa [Option.bind_assoc] using ((hstart.next hcpu).next hleaf).number

end Fields

section Sections
variable {members : List (List StringUnit × Json)} {before text after outer inner : List Char}

/-- Whatever the names are, a number is read as asked exactly if the one that the searches come
upon in the text is the one asked for. With plain names this is told from the object alone, by
the first field so named. -/
theorem readsOwnMember_iff (h : Writes false (.value (.object members)) text)
    (hbefore : Blank before) (hafter : Blank after) (outer inner : List Char) :
    (ReadsOwnMember (.object members) (before ++ (text ++ after)) outer inner ↔
      ∀ n, Reads (before ++ (text ++ after)) outer inner n →
        Holds (.object members) outer inner n) ∧
    (IsPlainName outer → IsPlainName (leafName inner) →
      (ReadsOwnMember (.object members) (before ++ (text ++ after)) outer inner ↔
        FirstIsOwn (.object members) outer inner)) := by
  constructor
  · constructor
    · intro hown n hreads
      obtain ⟨answer, hanswer, hholds⟩ := hown
      rw [nestedU64_eq_some_iff.mpr hreads, Except.ok.injEq] at hanswer
      exact hholds n hanswer.symm
    · intro hreads
      obtain ⟨answer, hanswer, -⟩ := nestedU64_safe (before ++ (text ++ after)) outer inner
      refine ⟨answer, hanswer, ?_⟩
      intro n hn
      apply hreads n
      rw [← nestedU64_eq_some_iff, hanswer, hn]
  · intro houter hleaf
    have hend : Flat [] after := by simpa using Flat.nil.over hafter.inert
    have hfollows : Follows after := by simpa using hafter.append_follows (nofun : Follows [])
    have hvalue := h.flat hfollows hend
    have hflat : Flat (fieldsOf (.object members)) (before ++ (text ++ after)) := by
      simpa [Part.fields] using hvalue.over hbefore.inert
    have hread := nestedU64_flat hflat houter hleaf
    constructor
    · intro hown
      obtain ⟨answer, hanswer, hholds⟩ := hown
      obtain rfl := Except.ok.inj (hread.symm.trans hanswer)
      exact hholds
    · exact fun hfirst => ⟨_, hread, hfirst⟩

/-- The number five. -/
def five : Number where
  negative := false
  whole := ['5']
  fraction := []
  exponent := []
  whole_digits := by simp
  whole_plain := .inr ⟨'5', [], rfl, by decide⟩
  fraction_legal := .inl rfl
  exponent_legal := .inl rfl

/-- A limit of five. -/
def limitFive : List (List StringUnit × Json) :=
  [(unescaped "limit".toList (by simp), .number five)]

/-- The memory section of a container, and after it a section with a limit of its own. -/
def statsWith (memory : List (List StringUnit × Json)) : List (List StringUnit × Json) :=
  [(unescaped "memory_stats".toList (by simp), .object memory),
    (unescaped "pids_stats".toList (by simp), .object limitFive)]

lemma innerPath_limit : innerPath "limit".toList = ["limit".toList] := by decide

/-- A limit in the memory section is the one that is read. -/
theorem limit_read_from_memory : ReadsOwnMember (.object (statsWith limitFive))
    ([] ++ (compact (.object (statsWith limitFive)) ++ [])) "memory_stats".toList
      "limit".toList := by
  have hmemory : IsPlainName "memory_stats".toList := ⟨by simp [IsPlain], by simp [IsSpace]⟩
  have hlimit : IsPlainName (leafName "limit".toList) := by
    have hleaf : leafName "limit".toList = "limit".toList := by decide
    rw [hleaf]
    exact ⟨by simp [IsPlain], by simp [IsSpace]⟩
  have hnames := readsOwnMember_iff (writes_compact false (.object (statsWith limitFive)))
    blank_nil blank_nil "memory_stats".toList "limit".toList
  apply (hnames.2 hmemory hlimit).mpr
  intro n hfirst
  have hfive : firstNumber (.object (statsWith limitFive)) "memory_stats".toList
      "limit".toList = some 5 := by
    decide +kernel
  obtain rfl : 5 = n := Option.some.inj (hfive.symm.trans hfirst)
  refine ⟨five, ?_, ?_⟩
  · rw [innerPath_limit]
    exact ⟨_, rfl, _, .head _, by decide, _, rfl, _, .head _, by decide, rfl⟩
  · decide +kernel

/-- An empty memory section takes the limit of the next one. -/
theorem limit_of_another_section :
    Writes false (.value (.object (statsWith []))) (compact (.object (statsWith []))) ∧
      nestedU64 (compact (.object (statsWith []))) "memory_stats".toList "limit".toList =
        .ok (some 5) ∧
      ¬ReadsOwnMember (.object (statsWith [])) (compact (.object (statsWith [])))
        "memory_stats".toList "limit".toList := by
  have hread : nestedU64 (compact (.object (statsWith []))) "memory_stats".toList
      "limit".toList = .ok (some 5) := by
    decide +kernel
  refine ⟨writes_compact false _, hread, ?_⟩
  intro hown
  obtain ⟨answer, hanswer, hholds⟩ := hown
  rw [hread, Except.ok.injEq] at hanswer
  obtain ⟨number, hstands, -⟩ := hholds 5 hanswer.symm
  rw [innerPath_limit] at hstands
  obtain ⟨members, hmembers, member, hmem, hspells, inner, hinner, limit, hlimit, -⟩ := hstands
  obtain rfl := Json.object.inj hmembers
  rcases List.mem_cons.mp hmem with rfl | hmem
  · obtain rfl := Json.object.inj hinner
    simp at hlimit
  · obtain rfl := List.mem_singleton.mp hmem
    revert hspells
    decide

end Sections
end LoadBear.Docker
