import LoadBear.Chunked
import LoadBear.ContainerList
import LoadBear.EnginePoll
import LoadBear.NestedNumbers

/-!
# A poll that the engine answers

The engine sends the list as an array of objects and the statistics as one object each, in a
body of any kind, divided into any pieces. What comes out is one reading for each container,
in the order of the list, with its own identifier, name and figures.
-/
namespace LoadBear.Docker

open ByteText JsonText BoundedRead

section Written

/-- The first field of a name is a member of the object itself. -/
def FirstMember (members : List (List StringUnit × Json)) (name : List Char) (j : Json) : Prop :=
  ∃ front key back, members = front ++ (key, j) :: back ∧ raw key = name ∧
    ∀ f ∈ fieldsOfMembers front, f.name ≠ name

/-- What stands for itself in a string. -/
abbrev Legal (text : List Char) : Prop := ∀ c ∈ text, c ≠ '"' ∧ c ≠ '\\' ∧ 0x20 ≤ c.val

/-- A container with the identifier and the name the engine gave it. -/
structure Container where
  id : List Char
  name : List Char
  id_legal : Legal id
  name_legal : Legal ('/' :: name)
  name_start : name.head? ≠ some '/'

/-- The object that lists a container, with its identifier and its names wherever they stand. -/
def Container.IsWritten (c : Container) (entry : List Char) : Prop :=
  ∃ members others, Writes false (.value (.object members)) entry ∧
    FirstMember members "Id".toList (.string (unescaped c.id c.id_legal)) ∧
    FirstMember members "Names".toList
      (.array (.string (unescaped ('/' :: c.name) c.name_legal) :: others))

/-- The share of the processor that the figures of the first fields so named give. -/
def percentOf (rt : Runtime) (j : Json) : ℚ :=
  match firstNumber j "cpu_stats".toList "cpu_usage_total_usage".toList,
    firstNumber j "precpu_stats".toList "cpu_usage_total_usage".toList,
    firstNumber j "cpu_stats".toList "system_cpu_usage".toList,
    firstNumber j "precpu_stats".toList "system_cpu_usage".toList with
  | some total, some preTotal, some system, some preSystem =>
    cpuShare rt total preTotal system preSystem
  | _, _, _, _ => 0

/-- The figures in the statistics of a container. -/
def figuresOf (rt : Runtime) (stats : Option Json) : ℚ × ℕ × Option ℕ :=
  match stats with
  | none => (0, 0, none)
  | some j => (percentOf rt j, (firstNumber j "memory_stats".toList "usage".toList).getD 0,
      (firstNumber j "memory_stats".toList "limit".toList).filter (0 < ·))

def Container.reading (rt : Runtime) (c : Container) (stats : Option Json) : ContainerReading where
  id := String.ofList c.id
  name := String.ofList c.name
  cpuPercent := (figuresOf rt stats).1
  memoryBytes := (figuresOf rt stats).2.1
  memoryLimitBytes := (figuresOf rt stats).2.2

/-- A successful response whose body is a text, in chunks or in one part. -/
inductive Responds (rt : Runtime) (text : List Char) : List Char → Prop
  | chunked (r : ChunkedResponse) (hpayload : r.payload = text) : Responds rt text r.text
  | whole {head : List Char} (hfirst : FirstAfter (crlf ++ crlf) head) (hok : statusOk head)
      (hplain : isChunked rt head = false) : Responds rt text (head ++ (crlf ++ crlf ++ text))

/-- The engine sends a body, in whatever pieces, and closes the pipe or breaks it. -/
def Sends (rt : Runtime) (text : List Char) (connection : Connection) : Prop :=
  ∃ response pieces fails, Responds rt text response ∧
    (Utf8.bytes response).length ≤ maxResponseBytes ∧ pieces.flatten = Utf8.bytes response ∧
    (∀ piece ∈ pieces, piece ≠ []) ∧ connection = some (stream pieces fails)

/-- The engine sends statistics, or none. -/
def SendsStats (rt : Runtime) (stats : Option Json) (connection : Connection) : Prop :=
  match stats with
  | none => request rt connection = .ok none
  | some j => ∃ before text after, Blank before ∧ Writes false (.value j) text ∧ Blank after ∧
      Sends rt (before ++ (text ++ after)) connection

end Written

section Received
variable {rt : Runtime} {text : List Char}

lemma body_responds (hlower : LowersAscii rt.lowercase) {response : List Char}
    (h : Responds rt text response) : body rt response = .ok (some text) := by
  cases h with
  | chunked r hpayload =>
    have htext : r.text = r.head ++ (crlf ++ crlf ++
        (r.chunks.flatMap Chunk.text ++ (r.lastLine ++ (crlf ++ r.ending)))) := by
      simp [ChunkedResponse.text, ChunkedResponse.untilLast, ChunkedResponse.framed]
    rw [htext, body_head hlower, dechunk_chunks r.last r.ending r.chunks (Nat.lt_succ_self _),
      ← hpayload]
    rfl
  | whole hfirst hok hplain =>
    rw [body, splitOnce_append (by simp [crlf]) hfirst]
    simp [hok, hplain]

/-- However it is divided, what the engine sends is received. -/
lemma request_sends (hlower : LowersAscii rt.lowercase) {connection : Connection}
    (h : Sends rt text connection) : request rt connection = .ok (some text) := by
  obtain ⟨response, pieces, fails, hresponds, hfits, hbytes, hne, rfl⟩ := h
  have hgather := gather_stream maxResponseBytes fails hne
  rw [hbytes, if_neg (not_lt.mpr hfits)] at hgather
  have hread : (body rt (Utf8.decodeLossy (Utf8.bytes response))).mapError Halt.fault =
      .ok (some text) := by
    rw [Utf8.decodeLossy_bytes, body_responds hlower hresponds]
    rfl
  cases fails
  · simpa [request, hgather] using hread
  · simpa [request, hgather] using hread

end Received

section Objects
variable {members : List (List StringUnit × Json)} {entry name : List Char} {j : Json}

/-- A search for a name comes to the value of the member that is the first so named. -/
lemma exists_value (h : Writes false (.value (.object members)) entry) (hname : IsPlainName name)
    (hfirst : FirstMember members name j) : ∃ value place more,
      find (needle name) entry = some place ∧
        sliceFrom (place + size (needle name)) entry = .ok (value ++ more) ∧
        Writes false (.value j) value := by
  obtain ⟨front, key, back, rfl, hkey, hnone⟩ := hfirst
  cases h with
  | @object members inner hmembers =>
    obtain ⟨before, value, more, rfl, hvalue, -, hpassed⟩ :=
      hmembers.exists_member hname hkey hnone
    have hover : NoStart (label name) ('{' :: before) (label name ++ (value ++ (more ++ ['}']))) :=
      noStart_cons (by decide) (hpassed _)
    have htext : '{' :: (before ++ (label name ++ (value ++ more)) ++ ['}']) =
        ('{' :: before) ++ (label name ++ (value ++ (more ++ ['}']))) := by simp
    refine ⟨value, size ('{' :: before), more ++ ['}'], ?_, ?_, hvalue⟩
    · have hlabel : label name = needle name := rfl
      rw [htext, find, ← hlabel, splitOnce_over hover, splitOnce_start (label_ne_nil name)]
      simp
    · have hlabel : label name = needle name := rfl
      rw [htext, ← hlabel, ← size_append, ← List.append_assoc]
      exact sliceFrom_append

/-- A string that stands for itself is read back. -/
lemma quoted_unescaped {text : List Char} (h : Legal text) (more : List Char) :
    quoted (stringText (unescaped text h) ++ more) = .ok (some text) := by
  have hstart : stringText (unescaped text h) ++ more = ['"'] ++ (text ++ (['"'] ++ more)) := by
    simp [stringText]
  have hend : find ['"'] (text ++ (['"'] ++ more)) = some (size text) := by
    rw [find, splitOnce_append (by simp) (firstAfter_singleton fun hc => (h _ hc).1 rfl)]
    rfl
  rw [quoted, hstart, stripPrefix_append]
  simp only [hend, sliceTo_append]
  rfl

lemma trimStart_stringText (units : List StringUnit) (more : List Char) :
    trimStart (stringText units ++ more) = stringText units ++ more :=
  trimStart_cons (by decide) _

lemma string_firstMember (h : Writes false (.value (.object members)) entry)
    (hname : IsPlainName name) {text : List Char} (hlegal : Legal text)
    (hfirst : FirstMember members name (.string (unescaped text hlegal))) :
    string entry name = .ok (some text) := by
  obtain ⟨value, place, more, hfind, hslice, hvalue⟩ := exists_value h hname hfirst
  cases hvalue with
  | string =>
    rw [string, hfind]
    simp only [hslice, bind, Except.bind]
    rw [trimStart_stringText, quoted_unescaped]

lemma isPlainName_id : IsPlainName "Id".toList := ⟨by simp [IsPlain], by simp [IsSpace]⟩

lemma isPlainName_names : IsPlainName "Names".toList := ⟨by simp [IsPlain], by simp [IsSpace]⟩

/-- The inside of an array starts with its first element. -/
lemma exists_items {items : List Json} {inner : List Char}
    (h : Writes false (.items (j :: items)) inner) : ∃ before text more, Blank before ∧
      Writes false (.value j) text ∧ inner = before ++ (text ++ more) := by
  cases h with
  | lastItem hbefore htext hafter => exact ⟨_, _, _, hbefore, htext, rfl⟩
  | item hbefore htext hafter hrest => exact ⟨_, _, _, hbefore, htext, rfl⟩

variable {c : Container}

lemma string_isWritten (h : c.IsWritten entry) : string entry "Id".toList = .ok (some c.id) := by
  obtain ⟨members, others, hwrites, hid, -⟩ := h
  exact string_firstMember hwrites isPlainName_id c.id_legal hid

lemma firstName_isWritten (h : c.IsWritten entry) : firstName entry = .ok (some c.name) := by
  obtain ⟨members, others, hwrites, -, hnames⟩ := h
  obtain ⟨value, place, more, hfind, hslice, hvalue⟩ :=
    exists_value hwrites isPlainName_names hnames
  cases hvalue with
  | @array items inner hitems =>
    obtain ⟨before, text, rest, hbefore, htext, rfl⟩ := exists_items hitems
    cases htext with
    | string =>
      have hopen : '[' :: (before ++ (stringText (unescaped ('/' :: c.name) c.name_legal) ++ rest)
          ++ [']']) ++ more = ['['] ++ (before ++
            (stringText (unescaped ('/' :: c.name) c.name_legal) ++
              (rest ++ ([']'] ++ more)))) := by
        simp
      have hbracket : trimStart (['['] ++ (before ++
          (stringText (unescaped ('/' :: c.name) c.name_legal) ++ (rest ++ ([']'] ++ more))))) =
            ['['] ++ (before ++ (stringText (unescaped ('/' :: c.name) c.name_legal) ++
              (rest ++ ([']'] ++ more)))) := trimStart_cons (by decide) _
      have hname : c.name.dropWhile (· = '/') = c.name := by
        cases hc : c.name with
        | nil => rfl
        | cons d name =>
          have hd : d ≠ '/' := fun heq => c.name_start (by rw [hc, heq]; rfl)
          rw [List.dropWhile_cons_of_neg (by simpa using hd)]
      rw [firstName, hfind]
      simp only [hslice, hopen, hbracket, stripPrefix_append, hbefore.trimStart_append,
        trimStart_stringText, quoted_unescaped, bind, Except.bind, pure, Except.pure]
      simpa using hname

end Objects

section Figures
variable {rt : Runtime} {before text after : List Char} {j : Json}

lemma isPlainName_of_letters {name : List Char} (h : name.all fun c => c.isAlpha || c = '_') :
    IsPlainName name := by
  have hall : ∀ c ∈ name, c.isAlpha = true ∨ c = '_' := by simpa using h
  refine ⟨fun c hc => ⟨?_, ?_⟩, fun c hc => ⟨?_, ?_⟩⟩
  · rintro rfl
    simpa using hall _ hc
  · rintro rfl
    simpa using hall _ hc
  · intro hmark
    have hletter := hall c (List.mem_of_head? hc)
    simp only [List.mem_cons, List.not_mem_nil, or_false] at hmark
    rcases hmark with rfl | rfl | rfl | rfl <;> simp at hletter
  · intro hspace
    have hletter := hall c (List.mem_of_head? hc)
    simp only [IsSpace, List.mem_cons, List.not_mem_nil, or_false] at hspace
    rcases hspace with rfl | rfl | rfl | rfl <;> simp at hletter

/-- The figures are those of the fields in the order they are written. -/
lemma statsFigures_written (hbefore : Blank before) (h : Writes false (.value j) text)
    (hafter : Blank after) :
    statsFigures rt (some (before ++ (text ++ after))) = .ok (figuresOf rt (some j)) := by
  have hend : Flat [] after := by simpa using Flat.nil.over hafter.inert
  have hfollows : Follows after := by simpa using hafter.append_follows (nofun : Follows [])
  have hflat : Flat (fieldsOf j) (before ++ (text ++ after)) := by
    simpa [Part.fields] using (h.flat hfollows hend).over hbefore.inert
  have hread : ∀ outer inner, IsPlainName outer → IsPlainName (leafName inner) →
      nestedU64 (before ++ (text ++ after)) outer inner = .ok (firstNumber j outer inner) :=
    fun outer inner => nestedU64_flat hflat
  have hplain : ∀ name ∈ ["memory_stats".toList, "cpu_stats".toList, "precpu_stats".toList,
      leafName "usage".toList, leafName "limit".toList, leafName "cpu_usage_total_usage".toList,
      leafName "system_cpu_usage".toList], IsPlainName name := by
    intro name hname
    apply isPlainName_of_letters
    revert name
    decide
  simp only [List.mem_cons, List.not_mem_nil, or_false, forall_eq_or_imp, forall_eq] at hplain
  obtain ⟨hmemory, hcpu, hprecpu, husage, hlimit, htotal, hsystem⟩ := hplain
  have hpercent : cpuPercent rt (before ++ (text ++ after)) = .ok (percentOf rt j) := by
    simp only [cpuPercent, percentOf, hread _ _ hcpu htotal, hread _ _ hprecpu htotal,
      hread _ _ hcpu hsystem, hread _ _ hprecpu hsystem, bind, Except.bind, pure, Except.pure]
    generalize firstNumber j "cpu_stats".toList "cpu_usage_total_usage".toList = total
    generalize firstNumber j "precpu_stats".toList "cpu_usage_total_usage".toList = preTotal
    generalize firstNumber j "cpu_stats".toList "system_cpu_usage".toList = system
    generalize firstNumber j "precpu_stats".toList "system_cpu_usage".toList = preSystem
    cases total <;> cases preTotal <;> cases system <;> cases preSystem <;> rfl
  simp only [statsFigures, figuresOf, hread _ _ hmemory husage, hread _ _ hmemory hlimit, hpercent,
    bind, Except.bind, pure, Except.pure]

end Figures

section Poll
variable {rt : Runtime} {engine : ℕ → List Char → Connection}

/-- The figures of a container that statistics were sent for, or not. -/
lemma request_sendsStats (hlower : LowersAscii rt.lowercase) {stats : Option Json}
    {connection : Connection} (h : SendsStats rt stats connection) :
    ∃ answer, request rt connection = .ok answer ∧
      statsFigures rt answer = .ok (figuresOf rt stats) := by
  cases stats with
  | none => exact ⟨none, h, rfl⟩
  | some j =>
    obtain ⟨before, text, after, hbefore, hwrites, hafter, hsends⟩ := h
    exact ⟨_, request_sends hlower hsends, statsFigures_written hbefore hwrites hafter⟩

lemma entryReading_written (hlower : LowersAscii rt.lowercase) {c : Container}
    {entry : List Char} {stats : Option Json} {connection : Connection}
    (hentry : c.IsWritten entry) (h : SendsStats rt stats connection) :
    entryReading rt connection c.id entry = .ok (c.reading rt stats) := by
  obtain ⟨answer, hanswer, hfigures⟩ := request_sendsStats hlower h
  unfold entryReading
  rw [firstName_isWritten hentry]
  simp only [hanswer, hfigures, Except.mapError, bind, Except.bind, pure, Except.pure]
  rfl

lemma readEntries_written (hlower : LowersAscii rt.lowercase) {containers : List Container}
    {entries : List (List Char)} (hentries : List.Forall₂ Container.IsWritten containers entries)
    {asked : ℕ} {stats : ℕ → Option Json}
    (hstats : ∀ k c, containers[k]? = some c →
      SendsStats rt (stats k) (engine (asked + k) (statsPath c.id))) :
    readEntries rt engine asked entries =
      .ok (containers.mapIdx fun k c => c.reading rt (stats k)) := by
  induction hentries generalizing asked stats with
  | nil => rfl
  | @cons c entry containers entries hentry hentries ih =>
    have hown := entryReading_written hlower hentry (hstats 0 c rfl)
    have hlater : readEntries rt engine (asked + 1) entries =
        .ok (containers.mapIdx fun k c => c.reading rt (stats (k + 1))) :=
      ih fun k d hd => by
        rw [Nat.add_assoc, Nat.add_comm 1]
        exact hstats (k + 1) d hd
    rw [readEntries, string_isWritten hentry, List.mapIdx_cons]
    simp only [Except.mapError, bind, Except.bind, pure, Except.pure]
    rw [Nat.add_zero] at hown
    simp only [hown, hlater]

/-- Of an engine that answers there is one reading for each container it lists, in its order, with
the container's own identifier and name and the figures of its own statistics. -/
theorem poll_reads (hlower : LowersAscii rt.lowercase) {containers : List Container}
    {entries : List (List Char)} {list : List Char}
    (hentries : List.Forall₂ Container.IsWritten containers entries)
    (hlist : IsListText entries list) (hsent : Sends rt list (engine 0 listPath))
    {stats : ℕ → Option Json}
    (hstats : ∀ k c, containers[k]? = some c →
      SendsStats rt (stats k) (engine (k + 1) (statsPath c.id))) :
    readContainers rt engine = .ok (containers.mapIdx fun k c => c.reading rt (stats k)) := by
  have hrequest := request_sends hlower hsent
  have hlength : list.length < 2 ^ 31 := by
    rcases request_cases rt (engine 0 listPath) with ⟨answer, h, -, -, hfits⟩ | ⟨h, -⟩ | ⟨h, -⟩
    · rw [h] at hrequest
      exact (hfits list (by rw [Except.ok.inj hrequest]; rfl)).trans_lt (by decide)
    · simp [h] at hrequest
    · simp [h] at hrequest
  obtain ⟨before, inner, after, hbefore, hafter, helements, rfl⟩ := hlist
  have hitems := arrayItems_of_elements hbefore hafter helements (by
    simp only [List.length_append, List.length_cons] at hlength
    omega)
  rw [readContainers, hrequest]
  simp only [hitems, Except.mapError, bind, Except.bind]
  exact readEntries_written hlower hentries fun k c hc => by
    rw [Nat.add_comm]
    exact hstats k c hc

/-- A container named by the engine as `/pg`. -/
def database : Container where
  id := "0ab".toList
  name := "pg".toList
  id_legal := by simp [Legal]
  name_legal := by simp [Legal]
  name_start := by simp

/-- It is listed with its names first. -/
def databaseMembers : List (List StringUnit × Json) :=
  [(unescaped "Names".toList (by simp),
      .array [.string (unescaped ('/' :: database.name) database.name_legal)]),
    (unescaped "Id".toList (by simp), .string (unescaped database.id database.id_legal))]

lemma legal_memory_stats : Legal "memory_stats".toList := by simp [Legal]

lemma legal_usage : Legal "usage".toList := by simp [Legal]

/-- It holds five bytes. -/
def databaseStats : Json :=
  .object [(unescaped "memory_stats".toList legal_memory_stats,
    .object [(unescaped "usage".toList legal_usage, .number five)])]

def plainHead : List Char := "HTTP/1.1 200 OK".toList

def plainResponse (text : List Char) : List Char := plainHead ++ (crlf ++ crlf ++ text)

def databaseList : List Char := '[' :: (compact (.object databaseMembers) ++ [']'])

/-- The list comes in two pieces, and the pipe breaks after the statistics. -/
def databaseEngine : ℕ → List Char → Connection
  | 0, _ =>
    let bytes := Utf8.bytes (plainResponse databaseList)
    some (stream [bytes.take 25, bytes.drop 25] false)
  | _ + 1, _ => some (stream [Utf8.bytes (plainResponse (compact databaseStats))] true)

lemma responds_plainResponse (text : List Char) : Responds .ieee text (plainResponse text) := by
  have hfirst : FirstAfter (crlf ++ crlf) (headOf plainHead []) :=
    firstAfter_headOf (by constructor <;> decide) (by simp)
  exact .whole (by simpa [headOf] using hfirst) (by decide +kernel) (by decide +kernel)

lemma database_isWritten : database.IsWritten (compact (.object databaseMembers)) := by
  refine ⟨databaseMembers, [], writes_compact false _, ?_, ?_⟩
  · exact ⟨databaseMembers.take 1, unescaped "Id".toList (by simp), [], rfl, by simp,
      by decide +kernel⟩
  · exact ⟨[], unescaped "Names".toList (by simp), databaseMembers.drop 1, rfl, by simp,
      by simp [fieldsOfMembers]⟩

theorem database_read : readContainers .ieee databaseEngine =
    .ok [⟨"0ab", "pg", 0, 5, none⟩] := by
  have hlist : Sends .ieee databaseList (databaseEngine 0 listPath) :=
    ⟨plainResponse databaseList, _, false, responds_plainResponse _, by decide +kernel,
      by decide +kernel, by decide +kernel, rfl⟩
  have hstats : Sends .ieee ([] ++ (compact databaseStats ++ []))
      (databaseEngine 1 (statsPath database.id)) :=
    ⟨plainResponse (compact databaseStats), _, true, responds_plainResponse _, by decide +kernel,
      by simp, by decide +kernel, rfl⟩
  have helements : Elements [compact (.object databaseMembers)]
      ([] ++ (compact (.object databaseMembers) ++ [])) :=
    .last blank_nil (isObjectText_compact _) blank_nil
  have hall : ∀ k c, [database][k]? = some c →
      SendsStats .ieee (some databaseStats) (databaseEngine (k + 1) (statsPath c.id)) := by
    intro k c hc
    cases k with
    | zero =>
      obtain rfl := Option.some.inj hc
      exact ⟨[], _, [], blank_nil, writes_compact false _, blank_nil, hstats⟩
    | succ k => simp at hc
  have hread : readContainers .ieee databaseEngine =
      .ok ([database].mapIdx fun _ c => c.reading .ieee (some databaseStats)) :=
    poll_reads lowersAscii_ieee (.cons database_isWritten .nil)
      ⟨[], _, [], blank_nil, blank_nil, helements, rfl⟩ hlist hall
  rw [hread]
  exact congrArg Except.ok (by decide +kernel)

end Poll

end LoadBear.Docker
