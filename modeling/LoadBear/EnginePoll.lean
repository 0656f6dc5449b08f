import LoadBear.BoundedRead
import LoadBear.ContainerAnswers

/-!
# Asking the engine for its containers

One request lists the containers and one more for each of them asks for its statistics. Every
answer comes in pieces of any lengths, may break off and may never end. Nothing in an answer
stops the thread but a chunk that ends inside a character, and an answer that never ends stops
nobody else.
-/
namespace LoadBear.Docker

open ByteText BoundedRead

/-- What the engine does with a request: it takes none, or answers the reads that follow. -/
abbrev Connection := Option (List (Option (List UInt8)))

/-- Why asking does not come to an end. -/
inductive Halt
  | fault (f : Fault)
  | blocked
  deriving DecidableEq, Repr

section Requests
variable (rt : Runtime)

/-- The length of the buffer that the pipe is read into. -/
def pipeBuffer : ℕ := 16 * 1024

/-- One HTTP GET against the engine, returning the response body. -/
def request (connection : Connection) : Except Halt (Option (List Char)) :=
  match connection with
  | none => .ok none
  | some answers =>
    let read := gather maxResponseBytes [] answers
    match read.stop with
    | .waiting => .error .blocked
    | .tooLong => .ok none
    | .ended | .failed => (body rt (Utf8.decodeLossy read.held)).mapError .fault

def listPath : List Char := "/v1.43/containers/json".toList

def statsPath (id : List Char) : List Char :=
  "/v1.43/containers/".toList ++ id ++ "/stats?stream=false&one-shot=true".toList

def shortId (id : List Char) : List Char := id.take 12

/-- The share of the processor, the memory in use and its limit. -/
def statsFigures (stats : Option (List Char)) : Except Fault (ℚ × ℕ × Option ℕ) :=
  match stats with
  | none => .ok (0, 0, none)
  | some stats => do
    let usage ← nestedU64 stats "memory_stats".toList "usage".toList
    let limit ← nestedU64 stats "memory_stats".toList "limit".toList
    let percent ← cpuPercent rt stats
    return (percent, usage.getD 0, limit.filter (0 < ·))

/-- The reading of one entry of the list with an identifier. -/
def entryReading (connection : Connection) (id entry : List Char) :
    Except Halt ContainerReading := do
  let name ← (firstName entry).mapError .fault
  let stats ← request rt connection
  let (percent, usage, limit) ← (statsFigures rt stats).mapError .fault
  return {
    id := String.ofList id
    name := String.ofList (name.getD (shortId id))
    cpuPercent := percent
    memoryBytes := usage
    memoryLimitBytes := limit }

variable (engine : ℕ → List Char → Connection)

/-- The readings of the entries, from a number of requests on. An entry without an identifier is
passed over. -/
def readEntries : ℕ → List (List Char) → Except Halt (List ContainerReading)
  | _, [] => .ok []
  | asked, entry :: entries => do
    match ← (string entry "Id".toList).mapError .fault with
    | none => readEntries asked entries
    | some id =>
      let reading ← entryReading rt (engine asked (statsPath id)) id entry
      let readings ← readEntries (asked + 1) entries
      return reading :: readings

/-- Ask the engine which containers are running and what they are using. -/
def readContainers : Except Halt (List ContainerReading) := do
  match ← request rt (engine 0 listPath) with
  | none => return []
  | some list =>
    let entries ← (arrayItems list).mapError .fault
    readEntries rt engine 1 entries

end Requests

section Answers
variable {rt : Runtime} {connection : Connection}

/-- The engine leaves a request without the end of its answer. -/
def Stalls (connection : Connection) : Prop :=
  ∃ answers ∈ connection, (gather maxResponseBytes [] answers).stop = .waiting

/-- The engine answers with chunks of which one ends inside a character. -/
def Cuts (rt : Runtime) (connection : Connection) : Prop :=
  ∃ answers ∈ connection, (gather maxResponseBytes [] answers).stop ≠ .waiting ∧
    CutsChunk rt (gather maxResponseBytes [] answers).held

/-- An answer that ended one way or the other is what was read before. -/
lemma request_eq_get {answers : List (Option (List UInt8))}
    (h : (gather maxResponseBytes [] answers).stop ≠ .waiting) :
    request rt (some answers) =
      (get rt (gather maxResponseBytes [] answers).held).mapError .fault := by
  have hlong : (gather maxResponseBytes [] answers).stop = .tooLong ↔
      maxResponseBytes < (gather maxResponseBytes [] answers).held.length :=
    stop_iff (Nat.zero_le _)
  unfold request get
  cases hstop : (gather maxResponseBytes [] answers).stop with
  | waiting => exact absurd hstop h
  | tooLong =>
    rw [if_pos (hlong.mp hstop)]
    simp [hstop, Except.mapError]
  | ended =>
    rw [if_neg fun hmore => by simp [hlong.mpr hmore] at hstop]
    simp [hstop]
  | failed =>
    rw [if_neg fun hmore => by simp [hlong.mpr hmore] at hstop]
    simp [hstop]

/-- An answer in pieces is taken as the bytes of all of them would be, whether the pipe is closed
or breaks behind them, and what is held of it never exceeds the ceiling by more than a buffer. -/
theorem request_pieces (rt : Runtime) (fails : Bool) (pieces : List (List UInt8))
    (hne : ∀ piece ∈ pieces, piece ≠ []) (hshort : ∀ piece ∈ pieces, piece.length ≤ pipeBuffer) :
    request rt (some (stream pieces fails)) = (get rt pieces.flatten).mapError .fault ∧
      ∀ answers, answers <+: stream pieces fails →
        (gather maxResponseBytes [] answers).held.length ≤ maxResponseBytes + pipeBuffer := by
  refine ⟨?_, fun answers hanswers => held_le (Nat.zero_le _) fun piece hpiece => ?_⟩
  · have hgather := gather_stream maxResponseBytes fails hne
    by_cases hlong : maxResponseBytes < pieces.flatten.length
    · rw [if_pos hlong] at hgather
      rw [request_eq_get (by simp [hgather]), get, get, if_pos hlong,
        if_pos ((stop_iff (Nat.zero_le _)).mp hgather)]
    · rw [if_neg hlong] at hgather
      rw [request_eq_get (by rw [hgather]; cases fails <;> simp), hgather]
  · rcases List.mem_append.mp (hanswers.subset hpiece) with hmem | hlast
    · obtain ⟨own, hown, heq⟩ := List.mem_map.mp hmem
      exact Option.some.inj heq ▸ hshort own hown
    · cases fails
      · obtain rfl : piece = [] := by simpa using hlast
        exact Nat.zero_le _
      · simp at hlast

/-- Half a header in two pieces, and a broken pipe. -/
theorem two_pieces_requested :
    request .ieee (some (stream [Utf8.bytes "HTTP/1.1".toList, Utf8.bytes " 200".toList] true)) =
      .ok none := by
  have hrequest := (request_pieces .ieee true [Utf8.bytes "HTTP/1.1".toList,
    Utf8.bytes " 200".toList] (by decide +kernel) (by decide +kernel)).1
  rw [hrequest]
  decide +kernel

/-- A request comes to an end with a text of bounded length or none, blocks, or stops the thread. -/
lemma request_cases (rt : Runtime) (connection : Connection) :
    (∃ answer, request rt connection = .ok answer ∧ ¬Stalls connection ∧ ¬Cuts rt connection ∧
      ∀ text ∈ answer, text.length ≤ maxResponseBytes) ∨
    (request rt connection = .error .blocked ∧ Stalls connection ∧ ¬Cuts rt connection) ∨
    (request rt connection = .error (.fault .slice) ∧ ¬Stalls connection ∧
      Cuts rt connection) := by
  cases connection with
  | none => exact .inl ⟨none, rfl, by simp [Stalls], by simp [Cuts], nofun⟩
  | some answers =>
    by_cases hwaiting : (gather maxResponseBytes [] answers).stop = .waiting
    · refine .inr (.inl ⟨?_, by simpa [Stalls] using hwaiting, by simp [Cuts, hwaiting]⟩)
      simp [request, hwaiting]
    have hstalls : ¬Stalls (some answers) := by simpa [Stalls] using hwaiting
    have hcuts : Cuts rt (some answers) ↔
        CutsChunk rt (gather maxResponseBytes [] answers).held := by
      simp [Cuts, hwaiting]
    rw [request_eq_get hwaiting, hcuts]
    rcases get_cases rt (gather maxResponseBytes [] answers).held with
      ⟨answer, hanswer, hlength, hwhole⟩ | ⟨hstop, hcut⟩
    · exact .inl ⟨answer, by rw [hanswer]; rfl, hstalls, hwhole, hlength⟩
    · exact .inr (.inr ⟨by rw [hstop]; rfl, hstalls, hcut⟩)

/-- What keeps a request from coming to its end. -/
def haltOf (rt : Runtime) (connection : Connection) : Option Halt :=
  match request rt connection with
  | .ok _ => none
  | .error halt => some halt

lemma haltOf_eq_none : haltOf rt connection = none ↔ ¬Stalls connection ∧ ¬Cuts rt connection := by
  rcases request_cases rt connection with ⟨answer, h, hstalls, hcuts, -⟩ | ⟨h, hstalls, -⟩ |
    ⟨h, -, hcuts⟩
  · simp [haltOf, h, hstalls, hcuts]
  · simp [haltOf, h, hstalls]
  · simp [haltOf, h, hcuts]

lemma haltOf_eq_blocked : haltOf rt connection = some .blocked ↔ Stalls connection := by
  rcases request_cases rt connection with
    ⟨answer, h, hstalls, -⟩ | ⟨h, hstalls, -⟩ | ⟨h, hstalls, -⟩
  · simp [haltOf, h, hstalls]
  · simp [haltOf, h, hstalls]
  · simp [haltOf, h, hstalls]

lemma haltOf_eq_fault {f : Fault} :
    haltOf rt connection = some (.fault f) ↔ f = .slice ∧ Cuts rt connection := by
  rcases request_cases rt connection with ⟨answer, h, -, hcuts, -⟩ | ⟨h, -, hcuts⟩ | ⟨h, -, hcuts⟩
  · simp [haltOf, h, hcuts]
  · simp [haltOf, h, hcuts]
  · simp [haltOf, h, hcuts, eq_comm]

end Answers

section Entries
variable {rt : Runtime}

/-- The identifier of an entry, if it has one. -/
def identifier (entry : List Char) : Option (List Char) := (string entry "Id".toList).toOption.join

lemma string_id (entry : List Char) : string entry "Id".toList = .ok (identifier entry) := by
  obtain ⟨value, hvalue, -⟩ := string_safe entry "Id".toList
  rw [identifier, hvalue]
  rfl

/-- A reading is of the container and within bounds. -/
structure Bounded (id : List Char) (reading : ContainerReading) : Prop where
  id : reading.id = String.ofList id
  cpuPercent : 0 ≤ reading.cpuPercent ∧ reading.cpuPercent ≤ 100
  memoryBytes : reading.memoryBytes ≤ u64Max
  memoryLimitBytes : ∀ limit ∈ reading.memoryLimitBytes, 0 < limit ∧ limit ≤ u64Max

lemma statsFigures_safe (rt : Runtime) (stats : Option (List Char)) :
    ∃ percent usage limit, statsFigures rt stats = .ok (percent, usage, limit) ∧
      (0 ≤ percent ∧ percent ≤ 100) ∧ usage ≤ u64Max ∧
      ∀ l ∈ limit, 0 < l ∧ l ≤ u64Max := by
  cases stats with
  | none => exact ⟨0, 0, none, rfl, by norm_num, Nat.zero_le _, nofun⟩
  | some stats =>
    obtain ⟨usage, husage, husageFits⟩ :=
      nestedU64_safe stats "memory_stats".toList "usage".toList
    obtain ⟨limit, hlimit, hlimitFits⟩ :=
      nestedU64_safe stats "memory_stats".toList "limit".toList
    obtain ⟨percent, hpercent, hlow, hhigh, -⟩ := cpuPercent_safe rt stats
    refine ⟨percent, usage.getD 0, limit.filter (0 < ·), ?_, ⟨hlow, hhigh⟩, ?_, fun l hl => ?_⟩
    · simp only [statsFigures, husage, hlimit, hpercent, bind, Except.bind, pure, Except.pure]
    · cases usage with
      | none => exact Nat.zero_le _
      | some n => exact (husageFits n rfl).1
    · obtain ⟨hmem, hpositive⟩ := Option.filter_eq_some_iff.mp hl
      exact ⟨by simpa using hpositive, (hlimitFits l hmem).1⟩

/-- The reading of an entry needs nothing but the answer to its request. -/
lemma entryReading_cases (rt : Runtime) (connection : Connection) (id entry : List Char) :
    (∃ reading, entryReading rt connection id entry = .ok reading ∧
      haltOf rt connection = none ∧ Bounded id reading) ∨
    ∃ halt, entryReading rt connection id entry = .error halt ∧
      haltOf rt connection = some halt := by
  obtain ⟨name, hname, -⟩ := firstName_safe entry
  unfold entryReading haltOf
  rw [hname]
  cases hrequest : request rt connection with
  | error halt => exact .inr ⟨halt, rfl, rfl⟩
  | ok stats =>
    obtain ⟨percent, usage, limit, hfigures, hpercent, husage, hlimit⟩ := statsFigures_safe rt stats
    refine .inl ⟨{
        id := String.ofList id
        name := String.ofList (name.getD (shortId id))
        cpuPercent := percent
        memoryBytes := usage
        memoryLimitBytes := limit }, ?_, rfl, rfl, hpercent, husage, hlimit⟩
    simp only [Except.mapError, hfigures, bind, Except.bind, pure, Except.pure]

variable (engine : ℕ → List Char → Connection)

/-- What the engine does with the requests for some containers, from a number of requests on. -/
def statsAsked (asked : ℕ) (ids : List (List Char)) : List Connection :=
  ids.mapIdx fun k id => engine (asked + k) (statsPath id)

lemma statsAsked_cons (asked : ℕ) (id : List Char) (ids : List (List Char)) :
    statsAsked engine asked (id :: ids) =
      engine asked (statsPath id) :: statsAsked engine (asked + 1) ids := by
  simp only [statsAsked, List.mapIdx_cons, Nat.add_zero, Nat.add_assoc, Nat.add_comm 1]

/-- The entries are read in turn until a request does not come to its end. -/
lemma readEntries_cases (asked : ℕ) (entries : List (List Char)) :
    (∃ readings, readEntries rt engine asked entries = .ok readings ∧
      (statsAsked engine asked (entries.filterMap identifier)).findSome? (haltOf rt) = none ∧
      List.Forall₂ Bounded (entries.filterMap identifier) readings) ∨
    ∃ halt, readEntries rt engine asked entries = .error halt ∧
      (statsAsked engine asked (entries.filterMap identifier)).findSome? (haltOf rt) =
        some halt := by
  induction entries generalizing asked with
  | nil => exact .inl ⟨[], rfl, rfl, .nil⟩
  | cons entry entries ih =>
    rw [readEntries, string_id]
    cases hid : identifier entry with
    | none =>
      rw [List.filterMap_cons_none hid]
      exact ih asked
    | some id =>
      rw [List.filterMap_cons_some hid, statsAsked_cons, List.findSome?_cons]
      rcases entryReading_cases rt (engine asked (statsPath id)) id entry with
        ⟨reading, hreading, hnone, hbounded⟩ | ⟨halt, hreading, hhalt⟩
      · rcases ih (asked + 1) with ⟨readings, hrest, hfind, hall⟩ | ⟨halt, hrest, hfind⟩
        · refine .inl ⟨reading :: readings, ?_, by rw [hnone, hfind], .cons hbounded hall⟩
          simp only [Except.mapError, hreading, hrest, bind, Except.bind, pure, Except.pure]
        · refine .inr ⟨halt, ?_, by rw [hnone, hfind]⟩
          simp only [Except.mapError, hreading, hrest, bind, Except.bind]
      · refine .inr ⟨halt, ?_, by rw [hhalt]⟩
        simp only [Except.mapError, hreading, bind, Except.bind]

end Entries

section Polls
variable (rt : Runtime) (engine : ℕ → List Char → Connection)

/-- The identifiers on a list, in its order. -/
def identifiers (list : List Char) : List (List Char) :=
  ((arrayItems list).toOption.getD []).filterMap identifier

/-- The identifiers that the engine lists. -/
def listed : List (List Char) :=
  match request rt (engine 0 listPath) with
  | .ok (some list) => identifiers list
  | _ => []

/-- What the engine does with the requests of a poll, in the order they are made. -/
def asked : List Connection := engine 0 listPath :: statsAsked engine 1 (listed rt engine)

lemma readContainers_cases :
    (∃ readings, readContainers rt engine = .ok readings ∧
      (asked rt engine).findSome? (haltOf rt) = none ∧
      List.Forall₂ Bounded (listed rt engine) readings) ∨
    ∃ halt, readContainers rt engine = .error halt ∧
      (asked rt engine).findSome? (haltOf rt) = some halt := by
  unfold readContainers asked listed
  rw [List.findSome?_cons]
  rcases request_cases rt (engine 0 listPath) with ⟨answer, h, -, -, hlength⟩ | ⟨h, -⟩ | ⟨h, -⟩
  · rw [haltOf, h]
    cases answer with
    | none => exact .inl ⟨[], rfl, rfl, .nil⟩
    | some list =>
      obtain ⟨entries, hentries, -⟩ :=
        arrayItems_safe ((hlength list rfl).trans_lt (by decide : maxResponseBytes < 2 ^ 31))
      have hids : identifiers list = entries.filterMap identifier := by
        rw [identifiers, hentries]
        rfl
      simp only [hids, hentries, Except.mapError, bind, Except.bind]
      exact readEntries_cases engine 1 entries
  · exact .inr ⟨.blocked, by rw [h]; rfl, by simp [haltOf, h]⟩
  · exact .inr ⟨.fault .slice, by rw [h]; rfl, by simp [haltOf, h]⟩

/-- The first request of a poll that is not answered to its end is of a kind. -/
def FirstUnanswered (kind : Connection → Prop) : Prop :=
  ∃ before connection after, asked rt engine = before ++ connection :: after ∧ kind connection ∧
    ∀ earlier ∈ before, ¬Stalls earlier ∧ ¬Cuts rt earlier

/-- A poll blocks or stops its thread with the first of its requests that stalls or is answered
with a cut character. Otherwise it has a reading for every identifier listed, in that order. -/
theorem poll_ends_iff :
    (readContainers rt engine = .error .blocked ↔ FirstUnanswered rt engine Stalls) ∧
    ((∃ f, readContainers rt engine = .error (.fault f)) ↔
      FirstUnanswered rt engine (Cuts rt)) ∧
    ∀ readings, readContainers rt engine = .ok readings →
      List.Forall₂ Bounded (listed rt engine) readings := by
  have hfirst : ∀ halt, (asked rt engine).findSome? (haltOf rt) = some halt ↔
      FirstUnanswered rt engine fun c => haltOf rt c = some halt := by
    intro halt
    simp only [List.findSome?_eq_some_iff, FirstUnanswered, haltOf_eq_none]
  have hsame : ∀ halt, readContainers rt engine = .error halt ↔
      (asked rt engine).findSome? (haltOf rt) = some halt := by
    intro halt
    rcases readContainers_cases rt engine with ⟨readings, h, hfind, -⟩ | ⟨other, h, hfind⟩
    · simp [h, hfind]
    · simp [h, hfind]
  refine ⟨?_, ?_, fun readings hok => ?_⟩
  · rw [hsame, hfirst]
    simp only [FirstUnanswered, haltOf_eq_blocked]
  · simp only [hsame, hfirst, FirstUnanswered, haltOf_eq_fault]
    constructor
    · rintro ⟨f, before, c, after, heq, ⟨-, hcuts⟩, hbefore⟩
      exact ⟨before, c, after, heq, hcuts, hbefore⟩
    · rintro ⟨before, c, after, heq, hcuts, hbefore⟩
      exact ⟨.slice, before, c, after, heq, ⟨rfl, hcuts⟩, hbefore⟩
  · rcases readContainers_cases rt engine with ⟨readings', h, -, hall⟩ | ⟨other, h, -⟩
    · rw [h] at hok
      exact Except.ok.inj hok ▸ hall
    · simp [h] at hok

end Polls

end LoadBear.Docker
