import LoadBear.ByteText
import LoadBear.Types
import LoadBear.Utf8

/-!
# The container engine's answers

A response is split from its header, put back together if the engine sent it in chunks, and
scanned for a few named fields. Everything is found by its place in bytes, and a slice at a
place inside a character stops the thread.
-/
namespace LoadBear.Docker

open ByteText

/-- A ceiling on how much of a response is read. -/
def maxResponseBytes : ℕ := 4 * 1024 * 1024

section Body
variable (rt : Runtime)

def crlf : List Char := ['\r', '\n']

def hexDigit (c : Char) : Option ℕ :=
  if '0' ≤ c ∧ c ≤ '9' then some (c.toNat - '0'.toNat)
  else if 'a' ≤ c ∧ c ≤ 'f' then some (c.toNat - 'a'.toNat + 10)
  else if 'A' ≤ c ∧ c ≤ 'F' then some (c.toNat - 'A'.toNat + 10)
  else none

/-- One more hexadecimal digit, unless the number no longer fits. -/
def hexStep (n : ℕ) (c : Char) : Option ℕ := do
  let digit ← hexDigit c
  if n * 16 + digit ≤ u64Max then some (n * 16 + digit) else none

/-- `usize::from_str_radix` for hexadecimal numbers, which may have a sign in front. -/
def fromHex : List Char → Option ℕ
  | [] | ['+'] => none
  | '+' :: digits => digits.foldlM hexStep 0
  | digits => digits.foldlM hexStep 0

/-- The number at the start of a chunk's first line, or zero where there is none. -/
def chunkSize (sizeLine : List Char) : ℕ :=
  (fromHex (trim ((trim sizeLine).takeWhile (· ≠ ';')))).getD 0

/-- Put the chunks together. Every chunk makes the rest shorter, so the fuel lasts. -/
def dechunk : ℕ → List Char → Except Fault (List Char)
  | 0, _ => .error .exhausted
  | fuel + 1, remaining =>
    match splitOnce crlf remaining with
    | none => .ok []
    | some (sizeLine, after) =>
      let n := chunkSize sizeLine
      if n = 0 ∨ size after < n then .ok []
      else do
        let piece ← sliceTo n after
        let rest ← sliceFrom n after
        let out ← dechunk fuel ((stripPrefix crlf rest).getD [])
        return piece ++ out

/-- The first of the lines, without its end. -/
def firstLine (text : List Char) : Option (List Char) :=
  if text = [] then none
  else
    match splitOnce ['\n'] text with
    | none => some text
    | some (line, _) => some (if line.getLast? = some '\r' then line.dropLast else line)

/-- Whether the header announces success. -/
def statusOk (head : List Char) : Bool :=
  ((firstLine head).map (contains " 200".toList)).getD false

/-- Whether the header announces chunks. -/
def isChunked (head : List Char) : Bool :=
  contains "transfer-encoding: chunked".toList (rt.lowercase (String.ofList head)).toList

/-- The body of a response. -/
def body (response : List Char) : Except Fault (Option (List Char)) :=
  match splitOnce (crlf ++ crlf) response with
  | none => .ok none
  | some (head, rest) =>
    if ¬statusOk head then .ok none
    else if ¬isChunked rt head then .ok (some rest)
    else (dechunk (rest.length + 1) rest).map some

/-- What is made of the bytes read from the pipe. -/
def get (raw : List UInt8) : Except Fault (Option (List Char)) :=
  if maxResponseBytes < raw.length then .ok none else body rt (Utf8.decodeLossy raw)

end Body

section Json

/-- Where a scan for the elements of an array stands. -/
structure Scan where
  items : List (List Char)
  depth : ℤ
  start : Option ℕ
  inString : Bool
  escaped : Bool
  deriving DecidableEq, Repr

/-- A depth that 32 bits can hold. -/
def checkedDepth (depth : ℤ) : Except Fault ℤ :=
  if -2 ^ 31 ≤ depth ∧ depth < 2 ^ 31 then .ok depth else .error .overflow

lemma checkedDepth_eq {depth : ℤ} (hlow : -2 ^ 31 ≤ depth) (hhigh : depth < 2 ^ 31) :
    checkedDepth depth = .ok depth := by
  rw [checkedDepth, if_pos ⟨hlow, hhigh⟩]

/-- One character of the text, which stands at a place. -/
def Scan.step (text : List Char) (s : Scan) (i : ℕ) (c : Char) : Except Fault Scan :=
  if s.escaped then .ok { s with escaped := false }
  else if c = '\\' ∧ s.inString then .ok { s with escaped := true }
  else if c = '"' then .ok { s with inString := !s.inString }
  else if c = '{' ∧ ¬s.inString then do
    let depth ← checkedDepth (s.depth + 1)
    return { s with start := if s.depth = 0 then some i else s.start, depth := depth }
  else if c = '}' ∧ ¬s.inString then do
    let depth ← checkedDepth (s.depth - 1)
    match if depth = 0 then s.start else none with
    | none => return { s with depth := depth }
    | some start =>
      let item ← slice start (i + 1) text
      return { s with items := s.items ++ [item], depth := depth, start := none }
  else .ok s

/-- The characters from a place on. -/
def Scan.run (text : List Char) : Scan → ℕ → List Char → Except Fault Scan
  | s, _, [] => .ok s
  | s, i, c :: rest => do
    let next ← s.step text i c
    Scan.run text next (i + c.utf8Size) rest

/-- Split a top level array into its object elements. -/
def arrayItems (text : List Char) : Except Fault (List (List Char)) :=
  (Scan.run text ⟨[], 0, none, false, false⟩ 0 text).map Scan.items

/-- A field's name as it stands before its value. -/
def needle (key : List Char) : List Char := '"' :: (key ++ ['"', ':'])

/-- What stands between the quotes that a text starts with. -/
def quoted (text : List Char) : Except Fault (Option (List Char)) :=
  match stripPrefix ['"'] text with
  | none => .ok none
  | some rest =>
    match find ['"'] rest with
    | none => .ok none
    | some last => (sliceTo last rest).map some

/-- The value of a string field. -/
def string (object key : List Char) : Except Fault (Option (List Char)) :=
  match find (needle key) object with
  | none => .ok none
  | some place => do
    let rest ← sliceFrom (place + size (needle key)) object
    quoted (trimStart rest)

/-- The first entry of the `Names` array, without its leading slash. -/
def firstName (object : List Char) : Except Fault (Option (List Char)) :=
  match find (needle "Names".toList) object with
  | none => .ok none
  | some place => do
    let rest ← sliceFrom (place + size (needle "Names".toList)) object
    match stripPrefix ['['] (trimStart rest) with
    | none => return none
    | some rest => return (← quoted (trimStart rest)).map (List.dropWhile (· = '/'))

/-- The value of decimal digits, if there are any and it fits. -/
def parseU64 (digits : List Char) : Option ℕ :=
  let value := digits.foldl (fun n c => n * 10 + (c.toNat - '0'.toNat)) 0
  if digits = [] ∨ u64Max < value then none else some value

/-- The text from where a field's name stands. -/
def scopeOf (key text : List Char) : Except Fault (Option (List Char)) :=
  match find (needle key) text with
  | none => .ok none
  | some place => (sliceFrom place text).map some

/-- The number after a field's name. -/
def numberOf (key scope : List Char) : Except Fault (Option ℕ) :=
  match find (needle key) scope with
  | none => .ok none
  | some place => do
    let rest ← sliceFrom (place + size key + 3) scope
    return parseU64 ((trimStart rest).takeWhile Char.isDigit)

/-- A number nested one level down, or two where the key is a compound one. -/
def nestedU64 (text outer inner : List Char) : Except Fault (Option ℕ) := do
  match ← scopeOf outer text with
  | none => return none
  | some scope =>
    match stripPrefix "cpu_usage_".toList inner with
    | none => numberOf inner scope
    | some leaf =>
      match ← scopeOf "cpu_usage".toList scope with
      | none => return none
      | some scope => numberOf leaf scope

/-- The share of the processor time that passed since the baseline. -/
def cpuShare (rt : Runtime) (total preTotal system preSystem : ℕ) : ℚ :=
  if preTotal = 0 ∨ preSystem = 0 ∨ system ≤ preSystem then 0
  else
    let delta := rt.f64 (total - preTotal : ℕ)
    let systemDelta := rt.f64 (system - preSystem : ℕ)
    if systemDelta ≤ 0 then 0
    else rt.f32 (max 0 (min 100 (rt.f64 (rt.f64 (delta / systemDelta) * 100))))

/-- The share, or zero without a baseline. -/
def cpuPercent (rt : Runtime) (stats : List Char) : Except Fault ℚ := do
  let total ← nestedU64 stats "cpu_stats".toList "cpu_usage_total_usage".toList
  let preTotal ← nestedU64 stats "precpu_stats".toList "cpu_usage_total_usage".toList
  let system ← nestedU64 stats "cpu_stats".toList "system_cpu_usage".toList
  let preSystem ← nestedU64 stats "precpu_stats".toList "system_cpu_usage".toList
  match total, preTotal, system, preSystem with
  | some total, some preTotal, some system, some preSystem =>
    return cpuShare rt total preTotal system preSystem
  | _, _, _, _ => return 0

end Json
end LoadBear.Docker
