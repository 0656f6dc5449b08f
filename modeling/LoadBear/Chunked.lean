import LoadBear.Docker

/-!
# Chunked responses

A response whose body the engine sent in pieces, each behind a line with its length in bytes.
Put together they are the text again. The loop that does it cannot tell the last piece from
the last one that arrived, so a response that stops early yields what is there of its body.
-/
namespace LoadBear.Docker

open ByteText

section Grammar

/-- The characters of a hexadecimal numeral and their values. -/
def hexDigits : List (Char × ℕ) :=
  [('0', 0), ('1', 1), ('2', 2), ('3', 3), ('4', 4), ('5', 5), ('6', 6), ('7', 7), ('8', 8),
    ('9', 9), ('a', 10), ('b', 11), ('c', 12), ('d', 13), ('e', 14), ('f', 15), ('A', 10),
    ('B', 11), ('C', 12), ('D', 13), ('E', 14), ('F', 15)]

/-- Digits of either case that write a number. -/
inductive HexNumeral : List Char → ℕ → Prop
  | digit {c : Char} {d : ℕ} (hc : (c, d) ∈ hexDigits) : HexNumeral [c] d
  | more {digits : List Char} {n d : ℕ} {c : Char} (h : HexNumeral digits n)
      (hc : (c, d) ∈ hexDigits) : HexNumeral (digits ++ [c]) (n * 16 + d)

/-- No end of line in it. -/
def OnOneLine (text : List Char) : Prop := '\r' ∉ text ∧ '\n' ∉ text

/-- Nothing but blanks, or blanks and then a semicolon and the rest of the line. -/
inductive IsExtension : List Char → Prop
  | none {blanks : List Char} (hblanks : ∀ c ∈ blanks, c = ' ' ∨ c = '\t') : IsExtension blanks
  | some {blanks rest : List Char} (hblanks : ∀ c ∈ blanks, c = ' ' ∨ c = '\t')
      (hrest : OnOneLine rest) : IsExtension (blanks ++ ';' :: rest)

/-- A line with a length, and an extension or not. -/
def IsSizeLine (line : List Char) (n : ℕ) : Prop :=
  ∃ digits extension, line = digits ++ extension ∧ HexNumeral digits n ∧ IsExtension extension

/-- A piece of the body, framed with its length. -/
structure Chunk where
  sizeLine : List Char
  piece : List Char
  nonempty : piece ≠ []
  framed : IsSizeLine sizeLine (size piece)
  fits : size piece ≤ u64Max

def Chunk.text (c : Chunk) : List Char := c.sizeLine ++ (crlf ++ (c.piece ++ crlf))

/-- Whether a header announces chunks, in any letter case. -/
def Announces (head : List Char) : Prop :=
  ∃ before said after, head = before ++ (said ++ after) ∧
    said.map Char.toLower = "transfer-encoding: chunked".toList

/-- The lines of a header, one after the other. -/
def headOf (statusLine : List Char) (fields : List (List Char)) : List Char :=
  statusLine ++ fields.flatMap (crlf ++ ·)

/-- A successful response in chunks, with whatever follows the line of the last one. -/
structure ChunkedResponse where
  statusLine : List Char
  fields : List (List Char)
  chunks : List Chunk
  lastLine : List Char
  ending : List Char
  statusLine_oneLine : OnOneLine statusLine
  ok : " 200".toList <:+: statusLine
  fields_oneLine : ∀ field ∈ fields, field ≠ [] ∧ OnOneLine field
  announces : Announces (headOf statusLine fields)
  last : IsSizeLine lastLine 0

namespace ChunkedResponse

def head (r : ChunkedResponse) : List Char := headOf r.statusLine r.fields

/-- The chunks up to the line of the last one, its end included. -/
def framed (r : ChunkedResponse) : List Char :=
  r.chunks.flatMap Chunk.text ++ (r.lastLine ++ crlf)

/-- The response up to the line of the last chunk. -/
def untilLast (r : ChunkedResponse) : List Char := r.head ++ (crlf ++ crlf ++ r.framed)

def text (r : ChunkedResponse) : List Char := r.untilLast ++ r.ending

/-- The text that was divided into the pieces. -/
def payload (r : ChunkedResponse) : List Char := r.chunks.flatMap Chunk.piece

end ChunkedResponse

/-- Lowercasing acts on ASCII letters wherever they stand. -/
def LowersAscii (lowercase : String → String) : Prop :=
  ∀ before said after : List Char, (∀ c ∈ said, c.val < 128) → ∃ front back,
    (lowercase (String.ofList (before ++ (said ++ after)))).toList =
      front ++ (said.map Char.toLower ++ back)

end Grammar

section SizeLines
variable {digits line : List Char} {n : ℕ}

lemma hexDigit_of_mem {c : Char} {d : ℕ} (h : (c, d) ∈ hexDigits) : hexDigit c = some d := by
  have hall : ∀ entry ∈ hexDigits, hexDigit entry.1 = some entry.2 := by decide
  exact hall _ h

lemma HexNumeral.mem (h : HexNumeral digits n) : ∀ c ∈ digits, ∃ d, (c, d) ∈ hexDigits := by
  induction h with
  | digit hc => exact fun c hmem => ⟨_, List.mem_singleton.mp hmem ▸ hc⟩
  | more h hc ih =>
    intro c hmem
    rcases List.mem_append.mp hmem with hmem | hmem
    · exact ih c hmem
    · exact ⟨_, List.mem_singleton.mp hmem ▸ hc⟩

lemma HexNumeral.ne_nil (h : HexNumeral digits n) : digits ≠ [] := by
  cases h <;> simp

/-- The digits are read one by one, and nothing on the way is larger than the number. -/
lemma HexNumeral.foldlM (h : HexNumeral digits n) (hfits : n ≤ u64Max) :
    digits.foldlM hexStep 0 = some n := by
  induction h with
  | digit hc => simp [hexStep, hexDigit_of_mem hc, hfits]
  | more h hc ih =>
    rw [List.foldlM_append, ih (by omega)]
    simp [hexStep, hexDigit_of_mem hc, hfits]

lemma HexNumeral.fromHex (h : HexNumeral digits n) (hfits : n ≤ u64Max) :
    fromHex digits = some n := by
  obtain ⟨c, rest, rfl⟩ := List.exists_cons_of_ne_nil h.ne_nil
  have hsign : c ≠ '+' := by
    rintro rfl
    obtain ⟨d, hd⟩ := h.mem '+' (.head _)
    simp [hexDigits] at hd
  rw [← h.foldlM hfits]
  unfold Docker.fromHex
  split
  · simp_all
  · simp_all
  · simp_all
  · rfl

/-- What is no part of a numeral. -/
lemma HexNumeral.plain (h : HexNumeral digits n) :
    ∀ c ∈ digits, isWhitespace c = false ∧ c ≠ ';' ∧ c ≠ '\r' ∧ c ≠ '\n' := by
  have hall : ∀ entry ∈ hexDigits, isWhitespace entry.1 = false ∧ entry.1 ≠ ';' ∧
      entry.1 ≠ '\r' ∧ entry.1 ≠ '\n' := by decide
  intro c hc
  obtain ⟨d, hd⟩ := h.mem c hc
  exact hall _ hd

lemma isWhitespace_blank {c : Char} (h : c = ' ' ∨ c = '\t') : isWhitespace c := by
  rcases h with rfl | rfl <;> decide

lemma takeWhile_semicolon {text : List Char} (h : ∀ c ∈ text, c ≠ ';') :
    text.takeWhile (· ≠ ';') = text := by
  rw [List.takeWhile_eq_self_iff]
  intro c hc
  simpa using h c hc

/-- The length is read from the front of its line. -/
lemma IsSizeLine.chunkSize (h : IsSizeLine line n) (hfits : n ≤ u64Max) :
    chunkSize line = n := by
  obtain ⟨digits, extension, rfl, hdigits, hextension⟩ := h
  have hplain := hdigits.plain
  have hblank : ∀ c ∈ digits, isWhitespace c = false := fun c hc => (hplain c hc).1
  have hsemicolon : ∀ c ∈ digits, c ≠ ';' := fun c hc => (hplain c hc).2.1
  unfold Docker.chunkSize
  cases hextension with
  | none hblanks =>
    have hspaces : ∀ c ∈ extension, isWhitespace c := fun c hc => isWhitespace_blank (hblanks c hc)
    have htrim : trim digits = digits := by
      simpa using trim_append_blanks hblank (nofun : ∀ c ∈ ([] : List Char), isWhitespace c)
    rw [trim_append_blanks hblank hspaces, takeWhile_semicolon hsemicolon, htrim,
      hdigits.fromHex hfits]
    rfl
  | @some blanks rest hblanks hrest =>
    have hspaces : ∀ c ∈ blanks, isWhitespace c := fun c hc => isWhitespace_blank (hblanks c hc)
    have hfront : ∀ c ∈ digits ++ blanks, c ≠ ';' := by
      intro c hc
      rcases List.mem_append.mp hc with hc | hc
      · exact hsemicolon c hc
      · rcases hblanks c hc with rfl | rfl <;> decide
    have htrim : trim (digits ++ (blanks ++ ';' :: rest)) =
        (digits ++ blanks) ++ ';' :: rest.rdropWhile isWhitespace := by
      obtain ⟨c, digits', rfl⟩ := List.exists_cons_of_ne_nil hdigits.ne_nil
      rw [trim, List.cons_append, trimStart_cons (hblank c (.head _)), ← List.cons_append,
        ← List.append_assoc, rdropWhile_cons (by decide)]
    have htake : ((digits ++ blanks) ++ ';' :: rest.rdropWhile isWhitespace).takeWhile
        (· ≠ ';') = digits ++ blanks := by
      rw [List.takeWhile_append_of_pos (by simpa using hfront)]
      simp
    rw [htrim, htake, trim_append_blanks hblank hspaces, hdigits.fromHex hfits]
    rfl

lemma OnOneLine.append {a b : List Char} (ha : OnOneLine a) (hb : OnOneLine b) :
    OnOneLine (a ++ b) := by
  constructor
  · simp [ha.1, hb.1]
  · simp [ha.2, hb.2]

lemma onOneLine_blanks {blanks : List Char} (h : ∀ c ∈ blanks, c = ' ' ∨ c = '\t') :
    OnOneLine blanks := by
  constructor
  · intro hmem
    simpa using h _ hmem
  · intro hmem
    simpa using h _ hmem

lemma IsSizeLine.onOneLine (h : IsSizeLine line n) : OnOneLine line := by
  obtain ⟨digits, extension, rfl, hdigits, hextension⟩ := h
  apply OnOneLine.append
  · constructor
    · exact fun hmem => (hdigits.plain _ hmem).2.2.1 rfl
    · exact fun hmem => (hdigits.plain _ hmem).2.2.2 rfl
  · cases hextension with
    | none hblanks => exact onOneLine_blanks hblanks
    | some hblanks hrest =>
      apply (onOneLine_blanks hblanks).append
      constructor
      · simp [hrest.1]
      · simp [hrest.2]

/-- The end of a line is not found inside it. -/
lemma OnOneLine.firstAfter {line : List Char} (h : OnOneLine line) : FirstAfter crlf line := by
  intro start rest heq
  rcases List.append_eq_append_iff.mp heq with ⟨between, rfl, hrest⟩ | ⟨between, rfl, hrest⟩
  · have hlength := congrArg List.length hrest
    simp only [List.length_append] at hlength
    exact List.length_eq_zero_iff.mp (by omega)
  · cases between with
    | nil => simpa using hrest
    | cons c between =>
      obtain ⟨rfl, -⟩ := List.cons_eq_cons.mp hrest
      exact absurd (List.mem_append_right start (.head _)) h.1

end SizeLines

section Dechunk
variable {fuel : ℕ}

lemma size_pos {text : List Char} (h : text ≠ []) : 0 < size text := by
  obtain ⟨c, rest, rfl⟩ := List.exists_cons_of_ne_nil h
  rw [size_cons]
  exact Nat.add_pos_left c.utf8Size_pos _

/-- One whole chunk is taken off the front. -/
lemma dechunk_chunk (c : Chunk) (more : List Char) :
    dechunk (fuel + 1) (c.text ++ more) = (dechunk fuel more).map (c.piece ++ ·) := by
  have hline := c.framed.onOneLine.firstAfter
  have hsplit : splitOnce crlf (c.text ++ more) =
      some (c.sizeLine, c.piece ++ (crlf ++ more)) := by
    have hsplit := splitOnce_append (by simp [crlf]) hline (c.piece ++ (crlf ++ more))
    simpa [Chunk.text] using hsplit
  have hgo : ¬(size c.piece = 0 ∨ size (c.piece ++ (crlf ++ more)) < size c.piece) := by
    have hpos := size_pos c.nonempty
    rw [size_append]
    omega
  rw [dechunk, hsplit]
  simp only [c.framed.chunkSize c.fits, if_neg hgo, sliceTo_append, sliceFrom_append,
    stripPrefix_append, bind, Except.bind, Option.getD_some]
  cases dechunk fuel more <;> rfl

/-- The line of a chunk without a length ends the body. -/
lemma dechunk_last {lastLine : List Char} (h : IsSizeLine lastLine 0) (ending : List Char) :
    dechunk (fuel + 1) (lastLine ++ (crlf ++ ending)) = .ok [] := by
  rw [dechunk, splitOnce_append (by simp [crlf]) h.onOneLine.firstAfter]
  simp [h.chunkSize (Nat.zero_le _)]

/-- All chunks put together are the pieces. -/
theorem dechunk_chunks {lastLine : List Char} (h : IsSizeLine lastLine 0) (ending : List Char)
    (chunks : List Chunk)
    (hfuel : (chunks.flatMap Chunk.text ++ (lastLine ++ (crlf ++ ending))).length < fuel) :
    dechunk fuel (chunks.flatMap Chunk.text ++ (lastLine ++ (crlf ++ ending))) =
      .ok (chunks.flatMap Chunk.piece) := by
  induction chunks generalizing fuel with
  | nil =>
    obtain ⟨fuel, rfl⟩ : ∃ k, fuel = k + 1 := ⟨fuel - 1, by omega⟩
    exact dechunk_last h ending
  | cons c chunks ih =>
    obtain ⟨fuel, rfl⟩ : ∃ k, fuel = k + 1 := ⟨fuel - 1, by omega⟩
    have hrest : (chunks.flatMap Chunk.text ++ (lastLine ++ (crlf ++ ending))).length < fuel := by
      simp [Chunk.text, crlf] at hfuel ⊢
      omega
    rw [List.flatMap_cons, List.append_assoc, dechunk_chunk, ih hrest]
    rfl

end Dechunk

section Head
variable {statusLine : List Char} {fields : List (List Char)}

/-- A text that starts with an end of line does not start inside a line. -/
lemma OnOneLine.le_start {line rest start found : List Char} (h : OnOneLine line)
    (heq : line ++ rest = start ++ '\r' :: found) :
    ∃ between, start = line ++ between ∧ rest = between ++ '\r' :: found := by
  rcases List.append_eq_append_iff.mp heq with ⟨between, hstart, hrest⟩ | ⟨inside, hline, hfound⟩
  · exact ⟨between, hstart, hrest⟩
  · cases inside with
    | nil => exact ⟨[], by simpa using hline.symm, hfound.symm⟩
    | cons c inside =>
      obtain ⟨rfl, -⟩ := List.cons_eq_cons.mp hfound
      rw [hline] at h
      exact absurd (List.mem_append_right start (.head _)) h.1

lemma headOf_cons (field : List Char) :
    headOf statusLine (field :: fields) = statusLine ++ (crlf ++ headOf field fields) := by
  simp [headOf]

/-- No blank line stands in a header. -/
lemma firstAfter_headOf (hstatus : OnOneLine statusLine)
    (hfields : ∀ field ∈ fields, field ≠ [] ∧ OnOneLine field) :
    FirstAfter (crlf ++ crlf) (headOf statusLine fields) := by
  induction fields generalizing statusLine with
  | nil =>
    intro start rest heq
    have hplain : statusLine ++ (crlf ++ crlf) = start ++ '\r' :: ('\n' :: (crlf ++ rest)) := by
      simpa [headOf, crlf] using heq
    obtain ⟨between, -, hrest⟩ := hstatus.le_start hplain
    have hlength := congrArg List.length hrest
    simp only [crlf, List.length_append, List.length_cons, List.length_nil] at hlength
    exact List.length_eq_zero_iff.mp (by omega)
  | cons field fields ih =>
    intro start rest heq
    obtain ⟨hne, hfield⟩ := hfields field (.head _)
    have hplain : statusLine ++ (crlf ++ (headOf field fields ++ (crlf ++ crlf))) =
        start ++ '\r' :: ('\n' :: (crlf ++ rest)) := by
      simpa [headOf_cons, crlf] using heq
    obtain ⟨between, -, hrest⟩ := hstatus.le_start hplain
    match between with
    | [] =>
      -- the next line would be empty
      obtain ⟨c, field, rfl⟩ := List.exists_cons_of_ne_nil hne
      have hfirst : c = '\r' := by
        simp only [crlf, headOf, List.cons_append, List.nil_append, List.cons.injEq] at hrest
        exact hrest.2.2.1
      exact absurd (hfirst ▸ List.mem_cons_self) hfield.1
    | [c] => simp [crlf] at hrest
    | c :: d :: between =>
      apply ih hfield (fun other hother => hfields other (.tail _ hother)) between
      simp only [crlf, List.cons_append, List.nil_append, List.cons.injEq] at hrest
      simpa [crlf] using hrest.2.2

/-- The first line of a header is its status line. -/
lemma firstLine_headOf (hne : statusLine ≠ []) (hstatus : OnOneLine statusLine) :
    firstLine (headOf statusLine fields) = some statusLine := by
  cases fields with
  | nil =>
    have hnone : splitOnce ['\n'] statusLine = none :=
      splitOnce_eq_none (firstAfter_singleton hstatus.2) (List.prefix_append _ _) (by simp)
    simp [headOf, firstLine, hne, hnone]
  | cons field fields =>
    have hfirst : FirstAfter ['\n'] (statusLine ++ ['\r']) := by
      apply firstAfter_singleton
      simpa using hstatus.2
    have hsplit := splitOnce_append (by simp) hfirst (headOf field fields)
    have hhead : headOf statusLine (field :: fields) =
        (statusLine ++ ['\r']) ++ (['\n'] ++ headOf field fields) := by
      simp [headOf_cons, crlf]
    have hnonempty : headOf statusLine (field :: fields) ≠ [] := by
      rw [hhead]
      simp
    rw [firstLine, if_neg hnonempty, hhead, hsplit]
    simp

lemma isAscii_of_toLower {c : Char} (h : c.toLower.val < 128) : c.val < 128 := by
  unfold Char.toLower at h
  split at h
  · rename_i hupper
    exact UInt32.lt_of_le_of_lt hupper.2 (by decide)
  · exact h

variable {rt : Runtime}

lemma isChunked_of_announces {head : List Char} (hlower : LowersAscii rt.lowercase)
    (h : Announces head) : isChunked rt head := by
  obtain ⟨before, said, after, rfl, hsaid⟩ := h
  have hascii : ∀ c ∈ said, c.val < 128 := by
    intro c hc
    apply isAscii_of_toLower
    have hmem : c.toLower ∈ "transfer-encoding: chunked".toList := by
      rw [← hsaid]
      exact List.mem_map_of_mem hc
    have hall : ∀ c ∈ "transfer-encoding: chunked".toList, c.val < 128 := by simp
    exact hall _ hmem
  obtain ⟨front, back, hlowered⟩ := hlower before said after hascii
  rw [isChunked, hlowered, hsaid]
  exact contains_append front back

end Head

section Responses
variable {rt : Runtime}

lemma ChunkedResponse.firstAfter_head (r : ChunkedResponse) : FirstAfter (crlf ++ crlf) r.head :=
  firstAfter_headOf r.statusLine_oneLine r.fields_oneLine

lemma ChunkedResponse.statusOk_head (r : ChunkedResponse) : statusOk r.head := by
  obtain ⟨before, after, hok⟩ := r.ok
  have hne : r.statusLine ≠ [] := by
    rw [← hok]
    simp
  rw [statusOk, head, firstLine_headOf hne r.statusLine_oneLine, ← hok, List.append_assoc]
  exact contains_append before after

/-- After the header of such a response the rest is put together. -/
lemma body_head (hlower : LowersAscii rt.lowercase) (r : ChunkedResponse) (rest : List Char) :
    body rt (r.head ++ (crlf ++ crlf ++ rest)) = (dechunk (rest.length + 1) rest).map some := by
  have hchunked : isChunked rt r.head := isChunked_of_announces hlower r.announces
  rw [body, splitOnce_append (by simp [crlf]) r.firstAfter_head]
  simp only [r.statusOk_head, hchunked, not_true, if_false]

/-- A chunked response read to its end gives the text that was divided. -/
theorem body_chunkedResponse (hlower : LowersAscii rt.lowercase) (r : ChunkedResponse) :
    body rt r.text = .ok (some r.payload) := by
  have htext : r.text = r.head ++ (crlf ++ crlf ++
      (r.chunks.flatMap Chunk.text ++ (r.lastLine ++ (crlf ++ r.ending)))) := by
    simp [ChunkedResponse.text, ChunkedResponse.untilLast, ChunkedResponse.framed]
  rw [htext, body_head hlower, dechunk_chunks r.last r.ending r.chunks (Nat.lt_succ_self _)]
  rfl

lemma lowersAscii_ieee : LowersAscii Runtime.ieee.lowercase := by
  intro before said after _
  refine ⟨before.map Char.toLower, after.map Char.toLower, ?_⟩
  simp [Runtime.ieee, String.toList_map]

/-- The start of a list, with the end of a line in it. -/
def opening : Chunk where
  sizeLine := "3".toList
  piece := "[\r\n".toList
  nonempty := by decide
  framed := ⟨['3'], [], rfl, .digit (by decide), .none (by simp)⟩
  fits := by decide

/-- The rest of it, behind a length with an extension. -/
def closing : Chunk where
  sizeLine := "B ;last".toList
  piece := "\x7b\"Id\":\"a\"\x7d]".toList
  nonempty := by decide
  framed := ⟨['B'], [' '] ++ ';' :: "last".toList, rfl, .digit (by decide),
    .some (by simp) (by constructor <;> decide)⟩
  fits := by decide

/-- A list of containers as the engine may send it. -/
def listResponse : ChunkedResponse where
  statusLine := "HTTP/1.1 200 OK".toList
  fields := ["Api-Version: 1.47".toList, "Transfer-Encoding: Chunked".toList]
  chunks := [opening, closing]
  lastLine := "0".toList
  ending := "\r\n".toList
  statusLine_oneLine := by constructor <;> decide
  ok := ⟨"HTTP/1.1".toList, " OK".toList, by decide⟩
  fields_oneLine := by
    intro field hfield
    simp only [List.mem_cons, List.not_mem_nil, or_false] at hfield
    rcases hfield with rfl | rfl <;> exact ⟨by decide, by constructor <;> decide⟩
  announces := ⟨"HTTP/1.1 200 OK\r\nApi-Version: 1.47\r\n".toList,
    "Transfer-Encoding: Chunked".toList, [], by decide, by decide⟩
  last := ⟨['0'], [], rfl, .digit (by decide), .none (by simp)⟩

/-- Both pieces are there again. -/
theorem listResponse_read :
    body .ieee listResponse.text = .ok (some "[\r\n\x7b\"Id\":\"a\"\x7d]".toList) :=
  body_chunkedResponse lowersAscii_ieee listResponse

end Responses

section Truncation
variable {fuel : ℕ} {part a b : List Char}

/-- What arrived of two parts stops inside the first, or holds it whole. -/
lemma prefix_append_cases (h : part <+: a ++ b) :
    (part <+: a ∧ part.length < a.length) ∨ ∃ rest, part = a ++ rest ∧ rest <+: b := by
  rcases Nat.lt_or_ge part.length a.length with hshort | hlong
  · exact .inl ⟨List.prefix_of_prefix_length_le h (List.prefix_append _ _) hshort.le, hshort⟩
  · obtain ⟨rest, rfl⟩ := List.prefix_of_prefix_length_le (List.prefix_append a b) h hlong
    exact .inr ⟨rest, rfl, (List.prefix_append_right_inj a).mp h⟩

lemma size_lt_of_shorter (h : part <+: a) (hshort : part.length < a.length) :
    size part < size a := by
  obtain ⟨rest, rfl⟩ := h
  have hne : rest ≠ [] := by
    rintro rfl
    simp at hshort
  have hpos := size_pos hne
  rw [size_append]
  omega

lemma dechunk_nil : dechunk (fuel + 1) [] = .ok [] := by
  simp [dechunk, splitOnce, crlf]

/-- What stops inside the line of a chunk, or its piece, adds nothing. -/
lemma dechunk_of_line (line : List Char) (h : OnOneLine line) (hpart : part <+: line ++ crlf)
    (hshort : part.length < (line ++ crlf).length) : dechunk (fuel + 1) part = .ok [] := by
  rw [dechunk, splitOnce_eq_none h.firstAfter hpart hshort]

lemma stripPrefix_eq_none {start : List Char} (h : part.length < start.length) :
    stripPrefix start part = none := by
  rw [stripPrefix, if_neg]
  rw [List.isPrefixOf_iff_prefix]
  intro hprefix
  exact absurd hprefix.length_le (not_le.mpr h)

/-- What stops inside a chunk adds its piece or nothing. -/
lemma dechunk_inside (c : Chunk) (hpart : part <+: c.text) (hshort : part.length < c.text.length)
    (hfuel : part.length < fuel + 1) : ∃ out, dechunk (fuel + 1) part = .ok out := by
  have htext : c.text = (c.sizeLine ++ crlf) ++ (c.piece ++ crlf) := by simp [Chunk.text]
  rw [htext] at hpart hshort
  rcases prefix_append_cases hpart with ⟨hinside, hless⟩ | ⟨rest, rfl, hrest⟩
  · exact ⟨[], dechunk_of_line _ c.framed.onOneLine hinside hless⟩
  · rw [List.append_assoc, dechunk,
      splitOnce_append (by simp [crlf]) c.framed.onOneLine.firstAfter]
    simp only [c.framed.chunkSize c.fits]
    rcases prefix_append_cases hrest with ⟨hinside, hless⟩ | ⟨ends, rfl, hends⟩
    · exact ⟨[], by rw [if_pos (.inr (size_lt_of_shorter hinside hless))]⟩
    · -- the piece is whole and the end of its line is not
      have hgo : ¬(size c.piece = 0 ∨ size (c.piece ++ ends) < size c.piece) := by
        have hpos := size_pos c.nonempty
        rw [size_append]
        omega
      have hnone : stripPrefix crlf ends = none := by
        apply stripPrefix_eq_none
        simp only [List.length_append] at hshort
        omega
      obtain ⟨fuel, rfl⟩ : ∃ k, fuel = k + 1 := by
        have hpiece := List.length_pos_iff.mpr c.nonempty
        simp only [List.length_append] at hfuel
        exact ⟨fuel - 1, by omega⟩
      refine ⟨c.piece, ?_⟩
      simp only [if_neg hgo, sliceTo_append, sliceFrom_append, hnone, Option.getD_none,
        dechunk_nil, bind, Except.bind, pure, Except.pure, List.append_nil]

/-- Whatever arrived of the chunks, the loop ends with what it has. -/
lemma dechunk_prefix {lastLine : List Char} (h : IsSizeLine lastLine 0) (chunks : List Chunk)
    (hpart : part <+: chunks.flatMap Chunk.text ++ (lastLine ++ crlf))
    (hshort : part.length < (chunks.flatMap Chunk.text ++ (lastLine ++ crlf)).length)
    (hfuel : part.length < fuel) : ∃ out, dechunk fuel part = .ok out := by
  induction chunks generalizing fuel part with
  | nil =>
    obtain ⟨fuel, rfl⟩ : ∃ k, fuel = k + 1 := ⟨fuel - 1, by omega⟩
    exact ⟨[], dechunk_of_line lastLine h.onOneLine hpart hshort⟩
  | cons c chunks ih =>
    obtain ⟨fuel, rfl⟩ : ∃ k, fuel = k + 1 := ⟨fuel - 1, by omega⟩
    rw [List.flatMap_cons, List.append_assoc] at hpart hshort
    rcases prefix_append_cases hpart with ⟨hinside, hless⟩ | ⟨rest, rfl, hrest⟩
    · exact dechunk_inside c hinside hless hfuel
    · have hrestFuel : rest.length < fuel := by
        simp only [Chunk.text, crlf, List.length_append, List.length_cons, List.length_nil] at hfuel
        omega
      obtain ⟨out, hout⟩ := ih hrest (by simpa using hshort) hrestFuel
      exact ⟨c.piece ++ out, by rw [dechunk_chunk, hout]; rfl⟩

variable {rt : Runtime} {cut : List Char}

/-- A response that stops before the line of the last chunk is complete yields nothing exactly
if it stops before its header does. -/
theorem body_truncated_iff (hlower : LowersAscii rt.lowercase) (r : ChunkedResponse)
    (hcut : cut <+: r.text) (hshort : cut.length < r.untilLast.length) :
    body rt cut = .ok none ↔ cut.length < r.head.length + 4 := by
  have hcut : cut <+: r.untilLast :=
    List.prefix_of_prefix_length_le hcut (List.prefix_append _ _) hshort.le
  have hblank : (r.head ++ (crlf ++ crlf)).length = r.head.length + 4 := by simp [crlf]
  have huntil : r.untilLast = (r.head ++ (crlf ++ crlf)) ++ r.framed := by
    simp [ChunkedResponse.untilLast]
  rw [huntil] at hcut hshort
  rw [← hblank]
  rcases prefix_append_cases hcut with ⟨hinside, hless⟩ | ⟨rest, rfl, hrest⟩
  · have hnone := splitOnce_eq_none r.firstAfter_head hinside hless
    have hbody : body rt cut = .ok none := by simp [body, hnone]
    exact ⟨fun _ => hless, fun _ => hbody⟩
  · have hframed : rest.length < r.framed.length := by simpa using hshort
    obtain ⟨out, hout⟩ := dechunk_prefix r.last r.chunks hrest hframed (Nat.lt_succ_self _)
    rw [List.append_assoc, body_head hlower, hout]
    simp [Except.map]

/-- A response that stops in its header. -/
theorem stopped_in_header : body .ieee (listResponse.text.take 30) = .ok none :=
  (body_truncated_iff lowersAscii_ieee listResponse (List.take_prefix _ _)
    (by decide +kernel)).mpr (by decide +kernel)

/-- A response that stops in the line of its second chunk gives the first as the whole. -/
theorem half_a_body : ∃ cut, cut <+: listResponse.text ∧
    cut.length < listResponse.untilLast.length ∧
    body .ieee cut = .ok (some "[\r\n".toList) := by
  refine ⟨listResponse.head ++ (crlf ++ crlf ++ (opening.text ++ ['B'])), ?_, ?_, ?_⟩
  · decide +kernel
  · decide +kernel
  · decide +kernel

end Truncation
end LoadBear.Docker
