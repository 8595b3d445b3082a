import Mathlib.Data.List.Basic
import Mathlib.Tactic.Common
import Cxsw.Lib.JsText

/-!
# Cxsw.Viewer.HttpRangeLib — the download in chunks (`3d-lib/toolbar/thirdjs/HTTP-range_lib_non-concurrent.js`)

`fileFragmentDownload` sends a first request for the size and the entity tag of the file and then fetches the file, or a
section of a cxcode file, in byte ranges, one after the other.  The server, with the `XMLHttpRequest` in front of it,
is a parameter; a body is read as `x-user-defined` text, one character for each byte.

* `fileFragmentDownload_lossless`: a file is fetched whole and in order, or the promise resolves with an empty text
  because the entity tag has changed.
* `downloadFile_resolves`, `downloadFile_too_long`: what a download resolves with that ends inside the file, and one
  that would go past its end.
-/

namespace Cxsw.HttpRange

open Js

/-! ## Responses -/

section Responses

/-- A header as HTTP has it: no colon in its name, no line break. -/
structure Header where
  name : List Char
  value : List Char
  name_ok : ':' ∉ name ∧ '\r' ∉ name
  value_ok : '\r' ∉ value

/-- A response: its status, its headers with the names in lower case, and its text. -/
structure Response where
  status : ℕ
  headers : List Header
  response : List ℕ

/-- `getAllResponseHeaders()`. -/
def Response.getAllResponseHeaders (r : Response) : List Char :=
  r.headers.flatMap fun h => h.name ++ ':' :: ' ' :: h.value ++ ['\r', '\n']

/-- The value of a header; `XMLHttpRequest` lists a name once. -/
def Response.header (r : Response) (name : List Char) : Option (List Char) :=
  (r.headers.map fun h => (h.name, h.value)).reverse.lookup name

/-- The answer to the `k`-th request, for the bytes `a` to `b`. -/
abbrev Server := (k a b : ℕ) → Response

/-- A name and a value of `headers` in `parseHeaders`: the text before the colon and the text after it. -/
def parseItem (item : List Char) : List Char × List Char :=
  match item.idxOf? ':' with
  | some targetIndex => (item.take targetIndex, item.drop (targetIndex + 1))
  | none => ([], item)

/-- `headers` of `parseHeaders`: the fields, and the number `end`. -/
structure Headers where
  field : List Char → Option (List Char)
  last : Option ℕ

/-- `parseHeaders`; without a `content-range` it returns the text of the headers, which has no fields. -/
def parseHeaders (allResponseHeaders : List Char) : Option Headers :=
  let headers := ((splitCrLf allResponseHeaders).filter (· ≠ [])).map parseItem
  let field (name : List Char) := headers.reverse.lookup name
  match field "content-range".toList with
  | none => none
  | some range => some { field, last := (((range.splitOn '/').headD []).splitOn '-')[1]?.bind toNumber }

/-- `+headers['content-range'].split('/')[1]`. -/
def Headers.totalSize (headers : Headers) : Option ℕ :=
  ((headers.field "content-range".toList).bind fun range => (range.splitOn '/')[1]?).bind toNumber

end Responses

/-! ## The length of the STL section -/

section StlLength

/-- The character that `x-user-defined` has for a byte. -/
def charCode (b : UInt8) : ℕ := if b < 128 then b.toNat else 0xF700 + b.toNat

/-- The text of bytes. -/
def textOf (bytes : List UInt8) : List ℕ := bytes.map charCode

/-- `uint8Array(s).toString(16)`: of the array `ba` the last element is taken.  For 0 it is the text `c + '0'`. -/
def uint8Array (s : ℕ) : List Char :=
  if s = 0 then ['0', '0'] else if s < 128 then Nat.toDigits 16 s else Nat.toDigits 16 ((s &&& 63) ||| 128)

/-- `uniCodeToString`. -/
def uniCodeToString (str : List ℕ) : List Char :=
  if str = [] then []
  else
    let hexCharCode := (str.map uint8Array).reverse
    Nat.toDigits 10 (hexValue hexCharCode.flatten)

end StlLength

/-! ## The download -/

section Download

/-- What the download does: requests for byte ranges, calls of `resolve` and `reject`, and calls of the callback. -/
inductive Event where
  | request (first last : ℕ)
  | resolve (downloadText : List ℕ) (totalSize : ℕ)
  | resolveResponse (response : List ℕ)
  | reject
  | cb
  deriving DecidableEq

/-- `getData`: a response with another status is rejected. -/
def getData (server : Server) (k first last : ℕ) : Option Response :=
  let r := server k first last
  if r.status = 206 ∨ r.status = 200 then some r else none

/-- `correntHeaders.end === totalSize - 1 || correntHeaders.end >= totalSize`. -/
def isLastChunk (totalSize : ℕ) (last : Option ℕ) : Bool := last.any fun last => last + 1 = totalSize ∨ totalSize ≤ last

/-- The `endRang` of the next range. -/
def nextEnd (totalSize chunkSize endRang : ℕ) : ℕ :=
  if endRang + chunkSize < totalSize then endRang + chunkSize else totalSize

/-- `downloadFile`; `k` counts the requests. -/
def downloadFile (server : Server) (etag : Option (List Char)) (totalSize chunkSize : ℕ) :
    (fuel k startRang endRang : ℕ) → (downloadText : List ℕ) → Option (List Event)
  | 0, _, _, _, _ => none
  | fuel + 1, k, startRang, endRang, downloadText =>
    if totalSize ≠ 0 ∧ totalSize ≤ startRang then some []
    else
      match getData server k startRang endRang with
      | none => some [.request startRang endRang, .cb, .reject]
      | some res =>
        let downloadText := downloadText ++ res.response
        let correntHeaders := parseHeaders res.getAllResponseHeaders
        if (correntHeaders.bind fun headers => headers.field "etag".toList) ≠ etag then
          some [.request startRang endRang, .cb, .resolve [] 0]
        else
          -- the recursion goes on after the promise has resolved
          let finished := isLastChunk totalSize (correntHeaders.bind Headers.last)
          (downloadFile server etag totalSize chunkSize fuel (k + 1) (endRang + 1) (nextEnd totalSize chunkSize endRang)
            downloadText).map fun rest =>
              .request startRang endRang :: (if finished then [.resolve downloadText totalSize] else []) ++ rest

/-- `url.split('.').pop().toLowerCase() === 'cxcode'`. -/
def isCxcode (url : List Char) : Bool :=
  ((url.splitOn '.').getLastD []).map Char.toLower = "cxcode".toList

/-- `fileFragmentDownload`.  No fuel is enough for a size that is not a number. -/
def fileFragmentDownload (server : Server) (url : List Char) (chunkSize : ℕ) (type : List Char) (fuel : ℕ) :
    Option (List Event) :=
  let last := if isCxcode url then 14 else 0
  match getData server 0 0 last with
  | none => some [.request 0 last, .cb, .reject]
  | some res =>
    if res.status = 200 then some [.request 0 last, .resolveResponse res.response]
    else
      match parseHeaders res.getAllResponseHeaders with
      | none => some [.request 0 last, .cb, .reject]
      | some headers =>
        let etag := headers.field "etag".toList
        let download (totalSize startRang : ℕ) :=
          (downloadFile server etag totalSize chunkSize fuel 1 startRang (startRang + chunkSize) []).map
            fun rest => Event.request 0 last :: rest
        if isCxcode url then
          match toNumber (uniCodeToString ((res.response.drop 11).take 4)) with
          | none => none
          | some stlLength =>
            if type = "stl".toList then download (stlLength + 100) 15
            else headers.totalSize.bind fun totalSize => download totalSize (stlLength + 15)
        else headers.totalSize.bind fun totalSize => download totalSize 0

end Download

/-! ## Conforming responses -/

section Conforming

/-- `bytes a-b/size`. -/
def contentRange (a b size : ℕ) : List Char :=
  ['b', 'y', 't', 'e', 's', ' '] ++ Nat.toDigits 10 a ++ '-' :: Nat.toDigits 10 b ++ '/' :: Nat.toDigits 10 size

/-- The bytes `a` to `b` of a file, as far as it goes. -/
def range (file : List UInt8) (a b : ℕ) : List UInt8 := (file.take (b + 1)).drop a

/-- The response 206 to the request for the bytes `a` to `b` of a file with this entity tag. -/
structure Answers (file : List UInt8) (tag : Option (List Char)) (r : Response) (a b : ℕ) : Prop where
  status : r.status = 206
  contentRange : r.header "content-range".toList = some (contentRange a (min b (file.length - 1)) file.length)
  etag : r.header "etag".toList = tag
  response : r.response = textOf (range file a b)

theorem parseItem_line (h : Header) : parseItem (h.name ++ ':' :: ' ' :: h.value) = (h.name, ' ' :: h.value) := by
  have hindex : (h.name ++ ':' :: ' ' :: h.value).idxOf? ':' = some h.name.length := by
    rw [List.idxOf?_eq_some_iff]
    refine ⟨by simp, by simp, fun j hj he => ?_⟩
    rw [List.getElem_append_left hj] at he
    exact h.name_ok.1 (he ▸ List.getElem_mem hj)
  simp [parseItem, hindex]

/-- The lines of the headers are parsed into their names and values. -/
theorem parse_getAllResponseHeaders (r : Response) :
    ((splitCrLf r.getAllResponseHeaders).filter (· ≠ [])).map parseItem =
      r.headers.map fun h => (h.name, ' ' :: h.value) := by
  unfold Response.getAllResponseHeaders
  induction r.headers with
  | nil => simp [splitCrLf]
  | cons h headers ih =>
    have hline : '\r' ∉ h.name ++ ':' :: ' ' :: h.value := by
      simp [h.name_ok.2, h.value_ok]
    have hsplit := splitCrLf_line hline (headers.flatMap fun h => h.name ++ ':' :: ' ' :: h.value ++ ['\r', '\n'])
    simp only [List.flatMap_cons, List.append_assoc, List.cons_append, List.nil_append] at hsplit ih ⊢
    rw [hsplit, List.filter_cons_of_pos (by simp), List.map_cons, ih, List.map_cons, parseItem_line]

/-- A field of the headers parsed is the value of the header after a blank. -/
theorem field_eq_header (r : Response) (name : List Char) :
    (r.headers.map fun h => (h.name, ' ' :: h.value)).reverse.lookup name = (r.header name).map (' ' :: ·) := by
  unfold Response.header
  rw [← List.map_reverse, ← List.map_reverse]
  induction r.headers.reverse with
  | nil => rfl
  | cons h headers ih =>
    simp only [List.map_cons, List.lookup_cons, ih]
    cases name == h.name <;> rfl

variable {file : List UInt8} {tag : Option (List Char)} {r : Response} {a b : ℕ}

/-- The two parts of the range that `parseHeaders` splits at the slash, the first with the blank before the unit. -/
theorem splitOn_contentRange (a b size : ℕ) :
    (' ' :: contentRange a b size).splitOn '/' =
      [[' ', 'b', 'y', 't', 'e', 's', ' '] ++ Nat.toDigits 10 a ++ '-' :: Nat.toDigits 10 b, Nat.toDigits 10 size] := by
  have hslash (n : ℕ) : '/' ∉ Nat.toDigits 10 n := not_mem_toDigits (by decide) n
  have hfirst : '/' ∉ [' ', 'b', 'y', 't', 'e', 's', ' '] ++ Nat.toDigits 10 a ++ '-' :: Nat.toDigits 10 b := by
    simp [hslash]
  have hsplit := List.splitOn_append_cons_self_of_not_mem hfirst (Nat.toDigits 10 size)
  rw [List.splitOn_eq_singleton (hslash size)] at hsplit
  rw [← hsplit]
  rfl

theorem splitOn_firstLast (a b : ℕ) :
    ([' ', 'b', 'y', 't', 'e', 's', ' '] ++ Nat.toDigits 10 a ++ '-' :: Nat.toDigits 10 b).splitOn '-' =
      [[' ', 'b', 'y', 't', 'e', 's', ' '] ++ Nat.toDigits 10 a, Nat.toDigits 10 b] := by
  have hdash (n : ℕ) : '-' ∉ Nat.toDigits 10 n := not_mem_toDigits (by decide) n
  have hfirst : '-' ∉ [' ', 'b', 'y', 't', 'e', 's', ' '] ++ Nat.toDigits 10 a := by
    simp [hdash]
  rw [List.splitOn_append_cons_self_of_not_mem hfirst, List.splitOn_eq_singleton (hdash b)]

/-- What `parseHeaders` returns for a conforming response. -/
theorem Answers.parseHeaders (h : Answers file tag r a b) :
    ∃ headers, parseHeaders r.getAllResponseHeaders = some headers ∧
      headers.field "etag".toList = tag.map (' ' :: ·) ∧ headers.totalSize = some file.length ∧
      headers.last = some (min b (file.length - 1)) := by
  have hfield (name : List Char) := field_eq_header r name
  have hrange := hfield "content-range".toList
  rw [h.contentRange, Option.map_some] at hrange
  have hlast : ((((' ' :: HttpRange.contentRange a (min b (file.length - 1)) file.length).splitOn '/').headD []).splitOn
      '-')[1]?.bind toNumber = some (min b (file.length - 1)) := by
    rw [splitOn_contentRange, List.headD_cons, splitOn_firstLast]
    simp
  have hsize : ((' ' :: HttpRange.contentRange a (min b (file.length - 1)) file.length).splitOn '/')[1]?.bind toNumber =
      some file.length := by
    rw [splitOn_contentRange]
    simp
  refine ⟨⟨fun name => (r.header name).map (' ' :: ·), some (min b (file.length - 1))⟩, ?_, ?_, ?_, rfl⟩
  · simp only [HttpRange.parseHeaders, parse_getAllResponseHeaders, hfield, h.contentRange, Option.map_some, hlast]
  · rw [← h.etag]
  · simp only [Headers.totalSize, h.contentRange, Option.map_some, Option.bind_some, hsize]

/-- The response 206 of another version of the file. -/
structure Changed (tag : Option (List Char)) (r : Response) : Prop where
  status : r.status = 206
  contentRange : (r.header "content-range".toList).isSome
  etag : r.header "etag".toList ≠ tag

theorem Changed.etag_ne (h : Changed tag r) :
    ((parseHeaders r.getAllResponseHeaders).bind fun headers => headers.field "etag".toList) ≠
      tag.map (' ' :: ·) := by
  obtain ⟨value, hvalue⟩ := Option.isSome_iff_exists.mp h.contentRange
  have hfield (name : List Char) := field_eq_header r name
  simp only [parseHeaders, parse_getAllResponseHeaders, hfield, hvalue, Option.map_some, Option.bind_some]
  intro heq
  exact h.etag (Option.map_injective (List.cons_injective) heq)

end Conforming

/-! ## Runs of a download -/

section Runs

variable {server : Server} {file : List UInt8} {tag : Option (List Char)} {totalSize chunkSize : ℕ}

/-- The ranges requested. -/
def requests (trace : List Event) : List (ℕ × ℕ) :=
  trace.filterMap fun
    | .request first last => some (first, last)
    | _ => none

/-- The calls of `resolve` and `reject`; the first one settles the promise. -/
def settles (trace : List Event) : List Event :=
  trace.filter fun
    | .resolve _ _ | .resolveResponse _ | .reject => true
    | _ => false

/-- Ranges that follow one another from a byte on and start before `stop`. -/
def Contiguous (stop : ℕ) : ℕ → List (ℕ × ℕ) → Prop
  | _, [] => True
  | start, (first, last) :: ranges =>
    first = start ∧ first ≤ last ∧ first < stop ∧ Contiguous stop (last + 1) ranges

/-- The responses to the requests from the `k`-th on have this entity tag. -/
def Unchanged (server : Server) (tag : Option (List Char)) : ℕ → List (ℕ × ℕ) → Prop
  | _, [] => True
  | k, (first, last) :: ranges => (server k first last).header "etag".toList = tag ∧ Unchanged server tag (k + 1) ranges

/-- The last byte that a download of `totalSize` bytes fetches of a file of `size` bytes, where the first range that is
still to be requested ends at `endRang`. -/
def lastByte (size totalSize chunkSize endRang : ℕ) : ℕ :=
  if totalSize - 1 ≤ endRang then min endRang (size - 1)
  else if chunkSize ∣ totalSize - 1 - endRang then totalSize - 1
  else min totalSize (size - 1)

theorem lastByte_nextEnd {size endRang : ℕ} (hsize : totalSize ≤ size)
    (hend : endRang + 1 < totalSize) :
    lastByte size totalSize chunkSize (nextEnd totalSize chunkSize endRang) =
      lastByte size totalSize chunkSize endRang := by
  have hlater : ¬ totalSize - 1 ≤ endRang := by omega
  unfold nextEnd
  split
  · next hlt =>
    have hsplit : totalSize - 1 - endRang = totalSize - 1 - (endRang + chunkSize) + chunkSize := by omega
    have hdvd : chunkSize ∣ totalSize - 1 - endRang ↔ chunkSize ∣ totalSize - 1 - (endRang + chunkSize) := by
      rw [hsplit, Nat.dvd_add_self_right]
    unfold lastByte
    rw [if_neg hlater]
    by_cases hlast : totalSize - 1 ≤ endRang + chunkSize
    · have hzero : totalSize - 1 - (endRang + chunkSize) = 0 := by omega
      rw [if_pos hlast, if_pos (hdvd.mpr (hzero ▸ Nat.dvd_zero chunkSize))]
      omega
    · rw [if_neg hlast]
      simp only [hdvd]
  · next hge =>
    have hdvd : ¬ chunkSize ∣ totalSize - 1 - endRang := Nat.not_dvd_of_pos_of_lt (by omega) (by omega)
    unfold lastByte
    rw [if_neg hlater, if_neg hdvd, if_pos (by omega)]

theorem lt_lastByte (chunkSize : ℕ) {size endRang : ℕ} (hsize : totalSize ≤ size) (hend : endRang + 1 < totalSize) :
    endRang < lastByte size totalSize chunkSize endRang := by
  unfold lastByte
  split
  · omega
  · split <;> omega

/-- The bytes of two ranges that follow one another. -/
theorem range_append (file : List UInt8) {a b c : ℕ} (hab : a ≤ b + 1) (hbc : b ≤ c) :
    range file a b ++ range file (b + 1) c = range file a c := by
  unfold range
  have hsplit : file.take (c + 1) = file.take (b + 1) ++ (file.take (c + 1)).drop (b + 1) := by
    have htake : (file.take (c + 1)).take (b + 1) = file.take (b + 1) := by
      rw [List.take_take, Nat.min_eq_left (by omega)]
    rw [← htake, List.take_append_drop]
  by_cases hlength : a ≤ (file.take (b + 1)).length
  · conv_rhs => rw [hsplit, List.drop_append_of_le_length hlength]
  · -- the file ends before the range
    simp only [List.length_take] at hlength
    rw [List.drop_eq_nil_of_le (by simp; omega), List.drop_eq_nil_of_le (by simp; omega),
      List.drop_eq_nil_of_le (by simp; omega)]
    rfl

theorem range_clip (file : List UInt8) (a b : ℕ) : range file a (min b (file.length - 1)) = range file a b := by
  unfold range
  by_cases hb : b ≤ file.length - 1
  · rw [Nat.min_eq_left hb]
  · rw [Nat.min_eq_right (by omega), List.take_of_length_le (by omega), List.take_of_length_le (by omega)]

theorem textOf_append (xs ys : List UInt8) : textOf (xs ++ ys) = textOf xs ++ textOf ys := List.map_append

variable {fuel k startRang endRang : ℕ} {downloadText : List ℕ}

theorem downloadFile_done (hend : totalSize ≠ 0 ∧ totalSize ≤ startRang) (etag : Option (List Char)) :
    downloadFile server etag totalSize chunkSize (fuel + 1) k startRang endRang downloadText = some [] :=
  if_pos hend

/-- A range that starts after the file. -/
theorem downloadFile_unsatisfiable (hstart : startRang < totalSize)
    (hstatus : (server k startRang endRang).status = 416) (etag : Option (List Char)) :
    downloadFile server etag totalSize chunkSize (fuel + 1) k startRang endRang downloadText =
      some [.request startRang endRang, .cb, .reject] := by
  refine (if_neg (by omega)).trans ?_
  simp [getData, hstatus]

theorem downloadFile_changed (hstart : startRang < totalSize) (h : Changed tag (server k startRang endRang)) :
    downloadFile server (tag.map (' ' :: ·)) totalSize chunkSize (fuel + 1) k startRang endRang downloadText =
      some [.request startRang endRang, .cb, .resolve [] 0] := by
  refine (if_neg (by omega)).trans ?_
  simp only [getData, h.status, true_or, if_true]
  rw [if_pos h.etag_ne]

theorem downloadFile_answers (chunkSize fuel : ℕ) (downloadText : List ℕ) (hstart : startRang < totalSize)
    (h : Answers file tag (server k startRang endRang) startRang endRang) :
    downloadFile server (tag.map (' ' :: ·)) totalSize chunkSize (fuel + 1) k startRang endRang downloadText =
      (downloadFile server (tag.map (' ' :: ·)) totalSize chunkSize fuel (k + 1) (endRang + 1)
        (nextEnd totalSize chunkSize endRang) (downloadText ++ textOf (range file startRang endRang))).map fun rest =>
          .request startRang endRang ::
            (if isLastChunk totalSize (some (min endRang (file.length - 1))) then
              [.resolve (downloadText ++ textOf (range file startRang endRang)) totalSize]
            else []) ++ rest := by
  obtain ⟨headers, hparse, hetag, -, hlast⟩ := h.parseHeaders
  refine (if_neg (by omega)).trans ?_
  simp only [getData, h.status, true_or, if_true, h.response, hparse, Option.bind_some, hetag, hlast, ne_eq,
    not_true_eq_false, if_false]

/-- **A section inside the file**: the download ends, its ranges follow one another, and the promise is resolved once:
with the bytes from the start to the last byte, or with an empty text where an entity tag differs. -/
theorem downloadFile_resolves (hsize : totalSize ≤ file.length) (hchunk : 1 ≤ chunkSize)
    (hserver : ∀ k a b, a ≤ b → a < file.length → Answers file tag (server k a b) a b ∨ Changed tag (server k a b))
    (k : ℕ) {startRang endRang : ℕ} (downloadText : List ℕ) (hstart : startRang < totalSize)
    (hle : startRang ≤ endRang) :
    ∃ trace, (∀ fuel, totalSize - startRang < fuel →
        downloadFile server (tag.map (' ' :: ·)) totalSize chunkSize fuel k startRang endRang downloadText =
          some trace) ∧
      Contiguous totalSize startRang (requests trace) ∧
      (Unchanged server tag k (requests trace) → settles trace =
        [.resolve (downloadText ++
          textOf (range file startRang (lastByte file.length totalSize chunkSize endRang))) totalSize]) ∧
      (¬ Unchanged server tag k (requests trace) → settles trace = [.resolve [] 0]) := by
  induction hn : totalSize - startRang using Nat.strong_induction_on generalizing k startRang endRang downloadText with
  | _ n ih =>
    subst hn
    rcases hserver k startRang endRang hle (by omega) with hanswer | hchanged
    · have hstep (fuel : ℕ) := downloadFile_answers chunkSize fuel downloadText hstart hanswer
      by_cases hlast : totalSize ≤ endRang + 1
      · -- the last range
        have hfinished : isLastChunk totalSize (some (min endRang (file.length - 1))) = true := by
          simp [isLastChunk]
          omega
        have hbyte : lastByte file.length totalSize chunkSize endRang = min endRang (file.length - 1) :=
          if_pos (by omega)
        refine ⟨[.request startRang endRang,
          .resolve (downloadText ++ textOf (range file startRang endRang)) totalSize], fun fuel hfuel => ?_,
          ⟨rfl, hle, hstart, trivial⟩, fun _ => ?_, fun hchanged => absurd ⟨hanswer.etag, trivial⟩ hchanged⟩
        · obtain ⟨fuel, rfl⟩ := Nat.exists_eq_succ_of_ne_zero (Nat.ne_zero_of_lt hfuel)
          obtain ⟨fuel, rfl⟩ := Nat.exists_eq_succ_of_ne_zero (n := fuel) (by omega)
          rw [hstep, downloadFile_done ⟨by omega, hlast⟩, hfinished]
          rfl
        · rw [hbyte, range_clip]
          rfl
      · -- more ranges follow
        have hgo : isLastChunk totalSize (some (min endRang (file.length - 1))) = false := by
          simp [isLastChunk]
          omega
        have hnext : endRang + 1 ≤ nextEnd totalSize chunkSize endRang := by
          unfold nextEnd
          split <;> omega
        obtain ⟨rest, hrest, hcontiguous, hsame, hdiffer⟩ := ih (totalSize - (endRang + 1)) (by omega) (k + 1)
          (downloadText ++ textOf (range file startRang endRang)) (by omega) hnext rfl
        refine ⟨.request startRang endRang :: rest, fun fuel hfuel => ?_, ⟨rfl, hle, hstart, hcontiguous⟩,
          fun hall => ?_,
          fun hchanged => hdiffer fun hrestSame => hchanged ⟨hanswer.etag, hrestSame⟩⟩
        · obtain ⟨fuel, rfl⟩ := Nat.exists_eq_succ_of_ne_zero (Nat.ne_zero_of_lt hfuel)
          rw [hstep, hrest fuel (by omega), hgo]
          rfl
        · have hbytes := lt_lastByte chunkSize hsize (by omega : endRang + 1 < totalSize)
          have hsettles : settles (.request startRang endRang :: rest) = settles rest := rfl
          rw [hsettles, hsame hall.2, lastByte_nextEnd hsize (by omega), List.append_assoc, ← textOf_append,
            range_append file (by omega) hbytes.le]
    · refine ⟨[.request startRang endRang, .cb, .resolve [] 0], fun fuel hfuel => ?_, ⟨rfl, hle, hstart, trivial⟩,
        fun hall => absurd hall.1 hchanged.etag, fun _ => rfl⟩
      obtain ⟨fuel, rfl⟩ := Nat.exists_eq_succ_of_ne_zero (Nat.ne_zero_of_lt hfuel)
      exact downloadFile_changed hstart hchanged

/-- A section that ends after the file: the promise is not resolved. -/
theorem downloadFile_too_long (hsize : file.length < totalSize) (hchunk : 1 ≤ chunkSize)
    (hserver : ∀ k a b, a ≤ b → a < file.length → Answers file tag (server k a b) a b)
    (hafter : ∀ k a b, a ≤ b → file.length ≤ a → (server k a b).status = 416) (k : ℕ) {startRang endRang : ℕ}
    (downloadText : List ℕ) (hstart : startRang < totalSize) (hle : startRang ≤ endRang) :
    ∃ trace, (∀ fuel, totalSize - startRang < fuel →
        downloadFile server (tag.map (' ' :: ·)) totalSize chunkSize fuel k startRang endRang downloadText =
          some trace) ∧
      ∀ e ∈ settles trace, e = .reject := by
  induction hn : totalSize - startRang using Nat.strong_induction_on generalizing k startRang endRang downloadText with
  | _ n ih =>
    subst hn
    by_cases hfile : startRang < file.length
    · have hstep (fuel : ℕ) :=
        downloadFile_answers chunkSize fuel downloadText hstart (hserver k startRang endRang hle hfile)
      have hgo : isLastChunk totalSize (some (min endRang (file.length - 1))) = false := by
        simp [isLastChunk]
        omega
      by_cases hlast : totalSize ≤ endRang + 1
      · refine ⟨[.request startRang endRang], fun fuel hfuel => ?_, by simp [settles]⟩
        obtain ⟨fuel, rfl⟩ := Nat.exists_eq_succ_of_ne_zero (Nat.ne_zero_of_lt hfuel)
        obtain ⟨fuel, rfl⟩ := Nat.exists_eq_succ_of_ne_zero (n := fuel) (by omega)
        rw [hstep, downloadFile_done ⟨by omega, hlast⟩, hgo]
        rfl
      · have hnext : endRang + 1 ≤ nextEnd totalSize chunkSize endRang := by
          unfold nextEnd
          split <;> omega
        obtain ⟨rest, hrest, hreject⟩ := ih (totalSize - (endRang + 1)) (by omega) (k + 1)
          (downloadText ++ textOf (range file startRang endRang)) (by omega) hnext rfl
        refine ⟨.request startRang endRang :: rest, fun fuel hfuel => ?_, hreject⟩
        obtain ⟨fuel, rfl⟩ := Nat.exists_eq_succ_of_ne_zero (Nat.ne_zero_of_lt hfuel)
        rw [hstep, hrest fuel (by omega), hgo]
        rfl
    · refine ⟨[.request startRang endRang, .cb, .reject], fun fuel hfuel => ?_, by simp [settles]⟩
      obtain ⟨fuel, rfl⟩ := Nat.exists_eq_succ_of_ne_zero (Nat.ne_zero_of_lt hfuel)
      exact downloadFile_unsatisfiable hstart (hafter k startRang endRang hle (by omega)) _

end Runs

/-! ## Whole files -/

section Whole

variable {server : Server} {file : List UInt8} {tag : Option (List Char)} {chunkSize : ℕ}

/-- A server with a file: the first response is of the version with this entity tag, and so is any later one unless its
entity tag differs. -/
structure Serves (server : Server) (file : List UInt8) (tag : Option (List Char)) : Prop where
  first : Answers file tag (server 0 0 0) 0 0
  answers : ∀ k a b, a ≤ b → a < file.length → Answers file tag (server k a b) a b ∨ Changed tag (server k a b)

/-- **A plain file**: the download ends, the ranges after the first request follow one another from byte 0, and the
promise is resolved once, with the bytes of the file if all entity tags are that of the first response, else with an
empty text. -/
theorem fileFragmentDownload_lossless (hserver : Serves server file tag) (hfile : file ≠ []) (hchunk : 1 ≤ chunkSize)
    {url : List Char} (hurl : isCxcode url = false) (type : List Char) :
    ∃ trace, (∀ fuel, file.length < fuel → fileFragmentDownload server url chunkSize type fuel = some trace) ∧
      (∃ ranges, requests trace = (0, 0) :: ranges ∧ Contiguous file.length 0 ranges) ∧
      (Unchanged server tag 0 (requests trace) → settles trace = [.resolve (textOf file) file.length]) ∧
      (¬ Unchanged server tag 0 (requests trace) → settles trace = [.resolve [] 0]) := by
  have hlength : 0 < file.length := List.length_pos_iff.mpr hfile
  obtain ⟨headers, hparse, hetag, hsize, -⟩ := hserver.first.parseHeaders
  obtain ⟨rest, hrest, hcontiguous, hsame, hdiffer⟩ := downloadFile_resolves le_rfl hchunk hserver.answers 1
    [] hlength (Nat.zero_le (0 + chunkSize))
  have hbyte : lastByte file.length file.length chunkSize (0 + chunkSize) = file.length - 1 := by
    unfold lastByte
    split
    · omega
    · split <;> omega
  have hwhole : range file 0 (file.length - 1) = file := by
    unfold range
    rw [List.drop_zero, List.take_of_length_le (by omega)]
  refine ⟨.request 0 0 :: rest, fun fuel hfuel => ?_, ⟨requests rest, rfl, hcontiguous⟩, fun hall => ?_,
    fun hchanged => hdiffer fun hrestSame => hchanged ⟨hserver.first.etag, hrestSame⟩⟩
  · simp only [fileFragmentDownload, hurl, getData, hserver.first.status, true_or, if_true, hparse, hetag, hsize,
      Option.bind_some, Bool.false_eq_true, if_false, hrest fuel (by omega)]
    rfl
  · have hsettles := hsame hall.2
    rw [hbyte, hwhole] at hsettles
    exact hsettles

/-- The server that answers as a conforming one does. -/
def conformingServer (file : List UInt8) (tag : List Char) (htag : '\r' ∉ tag) : Server := fun _ a b =>
  if a < file.length then
    { status := 206
      headers := [⟨"content-range".toList, contentRange a (min b (file.length - 1)) file.length, by decide, by
        simp [contentRange, not_mem_toDigits (c := '\r') (by decide)]⟩,
        ⟨"etag".toList, tag, by decide, htag⟩]
      response := textOf (range file a b) }
  else { status := 416, headers := [], response := [] }

theorem conformingServer_answers (file : List UInt8) (tag : List Char) (htag : '\r' ∉ tag) (k : ℕ) {a : ℕ} (b : ℕ)
    (ha : a < file.length) : Answers file (some tag) (conformingServer file tag htag k a b) a b := by
  unfold conformingServer
  rw [if_pos ha]
  exact ⟨rfl, rfl, rfl, rfl⟩

/-- Five bytes, the fourth above 127. -/
def fiveBytes : List UInt8 := [115, 111, 108, 200, 100]

def fiveBytesServer : Server := conformingServer fiveBytes ['v'] (by decide)

theorem fiveBytes_serves : Serves fiveBytesServer fiveBytes (some ['v']) :=
  ⟨conformingServer_answers _ _ _ 0 0 (by decide), fun k _ b _ ha => .inl (conformingServer_answers _ _ _ k b ha)⟩

theorem fiveBytes_downloaded :
    ∃ trace, (∀ fuel, fiveBytes.length < fuel →
        fileFragmentDownload fiveBytesServer "a.stl".toList 2 "stl".toList fuel = some trace) ∧
      (∃ ranges, requests trace = (0, 0) :: ranges ∧ Contiguous fiveBytes.length 0 ranges) ∧
      (Unchanged fiveBytesServer (some ['v']) 0 (requests trace) →
        settles trace = [.resolve (textOf fiveBytes) fiveBytes.length]) ∧
      (¬ Unchanged fiveBytesServer (some ['v']) 0 (requests trace) → settles trace = [.resolve [] 0]) :=
  fileFragmentDownload_lossless fiveBytes_serves (by decide) (by decide) (by decide) _

end Whole

end Cxsw.HttpRange
