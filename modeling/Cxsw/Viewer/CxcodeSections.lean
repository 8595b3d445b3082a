import Cxsw.Viewer.HttpRangeLib

/-!
# Cxsw.Viewer.CxcodeSections — the sections of cxcode files (`3d-lib/toolbar/thirdjs/HTTP-range_lib_non-concurrent.js`)

A cxcode file has a header of 15 bytes, whose last four are the length of the STL section, the STL section and the gcode
section.  `fileFragmentDownload` reads the length as text and fetches one of the sections.

* `storedLength_spec`: when the length is read as it is written.
* `stl_section_iff`, `gcode_section_iff`: when the one or the other section is fetched.
* `fileFragmentDownload_section_iff`: both in one statement.
-/

namespace Cxsw.HttpRange

open Js

/-! ## Sections of cxcode files -/

section Cxcode

/-- A number whose first byte is the least significant one. -/
def littleEndian : List UInt8 → ℕ
  | [] => 0
  | b :: bytes => littleEndian bytes * 256 + b.toNat

/-- The number of hexadecimal digits that `uint8Array` leaves of a byte. -/
def digitCount (b : UInt8) : ℕ := if 0 < b ∧ b < 16 then 1 else 2

/-- Their value: of a byte from 192 on, 64 is lost. -/
def digitValue (b : UInt8) : ℕ := if b < 192 then b.toNat else b.toNat - 64

/-- The number that the digits of the bytes make. -/
def storedLength : List UInt8 → ℕ
  | [] => 0
  | b :: bytes => storedLength bytes * 16 ^ digitCount b + digitValue b

/-- The bytes that are read right: none is 192 or more, and above a byte from 1 to 15 all are 0. -/
def LengthOk (bytes : List UInt8) : Prop :=
  (∀ b ∈ bytes, b < 192) ∧ bytes.Pairwise fun b b' => 0 < b ∧ b < 16 → b' = 0

theorem uint8Array_charCode (b : UInt8) :
    (uint8Array (charCode b)).length = digitCount b ∧ hexValue (uint8Array (charCode b)) = digitValue b := by
  have hall : ∀ n : Fin 256, (uint8Array (charCode (UInt8.ofFin n))).length = digitCount (UInt8.ofFin n) ∧
      hexValue (uint8Array (charCode (UInt8.ofFin n))) = digitValue (UInt8.ofFin n) := by
    decide +kernel
  simpa using hall b.toFin

theorem uniCodeToString_textOf (bytes : List UInt8) (hbytes : bytes ≠ []) :
    toNumber (uniCodeToString (textOf bytes)) = some (storedLength bytes) := by
  have hvalue : hexValue ((textOf bytes).map uint8Array).reverse.flatten = storedLength bytes := by
    clear hbytes
    induction bytes with
    | nil => rfl
    | cons b bytes ih =>
      obtain ⟨hcount, hdigit⟩ := uint8Array_charCode b
      simp only [textOf, List.map_cons, List.reverse_cons, List.flatten_append, List.flatten_cons, List.flatten_nil,
        List.append_nil, hexValue_append, hcount, hdigit, storedLength] at ih ⊢
      rw [ih]
  have hne : textOf bytes ≠ [] := by simpa [textOf] using hbytes
  rw [uniCodeToString, if_neg hne, toNumber_toDigits, hvalue]

theorem littleEndian_eq_zero {bytes : List UInt8} : littleEndian bytes = 0 ↔ ∀ b ∈ bytes, b = 0 := by
  induction bytes with
  | nil => simp [littleEndian]
  | cons b bytes ih =>
    have hzero : b.toNat = 0 ↔ b = 0 := by
      rw [← UInt8.toNat_inj, UInt8.toNat_zero]
    rw [littleEndian, List.forall_mem_cons, ← ih, ← hzero]
    omega

/-- **The length** is never read too great, and read right exactly from the bytes above. -/
theorem storedLength_spec (bytes : List UInt8) :
    storedLength bytes ≤ littleEndian bytes ∧ (storedLength bytes = littleEndian bytes ↔ LengthOk bytes) := by
  induction bytes with
  | nil => simp [storedLength, littleEndian, LengthOk]
  | cons b bytes ih =>
    obtain ⟨hle, hiff⟩ := ih
    have hbound := b.toNat_lt
    have hlt (n : UInt8) : b < n ↔ b.toNat < n.toNat := UInt8.lt_iff_toNat_lt
    have hok : LengthOk (b :: bytes) ↔ b < 192 ∧ (0 < b ∧ b < 16 → littleEndian bytes = 0) ∧ LengthOk bytes := by
      rw [littleEndian_eq_zero]
      unfold LengthOk
      rw [List.forall_mem_cons, List.pairwise_cons]
      constructor
      · rintro ⟨⟨hb, hall⟩, hhead, htail⟩
        exact ⟨hb, fun h b' hb' => hhead b' hb' h, hall, htail⟩
      · rintro ⟨hb, hhead, hall, htail⟩
        exact ⟨⟨hb, hall⟩, fun b' hb' h => hhead h b' hb', htail⟩
    have hstored : storedLength (b :: bytes) = storedLength bytes * 16 ^ digitCount b + digitValue b := rfl
    have hlittle : littleEndian (b :: bytes) = littleEndian bytes * 256 + b.toNat := rfl
    rw [hok, ← hiff, hstored, hlittle]
    by_cases hone : 0 < b ∧ b < 16
    · -- one digit
      have h192 : b < 192 := UInt8.lt_trans hone.2 (by decide)
      have hcount : digitCount b = 1 := if_pos hone
      have hdigit : digitValue b = b.toNat := if_pos h192
      have hpos : 0 < b.toNat := by simpa using UInt8.lt_iff_toNat_lt.mp hone.1
      rw [hcount, hdigit]
      simp only [hone, h192, true_and, and_self, true_implies]
      omega
    · have hcount : digitCount b = 2 := if_neg hone
      rw [hcount]
      simp only [hone, false_implies, true_and]
      by_cases h192 : b < 192
      · have hdigit : digitValue b = b.toNat := if_pos h192
        rw [hdigit]
        simp only [h192, true_and]
        omega
      · have hdigit : digitValue b = b.toNat - 64 := if_neg h192
        have hhigh : 192 ≤ b.toNat := by
          have hnot := (hlt 192).not.mp h192
          simpa using hnot
        rw [hdigit]
        simp only [h192, false_and, iff_false]
        omega

/-- A cxcode file: a header of 15 bytes, the last four of which hold the length of the STL section, the STL section and
the gcode section. -/
structure CxcodeFile where
  header : List UInt8
  stl : List UInt8
  gcode : List UInt8
  header_length : header.length = 15
  stl_length : littleEndian (header.drop 11) = stl.length

def CxcodeFile.bytes (f : CxcodeFile) : List UInt8 := f.header ++ f.stl ++ f.gcode

/-- The bytes that hold the length. -/
def CxcodeFile.lengthBytes (f : CxcodeFile) : List UInt8 := f.header.drop 11

/-- The section that a type asks for. -/
def CxcodeFile.section (f : CxcodeFile) (type : List Char) : List UInt8 :=
  if type = "stl".toList then f.stl else f.gcode

/-- The download of type `stl` asks for 100 bytes more than the length that it read, counted from the start of the file;
the bytes it fetches of the file end where the STL section does.  Any other type needs the length read right, and a
gcode section that is not empty. -/
def SectionOk (f : CxcodeFile) (chunkSize : ℕ) (type : List Char) : Prop :=
  if type = "stl".toList then
    storedLength f.lengthBytes + 100 ≤ f.bytes.length ∧
      lastByte f.bytes.length (storedLength f.lengthBytes + 100) chunkSize (15 + chunkSize) = 14 + f.stl.length
  else LengthOk f.lengthBytes ∧ f.gcode ≠ []

/-- The promise is resolved once, with these bytes. -/
def ResolvesWith (trace : List Event) (bytes : List UInt8) : Prop :=
  ∃ size, settles trace = [.resolve (textOf bytes) size]

variable {server : Server} {file : List UInt8} {tag : Option (List Char)} {chunkSize : ℕ} {f : CxcodeFile}

/-- A range server with one version of a file. -/
structure ServesAlways (server : Server) (file : List UInt8) (tag : Option (List Char)) : Prop where
  answers : ∀ k a b, a ≤ b → a < file.length → Answers file tag (server k a b) a b
  unsatisfiable : ∀ k a b, a ≤ b → file.length ≤ a → (server k a b).status = 416

theorem ServesAlways.unchanged (h : ServesAlways server file tag) {stop : ℕ} (hstop : stop ≤ file.length) (k : ℕ)
    {start : ℕ} {ranges : List (ℕ × ℕ)} (hranges : Contiguous stop start ranges) : Unchanged server tag k ranges := by
  induction ranges generalizing k start with
  | nil => trivial
  | cons r ranges ih =>
    obtain ⟨-, hle, hlt, hrest⟩ := hranges
    exact ⟨(h.answers k r.1 r.2 hle (Nat.lt_of_lt_of_le hlt hstop)).etag, ih (k + 1) hrest⟩

theorem textOf_injective : Function.Injective textOf := by
  have hbyte : ∀ b : UInt8, charCode b % 256 = b.toNat := by
    intro b
    have hlt := b.toNat_lt
    unfold charCode
    split_ifs <;> omega
  refine List.map_injective_iff.mpr fun a b h => ?_
  have heq : charCode a % 256 = charCode b % 256 := by rw [h]
  exact UInt8.toNat_inj.mp ((hbyte a).symm.trans (heq.trans (hbyte b)))

theorem CxcodeFile.length_bytes (f : CxcodeFile) : f.bytes.length = 15 + f.stl.length + f.gcode.length := by
  simp [bytes, f.header_length, Nat.add_assoc]

theorem CxcodeFile.range_eq_stl (f : CxcodeFile) {last : ℕ} (hfirst : 15 ≤ last) (hlast : last < f.bytes.length) :
    range f.bytes 15 last = f.stl ↔ last = 14 + f.stl.length := by
  constructor
  · intro h
    have hlength := congrArg List.length h
    simp only [range, List.length_drop, List.length_take] at hlength
    omega
  · rintro rfl
    have htake : f.bytes.take (14 + f.stl.length + 1) = f.header ++ f.stl := by
      unfold bytes
      rw [List.take_append_of_le_length (by rw [List.length_append, f.header_length]; omega), List.take_of_length_le]
      simp only [List.length_append, f.header_length]
      omega
    rw [range, htake, List.drop_left' f.header_length]

theorem CxcodeFile.range_eq_gcode (f : CxcodeFile) {start : ℕ} (hstart : start < f.bytes.length) :
    range f.bytes start (f.bytes.length - 1) = f.gcode ↔ start = 15 + f.stl.length := by
  have hrange : range f.bytes start (f.bytes.length - 1) = f.bytes.drop start := by
    rw [range, List.take_of_length_le (by omega)]
  rw [hrange]
  have hlength := f.length_bytes
  constructor
  · intro h
    have hdrop := congrArg List.length h
    rw [List.length_drop] at hdrop
    omega
  · rintro rfl
    unfold bytes
    rw [List.drop_left' (by simp [f.header_length])]

/-- The first request of a cxcode file: the length read, and the entity tag. -/
theorem ServesAlways.first (h : ServesAlways server f.bytes tag) (chunkSize : ℕ) {url : List Char}
    (hurl : isCxcode url = true)
    (type : List Char) (fuel : ℕ) :
    fileFragmentDownload server url chunkSize type fuel =
      (if type = "stl".toList then
        downloadFile server (tag.map (' ' :: ·)) (storedLength f.lengthBytes + 100) chunkSize fuel 1 15 (15 +
          chunkSize) []
      else downloadFile server (tag.map (' ' :: ·)) f.bytes.length chunkSize fuel 1 (storedLength f.lengthBytes + 15)
        (storedLength f.lengthBytes + 15 + chunkSize) []).map (Event.request 0 14 :: ·) := by
  have hlength := f.length_bytes
  have hanswer := h.answers 0 0 14 (by omega) (by omega)
  obtain ⟨headers, hparse, hetag, hsize, -⟩ := hanswer.parseHeaders
  have htext : ((server 0 0 14).response.drop 11).take 4 = textOf f.lengthBytes := by
    have hhead : range f.bytes 0 14 = f.header := by
      rw [range, List.drop_zero, CxcodeFile.bytes, List.append_assoc, List.take_left' f.header_length]
    have hfour : (f.header.drop 11).take 4 = f.header.drop 11 :=
      List.take_of_length_le (by rw [List.length_drop, f.header_length])
    rw [hanswer.response, hhead, CxcodeFile.lengthBytes, ← hfour, textOf, textOf, ← List.map_drop, ← List.map_take,
      hfour]
  have hne : f.lengthBytes ≠ [] := by
    have hfour : f.lengthBytes.length = 4 := by rw [CxcodeFile.lengthBytes, List.length_drop, f.header_length]
    intro hnil
    simp [hnil] at hfour
  simp only [fileFragmentDownload, hurl, getData, hanswer.status, true_or, if_true, hparse, hetag, hsize, htext,
    uniCodeToString_textOf _ hne, Option.bind_some]
  rw [if_neg (by decide)]
  by_cases htype : type = "stl".toList
  · rw [if_pos htype, if_pos htype]
  · rw [if_neg htype, if_neg htype]

/-- **Type `stl`**: exactly where the bytes it fetches end with the STL section. -/
theorem stl_section_iff (h : ServesAlways server f.bytes tag) (hchunk : 1 ≤ chunkSize) :
    ∃ trace, (∀ fuel, storedLength f.lengthBytes + 100 < fuel →
        downloadFile server (tag.map (' ' :: ·)) (storedLength f.lengthBytes + 100) chunkSize fuel 1 15 (15 + chunkSize)
          [] = some trace) ∧
      (ResolvesWith trace f.stl ↔ SectionOk f chunkSize "stl".toList) := by
  have hstart : 15 < storedLength f.lengthBytes + 100 := by omega
  by_cases hsize : storedLength f.lengthBytes + 100 ≤ f.bytes.length
  · obtain ⟨trace, htrace, hcontiguous, hsame, -⟩ := downloadFile_resolves hsize hchunk
      (fun k a b hab ha => .inl (h.answers k a b hab ha)) 1 [] hstart (Nat.le_add_right 15 chunkSize)
    have hsettles := hsame (h.unchanged hsize 1 hcontiguous)
    refine ⟨trace, fun fuel hfuel => htrace fuel (by omega), ?_⟩
    have hlast : 15 ≤ lastByte f.bytes.length (storedLength f.lengthBytes + 100) chunkSize (15 + chunkSize) ∧
        lastByte f.bytes.length (storedLength f.lengthBytes + 100) chunkSize (15 + chunkSize) < f.bytes.length := by
      unfold lastByte
      split
      · omega
      · split <;> omega
    simp only [ResolvesWith, hsettles, List.nil_append, List.cons.injEq, Event.resolve.injEq, and_true,
      exists_eq_right',
      SectionOk, if_true, hsize, true_and]
    rw [textOf_injective.eq_iff, f.range_eq_stl hlast.1 hlast.2]
  · obtain ⟨trace, htrace, hreject⟩ := downloadFile_too_long (Nat.lt_of_not_le hsize) hchunk h.answers h.unsatisfiable 1
      [] hstart (Nat.le_add_right 15 chunkSize)
    refine ⟨trace, fun fuel hfuel => htrace fuel (by omega), iff_of_false ?_ ?_⟩
    · rintro ⟨size, hsettles⟩
      have hnot := hreject (.resolve (textOf f.stl) size) (by simp [hsettles])
      cases hnot
    · simp [SectionOk, hsize]

/-- **Any other type**: exactly where the length is read right and the gcode section is not empty. -/
theorem gcode_section_iff (h : ServesAlways server f.bytes tag) (hchunk : 1 ≤ chunkSize) {type : List Char}
    (htype : type ≠ "stl".toList) :
    ∃ trace, (∀ fuel, f.bytes.length < fuel →
        downloadFile server (tag.map (' ' :: ·)) f.bytes.length chunkSize fuel 1 (storedLength f.lengthBytes + 15)
          (storedLength f.lengthBytes + 15 + chunkSize) [] = some trace) ∧
      (ResolvesWith trace f.gcode ↔ SectionOk f chunkSize type) := by
  obtain ⟨hle, hread⟩ := storedLength_spec f.lengthBytes
  have hstored : littleEndian f.lengthBytes = f.stl.length := f.stl_length
  have hlength := f.length_bytes
  have hempty : f.gcode = [] ↔ f.gcode.length = 0 := List.length_eq_zero_iff.symm
  simp only [SectionOk, htype, if_false, ne_eq, hempty, ← hread]
  rw [hstored] at hle ⊢
  by_cases hstart : storedLength f.lengthBytes + 15 < f.bytes.length
  · obtain ⟨trace, htrace, hcontiguous, hsame, -⟩ := downloadFile_resolves le_rfl hchunk
      (fun k a b hab ha => .inl (h.answers k a b hab ha)) 1 [] hstart
      (Nat.le_add_right (storedLength f.lengthBytes + 15) chunkSize)
    have hsettles := hsame (h.unchanged le_rfl 1 hcontiguous)
    have hlast : lastByte f.bytes.length f.bytes.length chunkSize (storedLength f.lengthBytes + 15 + chunkSize) =
        f.bytes.length - 1 := by
      unfold lastByte
      split
      · omega
      · split <;> omega
    refine ⟨trace, fun fuel hfuel => htrace fuel (by omega), ?_⟩
    simp only [ResolvesWith, hsettles, hlast, List.nil_append, List.cons.injEq, Event.resolve.injEq, and_true,
      exists_and_left]
    rw [textOf_injective.eq_iff, f.range_eq_gcode hstart]
    simp only [exists_eq', and_true]
    omega
  · refine ⟨[], fun fuel hfuel => ?_, iff_of_false ?_ ?_⟩
    · obtain ⟨fuel, rfl⟩ := Nat.exists_eq_succ_of_ne_zero (Nat.ne_zero_of_lt hfuel)
      exact downloadFile_done ⟨by omega, by omega⟩ _
    · rintro ⟨size, hsettles⟩
      simp [settles] at hsettles
    · omega

/-- **A cxcode file**: the download ends, and resolves with the section of the type exactly on the condition. -/
theorem fileFragmentDownload_section_iff (h : ServesAlways server f.bytes tag) (hchunk : 1 ≤ chunkSize)
    {url : List Char} (hurl : isCxcode url = true) (type : List Char) :
    ∃ trace, (∀ fuel, storedLength f.lengthBytes + 100 + f.bytes.length < fuel →
        fileFragmentDownload server url chunkSize type fuel = some trace) ∧
      (ResolvesWith trace (f.section type) ↔ SectionOk f chunkSize type) := by
  have hfirst := h.first chunkSize hurl type
  by_cases htype : type = "stl".toList
  · obtain ⟨rest, hrest, hiff⟩ := stl_section_iff h hchunk
    refine ⟨.request 0 14 :: rest, fun fuel hfuel => ?_, ?_⟩
    · rw [hfirst, if_pos htype, hrest fuel (by omega), Option.map_some]
    · rw [CxcodeFile.section, if_pos htype, htype, ← hiff]
      rfl
  · obtain ⟨rest, hrest, hiff⟩ := gcode_section_iff h hchunk htype
    refine ⟨.request 0 14 :: rest, fun fuel hfuel => ?_, ?_⟩
    · rw [hfirst, if_neg htype, hrest fuel (by omega), Option.map_some]
    · rw [CxcodeFile.section, if_neg htype, ← hiff]
      rfl

theorem conformingServer_always (file : List UInt8) (tag : List Char) (htag : '\r' ∉ tag) :
    ServesAlways (conformingServer file tag htag) file (some tag) where
  answers := fun k _ b _ ha => conformingServer_answers file tag htag k b ha
  unsatisfiable := fun k a b _ ha => by
    unfold conformingServer
    rw [if_neg (by omega)]

/-- One byte of STL and a hundred of gcode. -/
def shortStl : CxcodeFile where
  header := List.replicate 11 0 ++ [1, 0, 0, 0]
  stl := [7]
  gcode := List.replicate 100 8
  header_length := by decide
  stl_length := by decide

theorem shortStl_gcode :
    ∃ trace, (∀ fuel, storedLength shortStl.lengthBytes + 100 + shortStl.bytes.length < fuel →
        fileFragmentDownload (conformingServer shortStl.bytes ['v'] (by decide)) "a.cxcode".toList 1000 "gcode".toList
          fuel = some trace) ∧
      (ResolvesWith trace (shortStl.section "gcode".toList) ↔ SectionOk shortStl 1000 "gcode".toList) :=
  fileFragmentDownload_section_iff (conformingServer_always _ _ _) (by decide) (by decide) _

/-- An STL section of 192 bytes, whose length is read as 128. -/
def longStl : CxcodeFile where
  header := List.replicate 11 0 ++ [192, 0, 0, 0]
  stl := List.replicate 192 7
  gcode := [8]
  header_length := by decide
  stl_length := by decide +kernel

/-- The STL section comes with bytes of the gcode, and the gcode section with bytes of the STL. -/
theorem sections_not_exact :
    (∃ trace, (∀ fuel, 300 < fuel → fileFragmentDownload (conformingServer shortStl.bytes ['v'] (by decide))
        "a.cxcode".toList 1000 "stl".toList fuel = some trace) ∧ ¬ ResolvesWith trace shortStl.stl) ∧
      ∃ trace, (∀ fuel, 300 < fuel → fileFragmentDownload (conformingServer longStl.bytes ['v'] (by decide))
        "a.cxcode".toList 1000 "gcode".toList fuel = some trace) ∧ ¬ ResolvesWith trace longStl.gcode := by
  constructor
  · obtain ⟨rest, hrest, hiff⟩ := stl_section_iff (conformingServer_always shortStl.bytes ['v'] (by decide))
      (by decide : 1 ≤ 1000)
    have hnot : ¬ SectionOk shortStl 1000 "stl".toList := by
      unfold SectionOk
      rw [if_pos rfl]
      decide +kernel
    have hbound : storedLength shortStl.lengthBytes + 100 ≤ 300 := by decide
    refine ⟨.request 0 14 :: rest, fun fuel hfuel => ?_, fun h => hnot (hiff.mp h)⟩
    rw [(conformingServer_always shortStl.bytes ['v'] (by decide)).first 1000 (by decide), if_pos rfl,
      hrest fuel (by omega), Option.map_some]
  · obtain ⟨rest, hrest, hiff⟩ := gcode_section_iff (conformingServer_always longStl.bytes ['v'] (by decide))
      (by decide : 1 ≤ 1000) (by decide : "gcode".toList ≠ "stl".toList)
    have hnot : ¬ SectionOk longStl 1000 "gcode".toList := by
      unfold SectionOk
      rw [if_neg (by decide)]
      rintro ⟨hok, -⟩
      have hbyte := hok.1 192 (by decide)
      revert hbyte
      decide
    have hbound : longStl.bytes.length ≤ 300 := by decide +kernel
    refine ⟨.request 0 14 :: rest, fun fuel hfuel => ?_, fun h => hnot (hiff.mp h)⟩
    rw [(conformingServer_always longStl.bytes ['v'] (by decide)).first 1000 (by decide), if_neg (by decide),
      hrest fuel (by omega), Option.map_some]

end Cxcode

end Cxsw.HttpRange
