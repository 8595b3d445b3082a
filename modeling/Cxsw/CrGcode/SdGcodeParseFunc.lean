import Cxsw.Lib.Ring
import Cxsw.CrGcode.GcodeCmdGet

/-!
# Cxsw.CrGcode.SdGcodeParseFunc — the lines that the tokenizer returns (`CrGcode/GcodeCmdGet/GcodeCmdGet.cpp`)

A chunk starts where the last pass ended, and a pass ends with a line, so that a chunk starts with a line unless the
line was longer than a chunk.  The buffer is the caller's, cleared before each call, and keeps what short lines have
left in it until the call ends.

* `lineEnd`: what a call does with one line and then with the rest.
* `Stale`: what the short lines of a call leave in the buffer.
* `reads_lines_iff`: the calls return the lines of the file, whatever the chunk length, and write only the buffer,
  exactly when every line of the file meets its condition.
* `unixLine_cut`: a line that ends in a newline only.
-/

namespace Cxsw.SdFile

open CString

/-! ## Passes -/

section Passes

/-- Neither a newline nor the start of a comment. -/
def IsText (t : List UInt8) : Prop := ascii '\n' ∉ t ∧ ascii ';' ∉ t

theorem take_line (l rest : List UInt8) (c : UInt8) (k : ℕ) :
    (l ++ c :: rest).take (l.length + k + 1) = l ++ c :: rest.take k := by
  rw [List.take_append, List.take_of_length_le (by omega), show l.length + k + 1 - l.length = k + 1 by omega,
    List.take_succ_cons]

theorem drop_line (l rest : List UInt8) (c : UInt8) (k : ℕ) :
    (l ++ c :: rest).drop (l.length + k + 1) = rest.drop k := by
  rw [List.drop_append, List.drop_of_length_le (by omega), show l.length + k + 1 - l.length = k + 1 by omega,
    List.nil_append, List.drop_succ_cons]

theorem drop_behind (l rest : List UInt8) (c : UInt8) : (l ++ c :: rest).drop (l.length + 1) = rest :=
  drop_line l rest c 0

theorem write_natCast {p : Parser} {i : ℕ} (h : i < p.buf.length) (byte : UInt8) :
    p.write i byte = { p with buf := p.buf.set i byte } := by
  unfold Parser.write
  rw [if_pos ⟨Int.natCast_nonneg i, Int.ofNat_lt.mpr h⟩, Int.toNat_natCast]

theorem loop_text {t : List UInt8} (ht : IsText t) (w : List UInt8) (count parsed : ℕ) (buf : List UInt8) (o : Bool)
    (hlen : count + t.length ≤ buf.length) :
    getRealCmdLoop count parsed ⟨true, buf, o⟩ (t ++ w) =
      getRealCmdLoop (count + t.length) (parsed + t.length) ⟨true, Ring.splice buf count t, o⟩ w := by
  induction t generalizing count parsed buf with
  | nil => simp [Ring.splice]
  | cons b t ih =>
    obtain ⟨hnl, hsemi⟩ := ht
    rw [List.mem_cons, not_or] at hnl hsemi
    rw [List.length_cons] at hlen
    have hcount : count < buf.length := by omega
    rw [List.cons_append, getRealCmdLoop, if_neg (Ne.symm hsemi.1), if_neg (by simp), if_neg (Ne.symm hnl.1),
      write_natCast hcount, ih ⟨hnl.2, hsemi.2⟩ _ _ _ (by simp; omega), Ring.splice_set hcount,
      List.length_cons, Nat.add_right_comm count, Nat.add_right_comm parsed]
    rfl

theorem loop_comment {v : List UInt8} (hv : ascii '\n' ∉ v) (w : List UInt8) (count parsed : ℕ) (buf : List UInt8)
    (o : Bool) :
    getRealCmdLoop count parsed ⟨false, buf, o⟩ (v ++ w) =
      getRealCmdLoop count (parsed + v.length) ⟨false, buf, o⟩ w := by
  induction v generalizing parsed with
  | nil => rfl
  | cons b v ih =>
    rw [List.mem_cons, not_or] at hv
    rw [List.cons_append, getRealCmdLoop, List.length_cons, ← Nat.add_assoc, Nat.add_right_comm]
    by_cases hb : b = ascii ';'
    · rw [if_pos hb]
      exact ih hv.2 (parsed + 1)
    · rw [if_neg hb, if_pos rfl, if_neg (Ne.symm hv.1)]
      exact ih hv.2 (parsed + 1)

/-- With a zero in the buffer nothing is left to terminate. -/
theorem terminate_eq {p : Parser} (h : (0 : UInt8) ∈ p.buf) : p.terminate = p := by
  obtain ⟨s, t, hst, hs⟩ := List.eq_append_cons_of_mem h
  have hlen : strlen p.buf = s.length := by
    rw [← length_str, hst, str_append_zero hs]
  have hlt : s.length < p.buf.length := by
    rw [hst, List.length_append, List.length_cons]
    omega
  have hset : p.buf.set s.length 0 = p.buf := by
    rw [hst]
    simp
  unfold Parser.terminate
  rw [hlen, write_natCast hlt, hset]

/-- The rest of a pass over a comment that ends in the chunk. -/
theorem loop_comment_end {v : List UInt8} (hv : ascii '\n' ∉ v) (w : List UInt8) (count parsed : ℕ) (buf : List UInt8)
    (o : Bool) :
    getRealCmdLoop count parsed ⟨false, buf, o⟩ (v ++ ascii '\n' :: w) =
      ⟨⟨true, buf, o⟩, parsed + v.length + 1, count, decide (2 ≤ strlen buf)⟩ := by
  rw [loop_comment hv, getRealCmdLoop, if_neg (by decide), if_pos rfl, if_pos rfl]

/-- The end of a line of text: the newline is stored, and a zero over the byte before it. -/
theorem loop_newline {count : ℕ} {buf : List UInt8} (h : count + 1 < buf.length) (w : List UInt8) (parsed : ℕ)
    (o : Bool) :
    getRealCmdLoop (count + 1) parsed ⟨true, buf, o⟩ (ascii '\n' :: w) =
      ⟨⟨true, (buf.set (count + 1) (ascii '\n')).set count 0, o⟩, parsed + 1, count + 1,
        decide (2 ≤ strlen ((buf.set (count + 1) (ascii '\n')).set count 0))⟩ := by
  have hwrite : (⟨true, buf, o⟩ : Parser).write ((count + 1 : ℕ) : ℤ) (ascii '\n') =
      ⟨true, buf.set (count + 1) (ascii '\n'), o⟩ := write_natCast h _
  have hzero : (⟨true, buf.set (count + 1) (ascii '\n'), o⟩ : Parser).write (((count + 1 : ℕ) : ℤ) - 1) 0 =
      ⟨true, (buf.set (count + 1) (ascii '\n')).set count 0, o⟩ := by
    rw [show (((count + 1 : ℕ) : ℤ) - 1) = (count : ℤ) by omega]
    exact write_natCast (by simp; omega) _
  rw [getRealCmdLoop, if_neg (by decide), if_neg (by simp), if_pos rfl, hwrite]
  dsimp only
  rw [hzero]

end Passes

/-! ## Lines -/

section Lines

variable {once : ℕ}

/-- What a call does at the end of a line, with `n` bytes taken since its last pass but those before: return the
string in the buffer, or go on with the rest of the file. -/
def lineEnd (once : ℕ) (buf : List UInt8) (offset n : ℕ) (rest : List UInt8) : ReadResult :=
  if 2 ≤ strlen buf ∧ offset ≠ 0 then ⟨⟨true, buf, false⟩, n, offset⟩
  else
    let r := streamRead once ⟨true, buf, false⟩ offset rest
    ⟨r.parser, n + r.parsed, r.ret⟩

theorem lineEnd_add (buf : List UInt8) (offset m n : ℕ) (rest : List UInt8) :
    (⟨(lineEnd once buf offset n rest).parser, m + (lineEnd once buf offset n rest).parsed,
      (lineEnd once buf offset n rest).ret⟩ : ReadResult) = lineEnd once buf offset (m + n) rest := by
  unfold lineEnd
  split_ifs
  · rfl
  · simp [Nat.add_assoc]

theorem streamRead_chunk {p : Parser} {offset : ℕ} {rest : List UInt8} {res : Pass} (hrest : rest.take once ≠ [])
    (hres : getRealCmd p (rest.take once) = res) (hend : res.cmdComplete = false)
    (hbuf : (0 : UInt8) ∈ res.parser.buf) :
    streamRead once p offset rest =
      ⟨(streamRead once res.parser (offset + res.count) (rest.drop res.parsed)).parser,
        res.parsed + (streamRead once res.parser (offset + res.count) (rest.drop res.parsed)).parsed,
        (streamRead once res.parser (offset + res.count) (rest.drop res.parsed)).ret⟩ := by
  rw [streamRead_pass hrest, hres]
  dsimp only
  rw [if_neg (by simp [hend]), terminate_eq hbuf]

theorem streamRead_lineEnd {p : Parser} {offset parsed count : ℕ} {buf rest : List UInt8}
    (hrest : rest.take once ≠ [])
    (hres : getRealCmd p (rest.take once) = ⟨⟨true, buf, false⟩, parsed, count, decide (2 ≤ strlen buf)⟩)
    (hbuf : (0 : UInt8) ∈ buf) :
    streamRead once p offset rest = lineEnd once buf (offset + count) parsed (rest.drop parsed) := by
  rw [streamRead_pass hrest, hres]
  dsimp only
  rw [terminate_eq (p := ⟨true, buf, false⟩) hbuf]
  unfold lineEnd
  simp only [decide_eq_true_eq]

theorem take_ne_nil {once : ℕ} {rest : List UInt8} (h : 0 < once) (hr : rest ≠ []) : rest.take once ≠ [] := by
  rw [ne_eq, List.take_eq_nil_iff, not_or]
  exact ⟨h.ne', hr⟩

/-- A call within a comment goes on behind the newline that ends it. -/
theorem streamRead_comment (honce : 0 < once) {v : List UInt8} (hv : ascii '\n' ∉ v) {buf : List UInt8}
    (hbuf : (0 : UInt8) ∈ buf) (offset : ℕ) (rest : List UInt8) :
    streamRead once ⟨false, buf, false⟩ offset (v ++ ascii '\n' :: rest) =
      lineEnd once buf offset (v.length + 1) rest := by
  induction hn : v.length using Nat.strong_induction_on generalizing v with
  | _ n ih =>
    have hrest : (v ++ ascii '\n' :: rest).take once ≠ [] := take_ne_nil honce (by simp)
    by_cases hfit : v.length < once
    · obtain ⟨k, hk⟩ := Nat.exists_eq_add_of_lt hfit
      have htake : (v ++ ascii '\n' :: rest).take once = v ++ ascii '\n' :: rest.take k := by
        rw [hk, take_line]
      have hpass := loop_comment_end hv (rest.take k) 0 0 buf false
      rw [← htake, Nat.zero_add] at hpass
      rw [streamRead_lineEnd hrest hpass hbuf, ← hn]
      simp
    · have htake : (v ++ ascii '\n' :: rest).take once = v.take once := List.take_append_of_le_length (by omega)
      have hdrop : (v ++ ascii '\n' :: rest).drop once = v.drop once ++ ascii '\n' :: rest :=
        List.drop_append_of_le_length (by omega)
      have hlen : (v.take once).length = once := List.length_take_of_le (by omega)
      have hpass : getRealCmd ⟨false, buf, false⟩ ((v ++ ascii '\n' :: rest).take once) =
          ⟨⟨false, buf, false⟩, once, 0, false⟩ := by
        have hloop := loop_comment (fun h => hv (List.mem_of_mem_take h)) [] 0 0 buf false (v := v.take once)
        rw [List.append_nil, hlen, Nat.zero_add] at hloop
        rw [htake]
        exact hloop
      rw [streamRead_chunk hrest hpass rfl hbuf]
      dsimp only
      rw [hdrop, Nat.add_zero, ih _ (by rw [List.length_drop]; omega) (fun h => hv (List.mem_of_mem_drop h)) rfl,
        lineEnd_add, List.length_drop]
      congr 1
      omega

/-- A call within a comment that the end of the file leaves open returns 0. -/
theorem streamRead_comment_open (honce : 0 < once) {v : List UInt8} (hv : ascii '\n' ∉ v) {buf : List UInt8}
    (hbuf : (0 : UInt8) ∈ buf) (offset : ℕ) :
    (streamRead once ⟨false, buf, false⟩ offset v).parser = ⟨false, buf, false⟩ ∧
      (streamRead once ⟨false, buf, false⟩ offset v).ret = 0 := by
  induction hn : v.length using Nat.strong_induction_on generalizing v with
  | _ n ih =>
    by_cases hne : v = []
    · rw [hne, streamRead_end List.take_nil]
      exact ⟨rfl, rfl⟩
    · have hrest := take_ne_nil honce hne
      have hpass : getRealCmd ⟨false, buf, false⟩ (v.take once) =
          ⟨⟨false, buf, false⟩, (v.take once).length, 0, false⟩ := by
        have hloop := loop_comment (fun h => hv (List.mem_of_mem_take h)) [] 0 0 buf false (v := v.take once)
        rw [List.append_nil, Nat.zero_add] at hloop
        exact hloop
      have hpos := List.length_pos_of_ne_nil hrest
      have hvpos := List.length_pos_of_ne_nil hne
      rw [streamRead_chunk hrest hpass rfl hbuf]
      exact ih _ (by simp only [List.length_drop]; omega) (fun h => hv (List.mem_of_mem_drop h)) rfl

theorem splice_zero (buf t : List UInt8) : Ring.splice buf 0 t = t ++ buf.drop t.length := by
  simp [Ring.splice]

/-- **A line with a comment.** -/
theorem streamRead_noted (honce : readByteCountOnce ≤ once) {t v buf : List UInt8} (ht : IsText t)
    (hlen : t.length < readByteCountOnce) (hv : ascii '\n' ∉ v) (hbuf : buf.length = readByteCountOnce)
    (hzero : (0 : UInt8) ∈ buf.drop t.length) (offset : ℕ) (rest : List UInt8) :
    streamRead once ⟨true, buf, false⟩ offset (t ++ ascii ';' :: v ++ ascii '\n' :: rest) =
      lineEnd once (t ++ buf.drop t.length) (offset + t.length) ((t ++ ascii ';' :: v).length + 1) rest := by
  obtain ⟨k, hk⟩ := Nat.exists_eq_add_of_lt (Nat.lt_of_lt_of_le hlen honce)
  have hmem : (0 : UInt8) ∈ t ++ buf.drop t.length := List.mem_append_right t hzero
  have hrest : (t ++ ascii ';' :: v ++ ascii '\n' :: rest).take once ≠ [] := take_ne_nil (by omega) (by simp)
  have hassoc : t ++ ascii ';' :: v ++ ascii '\n' :: rest = t ++ ascii ';' :: (v ++ ascii '\n' :: rest) := by simp
  have htake : (t ++ ascii ';' :: v ++ ascii '\n' :: rest).take once =
      t ++ ascii ';' :: (v ++ ascii '\n' :: rest).take k := by
    rw [hassoc, hk, take_line]
  have hpass : ∀ w, getRealCmd ⟨true, buf, false⟩ (t ++ ascii ';' :: w) =
      getRealCmdLoop t.length (t.length + 1) ⟨false, t ++ buf.drop t.length, false⟩ w := by
    intro w
    unfold getRealCmd
    rw [loop_text ht _ 0 0 buf false (by omega), splice_zero, Nat.zero_add, getRealCmdLoop, if_pos rfl]
  by_cases hfit : v.length < k
  · -- the whole line is in the chunk
    obtain ⟨j, hj⟩ := Nat.exists_eq_add_of_lt hfit
    have hline := hpass (v ++ ascii '\n' :: rest.take j)
    rw [loop_comment_end hv, ← take_line, ← hj, ← htake] at hline
    have hn : t.length + 1 + v.length + 1 = (t ++ ascii ';' :: v).length + 1 := by simp; omega
    rw [streamRead_lineEnd hrest hline hmem, hn, drop_behind]
  · -- the comment goes on in the next chunk
    have hv' : (v ++ ascii '\n' :: rest).take k = v.take k := List.take_append_of_le_length (by omega)
    have hdrop : (t ++ ascii ';' :: v ++ ascii '\n' :: rest).drop (t.length + 1 + k) =
        v.drop k ++ ascii '\n' :: rest := by
      rw [hassoc, Nat.add_right_comm, drop_line, List.drop_append_of_le_length (by omega)]
    have hchunk : getRealCmd ⟨true, buf, false⟩ ((t ++ ascii ';' :: v ++ ascii '\n' :: rest).take once) =
        ⟨⟨false, t ++ buf.drop t.length, false⟩, t.length + 1 + k, t.length, false⟩ := by
      have hloop := loop_comment (fun h => hv (List.mem_of_mem_take h)) [] t.length (t.length + 1)
        (t ++ buf.drop t.length) false (v := v.take k)
      rw [List.append_nil, List.length_take_of_le (by omega)] at hloop
      rw [htake, hv', hpass, hloop]
      rfl
    rw [streamRead_chunk hrest hchunk rfl hmem]
    dsimp only
    rw [hdrop, streamRead_comment (by omega) (fun h => hv (List.mem_of_mem_drop h)) hmem, lineEnd_add]
    congr 1
    simp
    omega

/-- A comment that the end of the file leaves open. -/
theorem streamRead_noted_open (honce : readByteCountOnce ≤ once) {t v buf : List UInt8} (ht : IsText t)
    (hlen : t.length < readByteCountOnce) (hv : ascii '\n' ∉ v) (hbuf : buf.length = readByteCountOnce)
    (hzero : (0 : UInt8) ∈ buf.drop t.length) (offset : ℕ) :
    (streamRead once ⟨true, buf, false⟩ offset (t ++ ascii ';' :: v)).parser.outside = false ∧
      (streamRead once ⟨true, buf, false⟩ offset (t ++ ascii ';' :: v)).ret = 0 := by
  obtain ⟨k, hk⟩ := Nat.exists_eq_add_of_lt (Nat.lt_of_lt_of_le hlen honce)
  have hmem : (0 : UInt8) ∈ t ++ buf.drop t.length := List.mem_append_right t hzero
  have hrest : (t ++ ascii ';' :: v).take once ≠ [] := take_ne_nil (by omega) (by simp)
  have hchunk : getRealCmd ⟨true, buf, false⟩ ((t ++ ascii ';' :: v).take once) =
      ⟨⟨false, t ++ buf.drop t.length, false⟩, t.length + 1 + (v.take k).length, t.length, false⟩ := by
    have hloop := loop_comment (fun h => hv (List.mem_of_mem_take h)) [] t.length (t.length + 1)
      (t ++ buf.drop t.length) false (v := v.take k)
    rw [List.append_nil] at hloop
    unfold getRealCmd
    rw [hk, take_line, loop_text ht _ 0 0 buf false (by omega), splice_zero, Nat.zero_add, getRealCmdLoop, if_pos rfl,
      hloop]
    rfl
  rw [streamRead_chunk hrest hchunk rfl hmem]
  dsimp only
  rw [Nat.add_right_comm, drop_line]
  obtain ⟨hp, hr⟩ := streamRead_comment_open (by omega : 0 < once)
    (fun h => hv (List.mem_of_mem_drop h) : ascii '\n' ∉ v.drop (v.take k).length) hmem (offset + t.length)
  rw [hp]
  exact ⟨rfl, hr⟩

/-- **A line without a comment** loses its last byte. -/
theorem streamRead_plain (honce : readByteCountOnce ≤ once) {t buf : List UInt8} {c : UInt8} (ht : IsText (t ++ [c]))
    (hlen : t.length + 1 < readByteCountOnce) (hbuf : buf.length = readByteCountOnce) (offset : ℕ) (rest : List UInt8) :
    streamRead once ⟨true, buf, false⟩ offset (t ++ [c] ++ ascii '\n' :: rest) =
      lineEnd once (t ++ 0 :: ascii '\n' :: buf.drop (t.length + 2)) (offset + (t.length + 1)) (t.length + 2) rest := by
  obtain ⟨k, hk⟩ := Nat.exists_eq_add_of_lt (Nat.lt_of_lt_of_le hlen honce)
  have hl : (t ++ [c]).length = t.length + 1 := by simp
  have hrest : (t ++ [c] ++ ascii '\n' :: rest).take once ≠ [] := take_ne_nil (by omega) (by simp)
  have hbuf' : ((t ++ [c] ++ buf.drop (t.length + 1)).set (t.length + 1) (ascii '\n')).set t.length 0 =
      t ++ 0 :: ascii '\n' :: buf.drop (t.length + 2) := by
    obtain ⟨d, hd⟩ : ∃ d, buf.drop (t.length + 1) = d :: buf.drop (t.length + 2) :=
      ⟨_, List.drop_eq_getElem_cons (by omega)⟩
    rw [hd]
    simp
  have hchunk : getRealCmd ⟨true, buf, false⟩ ((t ++ [c] ++ ascii '\n' :: rest).take once) =
      ⟨⟨true, t ++ 0 :: ascii '\n' :: buf.drop (t.length + 2), false⟩, t.length + 2, t.length + 1,
        decide (2 ≤ strlen (t ++ 0 :: ascii '\n' :: buf.drop (t.length + 2)))⟩ := by
    have hfull : t.length + 1 < (t ++ [c] ++ buf.drop (t.length + 1)).length := by simp; omega
    unfold getRealCmd
    rw [hk, ← hl, take_line, loop_text ht _ 0 0 buf false (by omega), splice_zero, Nat.zero_add, hl,
      loop_newline hfull, hbuf']
  have hdrop : (t ++ [c] ++ ascii '\n' :: rest).drop (t.length + 2) = rest := by
    rw [show t.length + 2 = (t ++ [c]).length + 1 by omega, drop_behind]
  rw [streamRead_lineEnd hrest hchunk (by simp), hdrop]

theorem streamRead_open (honce : readByteCountOnce ≤ once) {t buf : List UInt8} (ht : IsText t)
    (hlen : t.length < readByteCountOnce) (hbuf : buf.length = readByteCountOnce)
    (hzero : (0 : UInt8) ∈ buf.drop t.length) (offset : ℕ) :
    (streamRead once ⟨true, buf, false⟩ offset t).parser.outside = false ∧
      (streamRead once ⟨true, buf, false⟩ offset t).ret = 0 := by
  by_cases hne : t = []
  · rw [hne, streamRead_end List.take_nil]
    exact ⟨rfl, rfl⟩
  · have htake : t.take once = t := List.take_of_length_le (by omega)
    have hchunk : getRealCmd ⟨true, buf, false⟩ (t.take once) =
        ⟨⟨true, t ++ buf.drop t.length, false⟩, t.length, t.length, false⟩ := by
      have hloop := loop_text ht [] 0 0 buf false (by omega)
      rw [List.append_nil, splice_zero, Nat.zero_add] at hloop
      rw [htake]
      exact hloop
    rw [streamRead_chunk (by rwa [htake]) hchunk rfl (List.mem_append_right t hzero)]
    dsimp only
    rw [List.drop_length, streamRead_end List.take_nil]
    exact ⟨rfl, rfl⟩

theorem write_outside {p : Parser} (h : p.outside = true) (i : ℤ) (byte : UInt8) :
    (p.write i byte).outside = true := by
  unfold Parser.write
  split_ifs
  · exact h
  · rfl

theorem loop_outside {p : Parser} (h : p.outside = true) (count parsed : ℕ) (temp : List UInt8) :
    (getRealCmdLoop count parsed p temp).parser.outside = true := by
  induction temp generalizing count parsed p with
  | nil => exact h
  | cons b temp ih =>
    unfold getRealCmdLoop
    split_ifs
    · exact ih (p := { p with flag := false }) h _ _
    · exact h
    · exact ih h _ _
    · exact write_outside (write_outside h _ _) _ _
    · exact ih (write_outside h _ _) _ _

theorem streamRead_outside {p : Parser} (h : p.outside = true) (offset : ℕ) (rest : List UInt8) :
    (streamRead once p offset rest).parser.outside = true := by
  induction hn : rest.length using Nat.strong_induction_on generalizing p offset rest with
  | _ n ih =>
    by_cases hrest : rest.take once = []
    · rw [streamRead_end hrest]
      exact h
    · have hlt := drop_parsed_lt p hrest
      have hpass : (getRealCmd p (rest.take once)).parser.terminate.outside = true :=
        write_outside (loop_outside h _ _ _) _ _
      rw [streamRead_pass hrest]
      dsimp only
      split_ifs
      · exact hpass
      · exact ih _ (by omega) hpass _ _ rfl

/-- So a pass that writes one makes the call one that has. -/
theorem streamRead_pass_outside {p : Parser} {rest : List UInt8} (hrest : rest.take once ≠ [])
    (h : (getRealCmd p (rest.take once)).parser.terminate.outside = true) (offset : ℕ) :
    (streamRead once p offset rest).parser.outside = true := by
  rw [streamRead_pass hrest]
  dsimp only
  split_ifs
  · exact h
  · exact streamRead_outside h _ _

/-- **An empty line** puts a zero before the buffer. -/
theorem streamRead_empty (honce : 0 < once) (buf : List UInt8) (offset : ℕ) (rest : List UInt8) :
    (streamRead once ⟨true, buf, false⟩ offset (ascii '\n' :: rest)).parser.outside = true := by
  have hrest : (ascii '\n' :: rest).take once ≠ [] := take_ne_nil honce (by simp)
  refine streamRead_pass_outside hrest (write_outside ?_ _ _) offset
  obtain ⟨k, rfl⟩ := Nat.exists_eq_succ_of_ne_zero honce.ne'
  unfold getRealCmd
  rw [List.take_succ_cons, getRealCmdLoop, if_neg (by decide), if_neg (by simp), if_pos rfl]
  unfold Parser.write
  simp

/-- **A line that fills a chunk** leaves no room for its zero. -/
theorem streamRead_long {t w buf : List UInt8} (ht : IsText t) (hlen : t.length = readByteCountOnce)
    (hbuf : buf.length = readByteCountOnce) (hzero : (0 : UInt8) ∉ t) (offset : ℕ) :
    (streamRead readByteCountOnce ⟨true, buf, false⟩ offset (t ++ w)).parser.outside = true := by
  have htake : (t ++ w).take readByteCountOnce = t := by
    rw [← hlen]
    exact List.take_left
  have hne : t ≠ [] := by
    rintro rfl
    simp [readByteCountOnce] at hlen
  have hres : getRealCmd ⟨true, buf, false⟩ t = ⟨⟨true, t, false⟩, t.length, t.length, false⟩ := by
    have hloop := loop_text ht [] 0 0 buf false (by omega)
    rw [List.append_nil, splice_zero, Nat.zero_add, hlen, ← hbuf, List.drop_length, List.append_nil, hbuf, ← hlen]
      at hloop
    exact hloop
  refine streamRead_pass_outside (by rwa [htake]) ?_ offset
  rw [htake, hres]
  have hstr : strlen t = t.length := by
    rw [← length_str, str_eq_self hzero]
  unfold Parser.terminate Parser.write
  simp [hstr]

end Lines

/-! ## What a line does to the buffer -/

section Buffer

/-- The line of a file between two newlines, as a command: without its comment, or without the carriage return. -/
def sdLine (r : List UInt8) : List UInt8 :=
  if ascii ';' ∈ r then r.takeWhile (· ≠ ascii ';')
  else if r.getLast? = some (ascii '\r') then r.dropLast
  else r

/-- Where the short lines of a call have left newlines in the buffer: at index 1, at index 2. -/
structure Left where
  second : Bool
  third : Bool
  deriving DecidableEq

/-- The text before the comment. -/
def textOf (r : List UInt8) : List UInt8 := r.takeWhile (· ≠ ascii ';')

/-- A newline that was left behind the text. -/
def newlineIf (b : Bool) : List UInt8 := if b then [ascii '\n'] else []

/-- The command that a line makes the call return, if it does. -/
def outcome (l : Left) (r : List UInt8) : Option (List UInt8) :=
  if ascii ';' ∈ r then
    if 3 ≤ (textOf r).length then some (textOf r)
    else if (textOf r).length = 2 then some (textOf r ++ newlineIf l.third)
    else if (textOf r).length = 1 ∧ textOf r ≠ [0] ∧ l.second = true then
      some (textOf r ++ ascii '\n' :: newlineIf l.third)
    else none
  else if 3 ≤ r.length then some r.dropLast
  else none

/-- What a line leaves in the buffer: nothing when a command is returned, for the next call has a new buffer. -/
def Left.next (l : Left) (r : List UInt8) : Left :=
  if ascii ';' ∈ r then if 2 ≤ (textOf r).length then ⟨false, false⟩ else l
  else if 3 ≤ r.length then ⟨false, false⟩
  else if r.length = 2 then ⟨false, true⟩
  else ⟨true, l.third⟩

/-- **The buffer within a call.** -/
def Stale (l : Left) (buf : List UInt8) : Prop :=
  ∃ c, buf = c :: (if l.second then ascii '\n' else 0) :: (if l.third then ascii '\n' else 0) :: List.replicate 47 0 ∧
    (c = 0 ∨ l.second = false)

theorem stale_zeros : Stale ⟨false, false⟩ zeros := ⟨0, rfl, Or.inl rfl⟩

theorem Stale.length {l : Left} {buf : List UInt8} (h : Stale l buf) : buf.length = readByteCountOnce := by
  obtain ⟨c, rfl, -⟩ := h
  rfl

theorem Stale.zero_mem_drop {l : Left} {buf : List UInt8} (h : Stale l buf) {n : ℕ} (hn : n < readByteCountOnce) :
    (0 : UInt8) ∈ buf.drop n := by
  have hlast : buf[49]? = some 0 := by
    obtain ⟨c, rfl, -⟩ := h
    rfl
  rw [List.mem_iff_getElem?]
  refine ⟨49 - n, ?_⟩
  rw [List.getElem?_drop, ← hlast]
  congr 1
  unfold readByteCountOnce at hn
  omega

/-- The line can be stored: it has a byte to put the zero over, and its text leaves room for it. -/
def Storable (r : List UInt8) : Prop := r ≠ [] ∧ (textOf r).length < readByteCountOnce

/-- The line is a C string as far as it is a command. -/
def NoNul (r : List UInt8) : Prop := 2 ≤ (sdLine r).length → (0 : UInt8) ∉ sdLine r

theorem textOf_noted {t v : List UInt8} (ht : ascii ';' ∉ t) : textOf (t ++ ascii ';' :: v) = t := by
  have hpos : ∀ b ∈ t, decide (b ≠ ascii ';') = true := by
    intro b hb
    refine decide_eq_true ?_
    rintro rfl
    exact ht hb
  unfold textOf
  rw [List.takeWhile_append_of_pos hpos]
  simp

theorem textOf_plain {r : List UInt8} (hr : ascii ';' ∉ r) : textOf r = r := by
  refine List.takeWhile_eq_self_iff.mpr fun b hb => decide_eq_true ?_
  rintro rfl
  exact hr hb

/-- What a line with a comment leaves in the buffer. -/
theorem Stale.noted {l : Left} {buf t v : List UInt8} (h : Stale l buf) (ht : ascii ';' ∉ t)
    (hnul : NoNul (t ++ ascii ';' :: v)) :
    (∀ o, outcome l (t ++ ascii ';' :: v) = some o → str (t ++ buf.drop t.length) = o ∧ 2 ≤ o.length ∧ t ≠ []) ∧
      (outcome l (t ++ ascii ';' :: v) = none →
        strlen (t ++ buf.drop t.length) < 2 ∧ Stale (l.next (t ++ ascii ';' :: v)) (t ++ buf.drop t.length)) := by
  have hmem : ascii ';' ∈ t ++ ascii ';' :: v := by simp
  have htext : textOf (t ++ ascii ';' :: v) = t := textOf_noted ht
  unfold NoNul sdLine at hnul
  rw [if_pos hmem] at hnul
  change 2 ≤ (textOf (t ++ ascii ';' :: v)).length → (0 : UInt8) ∉ textOf (t ++ ascii ';' :: v) at hnul
  unfold outcome Left.next
  rw [if_pos hmem, if_pos hmem]
  rw [htext] at hnul ⊢
  obtain ⟨c, rfl, hc⟩ := h
  have hnl : ascii '\n' ≠ 0 := by decide
  obtain _ | ⟨a, _ | ⟨b, _ | ⟨d, t⟩⟩⟩ := t
  · refine ⟨by simp, fun _ => ⟨?_, c, rfl, hc⟩⟩
    obtain rfl | hsecond := hc
    · simp [strlen]
    · by_cases h0 : c = 0 <;> simp [strlen, hsecond, h0]
  · by_cases ha : a = 0
    · subst ha
      exact ⟨by simp, fun _ => ⟨by simp [strlen], 0, rfl, Or.inl rfl⟩⟩
    · by_cases hsecond : l.second = true
      · refine ⟨fun o ho => ?_, fun ho => ?_⟩
        · have : [a] ++ ascii '\n' :: newlineIf l.third = o := by simpa [ha, hsecond] using ho
          rw [← this]
          by_cases hthird : l.third = true
          · simp [str, newlineIf, ha, hsecond, hthird, hnl]
          · simp [str, newlineIf, ha, hsecond, hthird, hnl]
        · simp [ha, hsecond] at ho
      · exact ⟨by simp [hsecond], fun _ => ⟨by simp [strlen, ha, hsecond], a, rfl, Or.inr (by simpa using hsecond)⟩⟩
  · have hab : (0 : UInt8) ∉ [a, b] := hnul (by simp)
    refine ⟨fun o ho => ?_, by simp⟩
    have : [a, b] ++ newlineIf l.third = o := by simpa using ho
    rw [← this]
    by_cases hthird : l.third = true
    · have hmem3 : (0 : UInt8) ∉ [a, b, ascii '\n'] := by simpa [hnl.symm] using hab
      have hstr := str_append_zeros hmem3 47
      simpa [newlineIf, hthird] using hstr
    · have hstr := str_append_zeros hab 48
      simp only [newlineIf, hthird]
      simpa [List.replicate_succ] using hstr
  · have habd : (0 : UInt8) ∉ a :: b :: d :: t := hnul (by simp)
    refine ⟨fun o ho => ?_, by simp⟩
    have : a :: b :: d :: t = o := by simpa using ho
    rw [← this]
    refine ⟨?_, by simp, by simp⟩
    show str (a :: b :: d :: t ++ (List.replicate 47 0).drop t.length) = a :: b :: d :: t
    rw [List.drop_replicate, str_append_zeros habd]

theorem Stale.plain {l : Left} {buf t : List UInt8} {e : UInt8} (h : Stale l buf) (ht : ascii ';' ∉ t ++ [e])
    (hnul : NoNul (t ++ [e])) :
    (∀ o, outcome l (t ++ [e]) = some o →
        str (t ++ 0 :: ascii '\n' :: buf.drop (t.length + 2)) = o ∧ 2 ≤ o.length) ∧
      (outcome l (t ++ [e]) = none →
        strlen (t ++ 0 :: ascii '\n' :: buf.drop (t.length + 2)) < 2 ∧
          Stale (l.next (t ++ [e])) (t ++ 0 :: ascii '\n' :: buf.drop (t.length + 2))) := by
  unfold NoNul sdLine at hnul
  rw [if_neg ht] at hnul
  unfold outcome Left.next
  rw [if_neg ht, if_neg ht]
  obtain ⟨c, rfl, hc⟩ := h
  obtain _ | ⟨a, _ | ⟨b, t⟩⟩ := t
  · exact ⟨by simp, fun _ => ⟨by simp [strlen], 0, rfl, Or.inl rfl⟩⟩
  · refine ⟨by simp, fun _ => ⟨?_, a, rfl, Or.inr rfl⟩⟩
    by_cases ha : a = 0 <;> simp [strlen, ha]
  · refine ⟨fun o ho => ?_, by simp⟩
    rw [if_pos (by simp), List.dropLast_concat, Option.some.injEq] at ho
    rw [← ho]
    refine ⟨str_append_zero ?_ _, by simp⟩
    -- the line is a command, so what the zero is put behind has none
    intro h0
    by_cases hcr : (a :: b :: t ++ [e]).getLast? = some (ascii '\r')
    · rw [if_pos hcr, List.dropLast_concat] at hnul
      exact hnul (by simp) h0
    · rw [if_neg hcr] at hnul
      exact hnul (by simp) (List.mem_append_left [e] h0)

end Buffer

/-! ## Calls -/

section Calls

variable {once : ℕ}

/-- The commands that calls with cleared buffers return, up to the first that returns 0; none writes outside its
buffer. -/
inductive StreamReads (once : ℕ) : List UInt8 → List (List UInt8) → Prop
  | last {rest : List UInt8} : (streamRead once ⟨true, zeros, false⟩ 0 rest).parser.outside = false →
      (streamRead once ⟨true, zeros, false⟩ 0 rest).ret = 0 → StreamReads once rest []
  | next {rest : List UInt8} {os : List (List UInt8)} :
      (streamRead once ⟨true, zeros, false⟩ 0 rest).parser.outside = false →
      (streamRead once ⟨true, zeros, false⟩ 0 rest).ret ≠ 0 →
      StreamReads once (rest.drop (streamRead once ⟨true, zeros, false⟩ 0 rest).parsed) os →
      StreamReads once rest (str (streamRead once ⟨true, zeros, false⟩ 0 rest).parser.buf :: os)

/-- The same from within a call. -/
def Finish (once : ℕ) (buf : List UInt8) (offset : ℕ) (rest : List UInt8) (os : List (List UInt8)) : Prop :=
  let r := streamRead once ⟨true, buf, false⟩ offset rest
  r.parser.outside = false ∧
    if r.ret = 0 then os = [] else ∃ os', os = str r.parser.buf :: os' ∧ StreamReads once (rest.drop r.parsed) os'

theorem streamReads_iff {rest : List UInt8} {os : List (List UInt8)} :
    StreamReads once rest os ↔ Finish once zeros 0 rest os := by
  unfold Finish
  constructor
  · rintro (⟨hout, hret⟩ | ⟨hout, hret, hos⟩)
    · exact ⟨hout, by rw [if_pos hret]⟩
    · exact ⟨hout, by rw [if_neg hret]; exact ⟨_, rfl, hos⟩⟩
  · rintro ⟨hout, hos⟩
    by_cases hret : (streamRead once ⟨true, zeros, false⟩ 0 rest).ret = 0
    · rw [if_pos hret] at hos
      rw [hos]
      exact .last hout hret
    · rw [if_neg hret] at hos
      obtain ⟨os', rfl, hos'⟩ := hos
      exact .next hout hret hos'

theorem Finish.outside {buf : List UInt8} {offset : ℕ} {rest : List UInt8} {os : List (List UInt8)}
    (h : Finish once buf offset rest os) : (streamRead once ⟨true, buf, false⟩ offset rest).parser.outside ≠ true := by
  rw [h.1]
  decide

theorem finish_of_ret {buf : List UInt8} {offset : ℕ} {rest : List UInt8}
    (hr : (streamRead once ⟨true, buf, false⟩ offset rest).parser.outside = false ∧
      (streamRead once ⟨true, buf, false⟩ offset rest).ret = 0) (os : List (List UInt8)) :
    Finish once buf offset rest os ↔ os = [] := by
  unfold Finish
  dsimp only
  rw [if_pos hr.2]
  exact ⟨fun h => h.2, fun h => ⟨hr.1, h⟩⟩

/-- The end of a line: the command is returned, or the call goes on. -/
theorem finish_lineEnd {buf buf' r rest : List UInt8} {c : UInt8} {offset offset' : ℕ}
    (h : streamRead once ⟨true, buf, false⟩ offset (r ++ c :: rest) = lineEnd once buf' offset' (r.length + 1) rest) :
    (2 ≤ strlen buf' → offset' ≠ 0 → ∀ os, Finish once buf offset (r ++ c :: rest) os ↔
        ∃ os', os = str buf' :: os' ∧ StreamReads once rest os') ∧
      (strlen buf' < 2 → ∀ os, Finish once buf offset (r ++ c :: rest) os ↔ Finish once buf' offset' rest os) := by
  refine ⟨fun hlen hne os => ?_, fun hlen os => ?_⟩
  · have hend : lineEnd once buf' offset' (r.length + 1) rest = ⟨⟨true, buf', false⟩, r.length + 1, offset'⟩ :=
      if_pos ⟨hlen, hne⟩
    unfold Finish
    rw [h, hend]
    dsimp only
    rw [if_neg hne, drop_behind]
    exact ⟨fun hf => hf.2, fun hf => ⟨rfl, hf⟩⟩
  · have hend : lineEnd once buf' offset' (r.length + 1) rest =
        ⟨(streamRead once ⟨true, buf', false⟩ offset' rest).parser,
          r.length + 1 + (streamRead once ⟨true, buf', false⟩ offset' rest).parsed,
          (streamRead once ⟨true, buf', false⟩ offset' rest).ret⟩ := if_neg fun hc => absurd hc.1 (not_le.mpr hlen)
    unfold Finish
    rw [h, hend]
    dsimp only
    rw [← List.drop_drop, drop_behind]

/-- **One line of a call.** -/
theorem finish_line (honce : readByteCountOnce ≤ once) {l : Left} {buf r : List UInt8} (hst : Stale l buf)
    (hnl : ascii '\n' ∉ r) (hstore : Storable r) (hnul : NoNul r) (offset : ℕ) (rest : List UInt8) :
    (∀ o, outcome l r = some o → ∀ os, Finish once buf offset (r ++ ascii '\n' :: rest) os ↔
        ∃ os', os = o :: os' ∧ StreamReads once rest os') ∧
      (outcome l r = none → ∃ buf' offset', Stale (l.next r) buf' ∧
        ∀ os, Finish once buf offset (r ++ ascii '\n' :: rest) os ↔ Finish once buf' offset' rest os) := by
  obtain ⟨hne, hlen⟩ := hstore
  by_cases hsemi : ascii ';' ∈ r
  · obtain ⟨t, v, rfl, ht⟩ := List.eq_append_cons_of_mem hsemi
    rw [textOf_noted ht] at hlen
    rw [List.mem_append, List.mem_cons, not_or, not_or] at hnl
    obtain ⟨hsome, hnone⟩ := hst.noted ht hnul
    obtain ⟨hret, hgo⟩ := finish_lineEnd
      (streamRead_noted honce ⟨hnl.1, ht⟩ hlen hnl.2.2 hst.length (hst.zero_mem_drop hlen) offset rest)
    refine ⟨fun o ho => ?_, fun ho => ?_⟩
    · obtain ⟨hstr, hlen2, htne⟩ := hsome o ho
      rw [← hstr]
      refine hret (by rw [← length_str, hstr]; exact hlen2) ?_
      have := List.length_pos_of_ne_nil htne
      omega
    · obtain ⟨hshort, hst'⟩ := hnone ho
      exact ⟨_, _, hst', hgo hshort⟩
  · obtain ⟨t, e, rfl⟩ := (List.eq_nil_or_concat' r).resolve_left hne
    rw [textOf_plain hsemi, List.length_append, List.length_singleton] at hlen
    obtain ⟨hsome, hnone⟩ := hst.plain hsemi hnul
    have hn : t.length + 2 = (t ++ [e]).length + 1 := by simp
    have hplain := streamRead_plain honce ⟨hnl, hsemi⟩ hlen hst.length offset rest
    rw [hn] at hplain
    obtain ⟨hret, hgo⟩ := finish_lineEnd hplain
    refine ⟨fun o ho => ?_, fun ho => ?_⟩
    · obtain ⟨hstr, hlen2⟩ := hsome o ho
      rw [← hn, ← length_str, hstr] at hret
      exact hret hlen2 (by omega)
    · obtain ⟨hshort, hst'⟩ := hnone ho
      rw [← hn] at hgo
      exact ⟨_, _, hst', hgo hshort⟩

theorem long_outside {r buf : List UInt8} (hnl : ascii '\n' ∉ r) (hlen : readByteCountOnce ≤ (textOf r).length)
    (hnul : NoNul r) (hbuf : buf.length = readByteCountOnce) (offset : ℕ) (w : List UInt8) :
    (streamRead readByteCountOnce ⟨true, buf, false⟩ offset (r ++ w)).parser.outside = true := by
  have hsub : ∀ b ∈ textOf r, b ∈ r := fun b hb => (List.takeWhile_sublist _).subset hb
  have htext : IsText ((textOf r).take readByteCountOnce) :=
    ⟨fun h => hnl (hsub _ (List.mem_of_mem_take h)),
      fun h => by simpa using List.mem_takeWhile_imp (List.mem_of_mem_take h)⟩
  have hzero : (0 : UInt8) ∉ textOf r := by
    unfold NoNul sdLine at hnul
    unfold readByteCountOnce at hlen
    by_cases hsemi : ascii ';' ∈ r
    · rw [if_pos hsemi] at hnul
      exact hnul (show 2 ≤ (textOf r).length by omega)
    · rw [if_neg hsemi] at hnul
      rw [textOf_plain hsemi] at hlen ⊢
      by_cases hcr : r.getLast? = some (ascii '\r')
      · rw [if_pos hcr] at hnul
        intro h0
        obtain ⟨t, rfl⟩ := List.getLast?_eq_some_iff.mp hcr
        rw [List.dropLast_concat] at hnul
        obtain h0 | h0 := List.mem_append.mp h0
        · exact hnul (by simp at hlen; omega) h0
        · simp [ascii] at h0
      · rw [if_neg hcr] at hnul
        exact hnul (by omega)
  obtain ⟨w', hw'⟩ : ∃ w', r ++ w = (textOf r).take readByteCountOnce ++ w' := by
    obtain ⟨s, hs⟩ := List.takeWhile_prefix (fun b => decide (b ≠ ascii ';')) (l := r)
    refine ⟨(textOf r).drop readByteCountOnce ++ (s ++ w), ?_⟩
    rw [← List.append_assoc, List.take_append_drop, ← List.append_assoc]
    congr 1
    exact hs.symm
  rw [hw']
  exact streamRead_long htext (List.length_take_of_le hlen) hbuf (fun h => hzero (List.mem_of_mem_take h)) offset

end Calls

/-! ## The lines of a file -/

section Files

/-- A newline. -/
def isNewline (byte : UInt8) : Bool := byte = ascii '\n'

/-- **The commands of a file**: its lines of at least two characters, comments stripped. -/
def sdLines (content : List UInt8) : List (List UInt8) :=
  ((content.splitOnP isNewline).map sdLine).filter (2 ≤ ·.length)

/-- **The condition of a line** that a newline ends.  Its text is not empty, unless a comment follows, and shorter than
a chunk; as a command, it has no zero byte; without a comment it ends in a carriage return, or is a single byte; and
with one, the text does not end where a short line has left a newline behind it. -/
def LineOk (l : Left) (r : List UInt8) : Prop :=
  Storable r ∧ NoNul r ∧
    if ascii ';' ∈ r then
      ((textOf r).length = 1 → l.second = true → textOf r = [0]) ∧ ((textOf r).length = 2 → l.third = false)
    else 2 ≤ r.length → r.getLast? = some (ascii '\r')

/-- The condition of the lines of a file: the last one, which no newline ends, is not a command. -/
def LinesOk : Left → List (List UInt8) → Prop
  | _, [] => True
  | _, [r] => (sdLine r).length < 2
  | l, r :: r' :: rs => LineOk l r ∧ LinesOk (l.next r) (r' :: rs)

theorem splitOnP_open {r : List UInt8} (hr : ascii '\n' ∉ r) : r.splitOnP isNewline = [r] :=
  List.splitOnP_eq_singleton fun b hb => decide_eq_false (by
    rintro rfl
    exact hr hb)

theorem splitOnP_line {r : List UInt8} (hr : ascii '\n' ∉ r) (rest : List UInt8) :
    (r ++ ascii '\n' :: rest).splitOnP isNewline = r :: rest.splitOnP isNewline := by
  rw [List.splitOnP_append_cons r rest (by simp [isNewline]), splitOnP_open hr]
  rfl

theorem sdLines_line {r : List UInt8} (hr : ascii '\n' ∉ r) (rest : List UInt8) :
    sdLines (r ++ ascii '\n' :: rest) = if 2 ≤ (sdLine r).length then sdLine r :: sdLines rest else sdLines rest := by
  unfold sdLines
  rw [splitOnP_line hr, List.map_cons, List.filter_cons]
  simp

theorem sdLines_open {r : List UInt8} (hr : ascii '\n' ∉ r) :
    sdLines r = if 2 ≤ (sdLine r).length then [sdLine r] else [] := by
  unfold sdLines
  rw [splitOnP_open hr, List.map_singleton, List.filter_singleton]
  simp

theorem linesOk_line {l : Left} {r : List UInt8} (hr : ascii '\n' ∉ r) (rest : List UInt8) :
    LinesOk l ((r ++ ascii '\n' :: rest).splitOnP isNewline) ↔
      LineOk l r ∧ LinesOk (l.next r) (rest.splitOnP isNewline) := by
  rw [splitOnP_line hr]
  obtain ⟨r', rs, hrs⟩ := List.exists_cons_of_ne_nil (List.splitOnP_ne_nil isNewline rest)
  rw [hrs, LinesOk]

theorem newline_not_mem_sdLine {r : List UInt8} (hr : ascii '\n' ∉ r) : ascii '\n' ∉ sdLine r := by
  unfold sdLine
  split_ifs
  · exact fun h => hr ((List.takeWhile_sublist _).subset h)
  · exact fun h => hr (List.mem_of_mem_dropLast h)
  · exact hr

theorem sdLine_noted {r : List UInt8} (h : ascii ';' ∈ r) : sdLine r = textOf r := if_pos h

theorem sdLine_cr {r : List UInt8} (h : ascii ';' ∉ r) (hcr : r.getLast? = some (ascii '\r')) :
    sdLine r = r.dropLast := by
  unfold sdLine
  rw [if_neg h, if_pos hcr]

theorem sdLine_plain {r : List UInt8} (h : ascii ';' ∉ r) (hcr : r.getLast? ≠ some (ascii '\r')) : sdLine r = r := by
  unfold sdLine
  rw [if_neg h, if_neg hcr]

/-- A line that meets its condition gives its command, if it is one. -/
theorem outcome_of_lineOk {l : Left} {r : List UInt8} (h : LineOk l r) :
    outcome l r = (if 2 ≤ (sdLine r).length then some (sdLine r) else none) ∧
      (2 ≤ (sdLine r).length → l.next r = ⟨false, false⟩) := by
  obtain ⟨⟨hne, -⟩, -, hline⟩ := h
  unfold outcome Left.next
  by_cases hsemi : ascii ';' ∈ r
  · rw [if_pos hsemi] at hline
    rw [if_pos hsemi, if_pos hsemi, sdLine_noted hsemi]
    refine ⟨?_, fun h2 => if_pos h2⟩
    by_cases h3 : 3 ≤ (textOf r).length
    · rw [if_pos h3, if_pos (by omega)]
    · rw [if_neg h3]
      by_cases h2 : (textOf r).length = 2
      · rw [if_pos h2, if_pos h2.ge, hline.2 h2]
        simp [newlineIf]
      · have hlt : ¬ 2 ≤ (textOf r).length := by omega
        have hno : ¬ ((textOf r).length = 1 ∧ textOf r ≠ [0] ∧ l.second = true) := by
          rintro ⟨h1, hnul, hsecond⟩
          exact hnul (hline.1 h1 hsecond)
        rw [if_neg h2, if_neg hno, if_neg hlt]
  · rw [if_neg hsemi] at hline
    rw [if_neg hsemi, if_neg hsemi]
    by_cases hcr : r.getLast? = some (ascii '\r')
    · rw [sdLine_cr hsemi hcr, List.length_dropLast]
      by_cases h3 : 3 ≤ r.length
      · rw [if_pos h3, if_pos h3, if_pos (by omega)]
        exact ⟨rfl, fun _ => rfl⟩
      · rw [if_neg h3, if_neg (by omega)]
        exact ⟨rfl, fun h2 => absurd h2 (by omega)⟩
    · have h1 : ¬ 2 ≤ r.length := fun h2 => hcr (hline h2)
      rw [sdLine_plain hsemi hcr, if_neg (by omega), if_neg h1]
      exact ⟨rfl, fun h2 => absurd h2 h1⟩

/-- One that does not either gives a string with a newline, or not the command it is. -/
theorem outcome_of_not_lineOk {l : Left} {r : List UInt8} (hstore : Storable r) (hnul : NoNul r) (h : ¬ LineOk l r) :
    (∃ o, outcome l r = some o ∧ (ascii '\n' ∈ o ∨ (2 ≤ (sdLine r).length ∧ o ≠ sdLine r))) ∨
      (outcome l r = none ∧ 2 ≤ (sdLine r).length) := by
  have hline := fun hline => h ⟨hstore, hnul, hline⟩
  unfold outcome
  by_cases hsemi : ascii ';' ∈ r
  · rw [if_pos hsemi, imp_false, not_and_or] at hline
    rw [if_pos hsemi]
    obtain hline | hline := hline
    · -- one character before a newline that was left
      obtain ⟨h1, hrest⟩ := Classical.not_imp.mp hline
      obtain ⟨hsecond, hne⟩ := Classical.not_imp.mp hrest
      rw [if_neg (by omega), if_neg (by omega), if_pos ⟨h1, hne, hsecond⟩]
      exact Or.inl ⟨_, rfl, Or.inl (by simp)⟩
    · obtain ⟨h2, hthird⟩ := Classical.not_imp.mp hline
      rw [if_neg (by omega), if_pos h2]
      exact Or.inl ⟨_, rfl, Or.inl (by simp [newlineIf, hthird])⟩
  · rw [if_neg hsemi, imp_false] at hline
    obtain ⟨h2, hcr⟩ := Classical.not_imp.mp hline
    rw [if_neg hsemi, sdLine_plain hsemi hcr]
    by_cases h3 : 3 ≤ r.length
    · rw [if_pos h3]
      refine Or.inl ⟨_, rfl, Or.inr ⟨h2, fun heq => ?_⟩⟩
      have := congrArg List.length heq
      rw [List.length_dropLast] at this
      omega
    · rw [if_neg h3]
      exact Or.inr ⟨rfl, h2⟩

/-- A command is returned for a line that is one, but for strings with a newline. -/
theorem outcome_some {l : Left} {r o : List UInt8} (h : outcome l r = some o) :
    ascii '\n' ∈ o ∨ 2 ≤ (sdLine r).length := by
  unfold outcome at h
  by_cases hsemi : ascii ';' ∈ r
  · rw [if_pos hsemi] at h
    rw [sdLine_noted hsemi]
    by_cases h2 : 2 ≤ (textOf r).length
    · exact Or.inr h2
    · rw [if_neg (by omega), if_neg (by omega)] at h
      split_ifs at h with h1
      rw [← Option.some.inj h]
      exact Or.inl (by simp)
  · rw [if_neg hsemi] at h
    split_ifs at h with h3
    by_cases hcr : r.getLast? = some (ascii '\r')
    · rw [sdLine_cr hsemi hcr, List.length_dropLast]
      exact Or.inr (by omega)
    · rw [sdLine_plain hsemi hcr]
      exact Or.inr (by omega)

/-- A file is a line and the rest, or a last line. -/
theorem line_or_open (rest : List UInt8) :
    (∃ r rest', rest = r ++ ascii '\n' :: rest' ∧ ascii '\n' ∉ r) ∨ ascii '\n' ∉ rest := by
  by_cases h : ascii '\n' ∈ rest
  · obtain ⟨r, rest', heq, hr⟩ := List.eq_append_cons_of_mem h
    exact Or.inl ⟨r, rest', heq, hr⟩
  · exact Or.inr h

theorem length_rest_lt (r rest : List UInt8) (c : UInt8) : rest.length < (r ++ c :: rest).length := by
  simp
  omega

theorem newline_not_mem_sdLines {content o : List UInt8} (ho : o ∈ sdLines content) : ascii '\n' ∉ o := by
  induction hn : content.length using Nat.strong_induction_on generalizing content with
  | _ n ih =>
    obtain ⟨r, rest, rfl, hr⟩ | hopen := line_or_open content
    · rw [sdLines_line hr] at ho
      have hlt := length_rest_lt r rest (ascii '\n')
      split_ifs at ho
      · obtain rfl | ho := List.mem_cons.mp ho
        · exact newline_not_mem_sdLine hr
        · exact ih _ (by omega) ho rfl
      · exact ih _ (by omega) ho rfl
    · rw [sdLines_open hopen] at ho
      split_ifs at ho
      · rw [List.mem_singleton.mp ho]
        exact newline_not_mem_sdLine hopen
      · simp at ho

end Files

/-! ## Runs -/

section Runs

variable {once : ℕ}

/-- A last line with room for its text is not returned. -/
theorem finish_open (honce : readByteCountOnce ≤ once) {l : Left} {buf r : List UInt8} (hst : Stale l buf)
    (hr : ascii '\n' ∉ r) (hlen : (textOf r).length < readByteCountOnce) (offset : ℕ) (os : List (List UInt8)) :
    Finish once buf offset r os ↔ os = [] := by
  by_cases hsemi : ascii ';' ∈ r
  · obtain ⟨t, v, rfl, ht⟩ := List.eq_append_cons_of_mem hsemi
    rw [textOf_noted ht] at hlen
    rw [List.mem_append, List.mem_cons, not_or, not_or] at hr
    exact finish_of_ret
      (streamRead_noted_open honce ⟨hr.1, ht⟩ hlen hr.2.2 hst.length (hst.zero_mem_drop hlen) offset) os
  · rw [textOf_plain hsemi] at hlen
    exact finish_of_ret (streamRead_open honce ⟨hr, hsemi⟩ hlen hst.length (hst.zero_mem_drop hlen) offset) os

/-- **Lines that meet their conditions** are returned, whatever the chunk length. -/
theorem finish_of_linesOk (honce : readByteCountOnce ≤ once) {l : Left} {buf : List UInt8} (hst : Stale l buf)
    {rest : List UInt8} (h : LinesOk l (rest.splitOnP isNewline)) (offset : ℕ) :
    Finish once buf offset rest (sdLines rest) := by
  induction hn : rest.length using Nat.strong_induction_on generalizing rest l buf offset with
  | _ n ih =>
    obtain ⟨r, rest', rfl, hr⟩ | hopen := line_or_open rest
    · rw [linesOk_line hr] at h
      obtain ⟨hline, hlines⟩ := h
      have hlt := length_rest_lt r rest' (ascii '\n')
      obtain ⟨hout, hnext⟩ := outcome_of_lineOk hline
      obtain ⟨hsome, hnone⟩ := finish_line honce hst hr hline.1 hline.2.1 offset rest'
      rw [sdLines_line hr]
      by_cases h2 : 2 ≤ (sdLine r).length
      · rw [if_pos h2] at hout ⊢
        rw [hnext h2] at hlines
        refine (hsome _ hout _).mpr ⟨_, rfl, streamReads_iff.mpr ?_⟩
        exact ih _ (by omega) stale_zeros hlines 0 rfl
      · rw [if_neg h2] at hout ⊢
        obtain ⟨buf', offset', hst', hiff⟩ := hnone hout
        exact (hiff _).mpr (ih _ (by omega) hst' hlines offset' rfl)
    · rw [splitOnP_open hopen, LinesOk] at h
      have hlen : (textOf rest).length < readByteCountOnce := by
        by_cases hsemi : ascii ';' ∈ rest
        · rw [sdLine_noted hsemi] at h
          exact h.trans (by decide)
        · rw [textOf_plain hsemi]
          unfold readByteCountOnce
          by_cases hcr : rest.getLast? = some (ascii '\r')
          · rw [sdLine_cr hsemi hcr, List.length_dropLast] at h
            omega
          · rw [sdLine_plain hsemi hcr] at h
            omega
      rw [sdLines_open hopen, if_neg (not_le.mpr h)]
      exact (finish_open honce hst hopen hlen offset []).mpr rfl

/-- In a file whose commands are C strings, a call that writes only its buffer has met lines it can store. -/
theorem Finish.storable {l : Left} {buf r w : List UInt8} {offset : ℕ} {os : List (List UInt8)} (hst : Stale l buf)
    (hr : ascii '\n' ∉ r) (hnul : NoNul r) (h : Finish readByteCountOnce buf offset (r ++ w) os) :
    (textOf r).length < readByteCountOnce ∧ (w.head? = some (ascii '\n') → Storable r) := by
  have hlen : (textOf r).length < readByteCountOnce := by
    by_contra hge
    exact h.outside (long_outside hr (not_lt.mp hge) hnul hst.length offset w)
  refine ⟨hlen, fun hw => ⟨?_, hlen⟩⟩
  rintro rfl
  obtain ⟨w', rfl⟩ : ∃ w', w = ascii '\n' :: w' := by
    cases w with
    | nil => simp at hw
    | cons c w' => exact ⟨w', by rw [Option.some.inj hw]⟩
  exact h.outside (streamRead_empty (by decide) buf offset w')

theorem StreamReads.noNul {rest : List UInt8} {os : List (List UInt8)} (h : StreamReads once rest os) :
    ∀ o ∈ os, (0 : UInt8) ∉ o := by
  induction h with
  | last => simp
  | next _ _ _ ih =>
    intro o ho
    obtain rfl | ho := List.mem_cons.mp ho
    · exact zero_not_mem_str _
    · exact ih o ho

/-- The lines of a file whose commands are C strings. -/
def AllNoNul (content : List UInt8) : Prop := ∀ o ∈ sdLines content, (0 : UInt8) ∉ o

theorem AllNoNul.line {r rest : List UInt8} (hr : ascii '\n' ∉ r) (h : AllNoNul (r ++ ascii '\n' :: rest)) :
    NoNul r ∧ AllNoNul rest := by
  unfold AllNoNul at h ⊢
  rw [sdLines_line hr] at h
  refine ⟨fun h2 => ?_, fun o ho => ?_⟩
  · rw [if_pos h2] at h
    exact h _ List.mem_cons_self
  · refine h o ?_
    split_ifs
    · exact List.mem_cons_of_mem _ ho
    · exact ho

theorem AllNoNul.open {r : List UInt8} (hr : ascii '\n' ∉ r) (h : AllNoNul r) : NoNul r := by
  unfold AllNoNul at h
  rw [sdLines_open hr] at h
  intro h2
  rw [if_pos h2] at h
  exact h _ (List.mem_singleton.mpr rfl)

/-- A file gives no more commands than it has, but for strings with a newline. -/
theorem finish_length_le {l : Left} {buf rest : List UInt8} (hst : Stale l buf) (hnul : AllNoNul rest) {offset : ℕ}
    {os : List (List UInt8)} (h : Finish readByteCountOnce buf offset rest os) (hos : ∀ o ∈ os, ascii '\n' ∉ o) :
    os.length ≤ (sdLines rest).length := by
  induction hn : rest.length using Nat.strong_induction_on generalizing rest l buf offset os with
  | _ n ih =>
    obtain ⟨r, rest', rfl, hr⟩ | hopen := line_or_open rest
    · obtain ⟨hnulr, hnul'⟩ := hnul.line hr
      have hlt := length_rest_lt r rest' (ascii '\n')
      have hstore := (h.storable hst hr hnulr).2 rfl
      obtain ⟨hsome, hnone⟩ := finish_line le_rfl hst hr hstore hnulr offset rest'
      rw [sdLines_line hr]
      cases hout : outcome l r with
      | some o =>
        obtain ⟨os', rfl, hos'⟩ := (hsome o hout os).mp h
        have h2 := (outcome_some hout).resolve_left (hos o List.mem_cons_self)
        have hle := ih _ (by omega) stale_zeros hnul' (streamReads_iff.mp hos')
          (fun o ho => hos o (List.mem_cons_of_mem _ ho)) rfl
        rw [if_pos h2, List.length_cons, List.length_cons]
        omega
      | none =>
        obtain ⟨buf', offset', hst', hiff⟩ := hnone hout
        have hle := ih _ (by omega) hst' hnul' ((hiff os).mp h) hos rfl
        split_ifs
        · rw [List.length_cons]
          omega
        · exact hle
    · have hlen : (textOf rest).length < readByteCountOnce := by
        rw [← List.append_nil rest] at h
        exact (h.storable hst hopen (hnul.open hopen)).1
      rw [(finish_open le_rfl hst hopen hlen offset os).mp h]
      exact Nat.zero_le _

/-- **Only lines that meet their conditions** are returned as they are. -/
theorem linesOk_of_finish {l : Left} {buf rest : List UInt8} (hst : Stale l buf) (hnul : AllNoNul rest) {offset : ℕ}
    (h : Finish readByteCountOnce buf offset rest (sdLines rest)) : LinesOk l (rest.splitOnP isNewline) := by
  induction hn : rest.length using Nat.strong_induction_on generalizing rest l buf offset with
  | _ n ih =>
    obtain ⟨r, rest', rfl, hr⟩ | hopen := line_or_open rest
    · obtain ⟨hnulr, hnul'⟩ := hnul.line hr
      have hlt := length_rest_lt r rest' (ascii '\n')
      have hstore := (h.storable hst hr hnulr).2 rfl
      obtain ⟨hsome, hnone⟩ := finish_line le_rfl hst hr hstore hnulr offset rest'
      have hnl : ∀ o ∈ sdLines (r ++ ascii '\n' :: rest'), ascii '\n' ∉ o := fun o ho => newline_not_mem_sdLines ho
      rw [linesOk_line hr]
      rw [sdLines_line hr] at h hnl
      by_cases hline : LineOk l r
      · refine ⟨hline, ?_⟩
        obtain ⟨hout, hnext⟩ := outcome_of_lineOk hline
        by_cases h2 : 2 ≤ (sdLine r).length
        · rw [if_pos h2] at hout h
          obtain ⟨os', heq, hos'⟩ := (hsome _ hout _).mp h
          rw [hnext h2]
          rw [← (List.cons.inj heq).2] at hos'
          exact ih _ (by omega) stale_zeros hnul' (streamReads_iff.mp hos') rfl
        · rw [if_neg h2] at hout h
          obtain ⟨buf', offset', hst', hiff⟩ := hnone hout
          exact ih _ (by omega) hst' hnul' ((hiff _).mp h) rfl
      · exfalso
        obtain ⟨o, hout, hbad⟩ | ⟨hout, h2⟩ := outcome_of_not_lineOk hstore hnulr hline
        · obtain ⟨os', heq, -⟩ := (hsome o hout _).mp h
          rw [heq] at hnl
          obtain ⟨h2, hne⟩ := hbad.resolve_left (hnl o List.mem_cons_self)
          rw [if_pos h2] at heq
          exact hne (List.cons.inj heq).1.symm
        · -- a command is left out, and the rest has none to spare
          obtain ⟨buf', offset', hst', hiff⟩ := hnone hout
          have hle := finish_length_le hst' hnul' ((hiff _).mp h) hnl
          rw [if_pos h2, List.length_cons] at hle
          omega
    · have hlen : (textOf rest).length < readByteCountOnce := by
        rw [← List.append_nil rest] at h
        exact (h.storable hst hopen (hnul.open hopen)).1
      have hnil := (finish_open le_rfl hst hopen hlen offset _).mp h
      rw [sdLines_open hopen] at hnil
      rw [splitOnP_open hopen, LinesOk]
      by_contra hge
      rw [if_pos (not_lt.mp hge)] at hnil
      simp at hnil

/-- **The lines of a file** are what the calls return exactly when they meet their conditions. -/
theorem streamReads_lines_iff (content : List UInt8) :
    (∀ once, readByteCountOnce ≤ once → StreamReads once content (sdLines content)) ↔
      LinesOk ⟨false, false⟩ (content.splitOnP isNewline) := by
  constructor
  · intro h
    have hreads := h readByteCountOnce le_rfl
    exact linesOk_of_finish stale_zeros hreads.noNul (streamReads_iff.mp hreads)
  · intro h once honce
    exact streamReads_iff.mpr (finish_of_linesOk honce stale_zeros h 0)

end Runs

/-! ## Descriptor 0 -/

section Descriptor

variable {once : ℕ}

/-- The commands that calls of `GcodeFileGetCmd` on descriptor 0 return, with cleared buffers, up to the first that
returns none; none of them writes outside its buffer. -/
inductive Reads (once : ℕ) : Files → List (List UInt8) → Prop
  | last {s : Files} {r : Files × Parser × ℤ} : GcodeFileGetCmd once s 0 zeros r → r.2.1.outside = false →
      r.2.2 ≤ 0 → Reads once s []
  | next {s : Files} {r : Files × Parser × ℤ} {os : List (List UInt8)} : GcodeFileGetCmd once s 0 zeros r →
      r.2.1.outside = false → 0 < r.2.2 → Reads once r.1 os → Reads once s (str r.2.1.buf :: os)

theorem write_flag (p : Parser) (i : ℤ) (byte : UInt8) : (p.write i byte).flag = p.flag := by
  unfold Parser.write
  split_ifs <;> rfl

theorem loop_flag (count parsed : ℕ) (p : Parser) (temp : List UInt8)
    (h : (getRealCmdLoop count parsed p temp).cmdComplete = true) :
    (getRealCmdLoop count parsed p temp).parser.flag = true := by
  induction temp generalizing count parsed p with
  | nil => exact absurd h Bool.false_ne_true
  | cons b temp ih =>
    unfold getRealCmdLoop at h ⊢
    split_ifs at h ⊢ with hsemi hflag hnl hnl
    · exact ih _ _ _ h
    · rfl
    · exact ih _ _ _ h
    · show ((p.write count b).write ((count : ℤ) - 1) 0).flag = true
      rw [write_flag, write_flag]
      simpa using hflag
    · exact ih _ _ _ h

theorem streamRead_flag (p : Parser) (offset : ℕ) (rest : List UInt8) (h : (streamRead once p offset rest).ret ≠ 0) :
    (streamRead once p offset rest).parser.flag = true := by
  induction hn : rest.length using Nat.strong_induction_on generalizing p offset rest with
  | _ n ih =>
    by_cases hrest : rest.take once = []
    · rw [streamRead_end hrest] at h
      exact absurd rfl h
    · have hlt := drop_parsed_lt p hrest
      rw [streamRead_pass hrest] at h ⊢
      dsimp only at h ⊢
      split_ifs at h ⊢ with hdone
      · show (Parser.terminate _).flag = true
        unfold Parser.terminate
        rw [write_flag]
        exact loop_flag _ _ _ _ hdone.1
      · exact ih _ (by omega) _ _ _ h rfl

/-- The state after a call that returns a command. -/
theorem afterRead_of_ne {s : Files} {r : ReadResult} (h : r.ret ≠ 0) : afterRead s r = addParsed s r.parsed := if_neg h

/-- **Descriptor 0 returns the commands of its stream.** -/
theorem reads_iff {s : Files} {content : List UInt8} (hos : s.os (s.info 0).fd = some content) (hflag : s.flag = true)
    {os : List (List UInt8)} :
    Reads once s os ↔ StreamReads once (content.drop (s.info 0).parseByteCount) os := by
  constructor
  · intro h
    induction h with
    | last hr hout hret =>
      rw [gcodeFileGetCmd_iff hos, hflag] at hr
      rw [hr] at hout hret
      exact .last hout (by simpa using hret)
    | @next s r os hr hout hret _ ih =>
      rw [gcodeFileGetCmd_iff hos, hflag] at hr
      generalize hc : streamRead once ⟨true, zeros, false⟩ 0 (content.drop (s.info 0).parseByteCount) = c at hr
      dsimp only at hr
      rw [hr] at hout hret ih ⊢
      have hne : c.ret ≠ 0 := by
        intro h0
        rw [h0] at hret
        exact absurd hret (lt_irrefl 0)
      have hclear : c.parser.flag = true := by
        rw [← hc] at hne ⊢
        exact streamRead_flag _ _ _ hne
      rw [afterRead_of_ne hne] at ih
      have hrest := ih (by simpa using hos) hclear
      subst hc
      refine .next hout hne ?_
      rw [List.drop_drop]
      simpa using hrest
  · -- the induction is on the rest of the file, which each call leaves at the slot's position
    intro h
    generalize hrest : content.drop (s.info 0).parseByteCount = rest at h
    induction h generalizing s with
    | last hout hret =>
      refine .last ((gcodeFileGetCmd_iff hos zeros _).mpr rfl) ?_ ?_
      · rw [hflag, hrest]
        exact hout
      · rw [hflag, hrest, hret]
        exact le_rfl
    | @next rest os hout hret _ ih =>
      generalize hc : streamRead once ⟨true, zeros, false⟩ 0 rest = c at hout hret ih ⊢
      have hclear : c.parser.flag = true := by
        rw [← hc] at hret ⊢
        exact streamRead_flag _ _ _ hret
      have hr := (@gcodeFileGetCmd_iff once s content hos zeros _).mpr rfl
      rw [hflag, hrest, hc, afterRead_of_ne hret] at hr
      refine .next hr hout (Int.natCast_pos.mpr (Nat.pos_of_ne_zero hret)) (ih (by simpa using hos) hclear ?_)
      rw [← hrest, List.drop_drop]
      simp

/-- **The lines of a file** are what the calls of `GcodeFileGetCmd` on descriptor 0 return, whatever the chunk length,
exactly when they meet their conditions. -/
theorem reads_lines_iff {s : Files} {content : List UInt8} (hos : s.os (s.info 0).fd = some content)
    (hstart : (s.info 0).parseByteCount = 0) (hflag : s.flag = true) :
    (∀ once, readByteCountOnce ≤ once → Reads once s (sdLines content)) ↔
      LinesOk ⟨false, false⟩ (content.splitOnP isNewline) := by
  rw [← streamReads_lines_iff]
  refine forall₂_congr fun once _ => ?_
  rw [reads_iff hos hflag, hstart, List.drop_zero]

/-- A file of one line, with its carriage return. -/
theorem reads_fileA : Reads readByteCountOnce openA.files [text "G28"] := by
  have hlines : fileA.splitOnP isNewline = [text "G28\r", []] := by decide
  have hok : LinesOk ⟨false, false⟩ (fileA.splitOnP isNewline) := by
    rw [hlines]
    simp [LinesOk, LineOk, Storable, NoNul, text, ascii, textOf, sdLine, readByteCountOnce]
  have hreads := (@reads_lines_iff openA.files fileA rfl rfl rfl).mpr hok readByteCountOnce le_rfl
  have hcmd : sdLines fileA = [text "G28"] := by decide
  rwa [hcmd] at hreads

/-- A line that ends in a newline only. -/
def unixLine : List UInt8 := text "G28\n"

/-- Its file is open. -/
def openUnix : Files := (gcodeFileOpen initFiles (text "/u") 3 unixLine).1

/-- **The last character of the line is lost**: the zero that ends the command is put over the byte before the
newline. -/
theorem unixLine_cut : sdLines unixLine = [text "G28"] ∧ Reads readByteCountOnce openUnix [text "G2"] ∧
    ¬ ∀ once, readByteCountOnce ≤ once → Reads once openUnix (sdLines unixLine) := by
  have hlines : unixLine.splitOnP isNewline = [text "G28", []] := by decide
  refine ⟨by decide, (reads_iff rfl rfl).mpr ?_, fun h => ?_⟩
  · have hfirst : streamRead readByteCountOnce ⟨true, zeros, false⟩ 0 unixLine =
        ⟨⟨true, text "G2" ++ 0 :: ascii '\n' :: List.replicate 46 0, false⟩, 4, 3⟩ := by
      rw [streamRead_done (by decide) (by decide)]
      decide
    have hsecond : StreamReads readByteCountOnce (unixLine.drop 4) [] := by
      refine .last ?_ ?_ <;> rw [streamRead_end (by decide)]
    have hnext := @StreamReads.next readByteCountOnce unixLine [] (by rw [hfirst]) (by rw [hfirst]; decide)
      (by rw [hfirst]; exact hsecond)
    rw [hfirst] at hnext
    exact hnext
  · have hok := (streamReads_lines_iff unixLine).mp fun once honce => (reads_iff rfl rfl).mp (h once honce)
    rw [hlines] at hok
    simp [LinesOk, LineOk, text, ascii] at hok

end Descriptor

end Cxsw.SdFile
