import Cxsw.Lib.Decoder
import Cxsw.Chelper.Crc16

/-!
# Cxsw.Chelper.MsgBlock — message blocks (`msgblock.c`, `serialqueue.c`, `src/command.c`, `klippy/msgproto.py`)

A block is its length, its sequence number, the payload, two bytes of checksum and `MESSAGE_SYNC`.  Three functions look
for one at the head of their input, with the same tests in the same order: `msgblock_check`, `command_find_block` and
`check_packet`.  What is not a block is skipped up to the next `MESSAGE_SYNC`.

* `blockVerdict`: the tests.  `frame`: how a block is made.
* `commandFindBlock`, `msgblockCheck`, `checkPacket`: the functions; `inputEvent`, `consoleTask`: the loops around the
  first two.
* `framing_agrees`: both sides find the same blocks in a stream of bytes, however it arrives.
* `damage_unseen_iff`: which damage to two adjacent bytes of a block goes through.
-/

namespace Cxsw.Link

/-! ## The code -/

section Defs

def messageMin : ℕ := 5
def messageMax : ℕ := 64
def messageHeaderSize : ℕ := 2
def messageTrailerSize : ℕ := 3
def messageDest : UInt8 := 0x10
def messageSeqMask : UInt8 := 0x0f
def messageSync : UInt8 := 0x7e

/-- What the tests of a block say: more data is needed, there is no block, or there is one of so many bytes. -/
inductive Verdict
  | more
  | bad
  | good (msglen : ℕ)
  deriving DecidableEq

/-- The tests at the head of a buffer.  `crcOk` compares the checksum of the first bytes with the two that were sent. -/
def blockVerdict (crcOk : List UInt8 → UInt8 → UInt8 → Bool) (buf : List UInt8) : Verdict :=
  if buf.length < messageMin then .more
  else
    let msglen := (buf.getD 0 0).toNat
    if msglen < messageMin ∨ messageMax < msglen then .bad
    else if buf.getD 1 0 &&& ~~~messageSeqMask ≠ messageDest then .bad
    else if buf.length < msglen then .more
    else if buf.getD (msglen - 1) 0 ≠ messageSync then .bad
    else if crcOk (buf.take (msglen - 3)) (buf.getD (msglen - 3) 0) (buf.getD (msglen - 2) 0) then .good msglen
    else .bad

/-- `crc == msgcrc`. -/
def crcOk (body : List UInt8) (hi lo : UInt8) : Bool := msgblockCrc16Ccitt body = (hi.toUInt16 <<< 8) ||| lo.toUInt16

/-- Discard bytes until the next `MESSAGE_SYNC` found: whether it is still wanted, and how many bytes. -/
def skipToSync (buf : List UInt8) : Bool × ℕ :=
  match buf.findIdx? (· = messageSync) with
  | some nextSync => (false, nextSync + 1)
  | none => (true, buf.length)

/-- `msgblock_check`: `need_sync` and the result, the negative of what is to be skipped where there is no block. -/
def msgblockCheck (needSync : Bool) (buf : List UInt8) : Bool × ℤ :=
  let error := ((skipToSync buf).1, -((skipToSync buf).2 : ℤ))
  if buf.length < messageMin then (needSync, 0)
  else if needSync then error
  else
    match blockVerdict crcOk buf with
    | .more => (needSync, 0)
    | .bad => error
    | .good msglen => (needSync, msglen)

/-- The loop of `input_event` over the buffer: `need_sync` and the rest, and the messages handled.  Every round takes
bytes, so the fuel is that of one round for each. -/
def inputLoop : ℕ → Bool → List UInt8 → (Bool × List UInt8) × List (List UInt8)
  | 0, needSync, inputBuf => ((needSync, inputBuf), [])
  | fuel + 1, needSync, inputBuf =>
    let r := msgblockCheck needSync inputBuf
    if r.2 = 0 then ((r.1, inputBuf), [])
    else if r.2 > 0 then
      let next := inputLoop fuel r.1 (inputBuf.drop r.2.toNat)
      (next.1, inputBuf.take r.2.toNat :: next.2)
    else inputLoop fuel r.1 (inputBuf.drop (-r.2).toNat)

/-- `input_event`: the bytes read go behind those that are held. -/
def inputEvent (s : Bool × List UInt8) (read : List UInt8) : (Bool × List UInt8) × List (List UInt8) :=
  inputLoop ((s.2 ++ read).length + 1) s.1 (s.2 ++ read)

/-- `sync_state` of `command_find_block`. -/
structure SyncState where
  needSync : Bool
  needValid : Bool
  deriving DecidableEq

/-- What `command_find_block` finds. -/
inductive Found
  /-- A block of so many bytes that passes the tests, before its sequence number is looked at. -/
  | block (msglen : ℕ)
  /-- `return 0`. -/
  | none
  /-- `return -1`, with or without a nak. -/
  | skip (nak : Bool)
  deriving DecidableEq

/-- The part of `command_find_block` before the check of the sequence number: `sync_state`, `pop_count`, what is
found. -/
def commandFindBlock (s : SyncState) (buf : List UInt8) : SyncState × ℕ × Found :=
  let needSync (s : SyncState) :=
    ({ needSync := (skipToSync buf).1, needValid := true : SyncState }, (skipToSync buf).2, Found.skip !s.needValid)
  if buf ≠ [] ∧ s.needSync then needSync s
  else
    match blockVerdict crcOk buf with
    | .more => (s, 0, .none)
    | .bad => if buf.getD 0 0 = messageSync then (s, 1, .skip false) else needSync { s with needSync := true }
    | .good msglen => ({ s with needValid := false }, msglen, .block msglen)

/-- What comes out of a stream. -/
inductive Received
  | block (bytes : List UInt8)
  /-- The stream is out of step for the first time since the last block. -/
  | nak
  deriving DecidableEq

def Received.bytes? : Received → Option (List UInt8)
  | .block bytes => some bytes
  | .nak => none

/-- `console_task` again and again, as `console_pop_input` wakes it while there are bytes: `sync_state` and the bytes
that are left, the blocks found and the naks sent. -/
def consoleLoop : ℕ → SyncState → List UInt8 → (SyncState × List UInt8) × List Received
  | 0, s, receiveBuf => ((s, receiveBuf), [])
  | fuel + 1, s, receiveBuf =>
    let r := commandFindBlock s receiveBuf
    let next := consoleLoop fuel r.1 (receiveBuf.drop r.2.1)
    match r.2.2 with
    | .none => ((r.1, receiveBuf), [])
    | .skip nak => (next.1, (if nak then [.nak] else []) ++ next.2)
    | .block msglen => (next.1, .block (receiveBuf.take msglen) :: next.2)

/-- The bytes that arrive until `console_task` is at rest again.  They come between its loops; that the interrupt adds
some during one is left out. -/
def consoleTask (s : SyncState × List UInt8) (arrived : List UInt8) : (SyncState × List UInt8) × List Received :=
  consoleLoop ((s.2 ++ arrived).length + 1) s.1 (s.2 ++ arrived)

namespace MsgProto

/-- The comparison of `check_packet`. -/
def crcOk (body : List UInt8) (hi lo : UInt8) : Bool := crc16Ccitt body = [hi.toNat, lo.toNat]

/-- `check_packet`. -/
def checkPacket (s : List UInt8) : ℤ :=
  match blockVerdict crcOk s with
  | .more => 0
  | .bad => -1
  | .good msglen => msglen

end MsgProto

/-- A block around a payload, as `build_and_send_command`, `command_add_frame` and `encode` in Python make it. -/
def frame (seq : UInt8) (payload : List UInt8) : List UInt8 :=
  let head := UInt8.ofNat (messageMin + payload.length) :: seq :: payload
  let crc := msgblockCrc16Ccitt head
  head ++ [(crc >>> 8).toUInt8, crc.toUInt8, messageSync]

/-- A block that passes the tests, with nothing behind it. -/
def Valid (block : List UInt8) : Prop := blockVerdict crcOk block = .good block.length

instance (block : List UInt8) : Decidable (Valid block) := inferInstanceAs (Decidable (_ = _))

end Defs

/-! ## The verdict -/

section Verdicts

variable {crcOk : List UInt8 → UInt8 → UInt8 → Bool} {buf block : List UInt8} {msglen : ℕ}

theorem blockVerdict_eq_good_iff :
    blockVerdict crcOk buf = .good msglen ↔
      messageMin ≤ buf.length ∧ (buf.getD 0 0).toNat = msglen ∧ messageMin ≤ msglen ∧ msglen ≤ messageMax ∧
        buf.getD 1 0 &&& ~~~messageSeqMask = messageDest ∧ msglen ≤ buf.length ∧
        buf.getD (msglen - 1) 0 = messageSync ∧
        crcOk (buf.take (msglen - 3)) (buf.getD (msglen - 3) 0) (buf.getD (msglen - 2) 0) := by
  unfold blockVerdict
  simp only
  split_ifs with h1 h2 h3 h4 h5 h6
  · simp only [false_iff]
    omega
  · simp only [false_iff]
    omega
  · simp only [false_iff]
    tauto
  · simp only [false_iff]
    omega
  · simp only [false_iff]
    rintro ⟨-, rfl, -, -, -, -, hsync, -⟩
    exact h5 hsync
  · simp only [Verdict.good.injEq]
    constructor
    · rintro rfl
      exact ⟨by omega, rfl, by omega, by omega, not_not.mp h3, by omega, not_not.mp h5, h6⟩
    · exact fun h => h.2.1
  · simp only [false_iff]
    rintro ⟨-, rfl, -, -, -, -, -, hcrc⟩
    exact h6 hcrc

theorem good_bounds (h : blockVerdict crcOk buf = .good msglen) : 5 ≤ msglen ∧ msglen ≤ 64 ∧ msglen ≤ buf.length := by
  obtain ⟨-, -, h1, h2, -, h3, -⟩ := blockVerdict_eq_good_iff.mp h
  exact ⟨h1, h2, h3⟩

theorem blockVerdict_short (h : buf.length < 5) : blockVerdict crcOk buf = .more := if_pos h

/-- **More data does not change a verdict** that did not ask for it. -/
theorem blockVerdict_append (h : blockVerdict crcOk buf ≠ .more) (ys : List UInt8) :
    blockVerdict crcOk (buf ++ ys) = blockVerdict crcOk buf := by
  have hget : ∀ i < buf.length, (buf ++ ys).getD i 0 = buf.getD i 0 := by
    intro i hi
    simp only [List.getD_eq_getElem?_getD, List.getElem?_append_left hi]
  have hmin : ¬ buf.length < messageMin := fun hlt => h (if_pos hlt)
  have h5 : messageMin = 5 := rfl
  have hmin' : ¬ (buf ++ ys).length < messageMin := by
    rw [List.length_append]
    omega
  unfold blockVerdict at h ⊢
  rw [if_neg hmin] at h ⊢
  rw [if_neg hmin', hget 0 (by omega), hget 1 (by omega)]
  simp only at h ⊢
  by_cases hlen : (buf.getD 0 0).toNat < messageMin ∨ messageMax < (buf.getD 0 0).toNat
  · rw [if_pos hlen, if_pos hlen]
  · rw [if_neg hlen] at h ⊢
    rw [if_neg hlen]
    by_cases hdest : buf.getD 1 0 &&& ~~~messageSeqMask ≠ messageDest
    · rw [if_pos hdest, if_pos hdest]
    · rw [if_neg hdest] at h ⊢
      rw [if_neg hdest]
      have hroom : ¬ buf.length < (buf.getD 0 0).toNat := fun hlt => h (if_pos hlt)
      -- all bytes of the block are there
      rw [if_neg hroom, if_neg (by rw [List.length_append]; omega), hget _ (by omega), hget _ (by omega),
        hget _ (by omega), List.take_append_of_le_length (by omega)]

theorem verdict_valid (h : Valid block) (ys : List UInt8) : blockVerdict Link.crcOk
    (block ++ ys) = .good block.length := by
  unfold Valid at h
  rw [blockVerdict_append (by rw [h]; exact Verdict.noConfusion), h]

theorem crcOk_eq (body : List UInt8) (hi lo : UInt8) :
    Link.crcOk body hi lo = true ↔ crcRegister.run (0xff, 0xff) body = (hi, lo) := by
  rw [Link.crcOk, decide_eq_true_iff, eq_joined_iff, bytesOf_crc]

/-- **Python's comparison** is the same. -/
theorem MsgProto.crcOk_eq : MsgProto.crcOk = Link.crcOk := by
  funext body hi lo
  rw [Bool.eq_iff_iff, Link.crcOk_eq, ← bytesOf_crc, MsgProto.crcOk, decide_eq_true_iff, MsgProto.crc16Ccitt_eq]
  simp [Prod.ext_iff, UInt8.toNat_inj]

end Verdicts

/-! ## Skipping -/

section Skipping

variable {buf rest : List UInt8} {b : UInt8}

theorem skipToSync_nil : skipToSync [] = (true, 0) := rfl

theorem skipToSync_sync (rest : List UInt8) : skipToSync (messageSync :: rest) = (false, 1) := by
  unfold skipToSync
  rw [List.findIdx?_cons]
  simp

theorem skipToSync_of_ne (hb : b ≠ messageSync) (rest : List UInt8) :
    skipToSync (b :: rest) = ((skipToSync rest).1, (skipToSync rest).2 + 1) := by
  unfold skipToSync
  rw [List.findIdx?_cons]
  simp only [hb, decide_false, Bool.false_eq_true, if_false]
  cases rest.findIdx? (· = messageSync) with
  | none => rfl
  | some i => rfl

theorem skipToSync_pos (h : buf ≠ []) : 0 < (skipToSync buf).2 := by
  cases buf with
  | nil => exact absurd rfl h
  | cons b rest =>
    by_cases hb : b = messageSync
    · rw [hb, skipToSync_sync]
      exact Nat.one_pos
    · rw [skipToSync_of_ne hb]
      exact Nat.succ_pos _

end Skipping

/-! ## Blocks that pass, and damage to them -/

section Damage

variable {p q t payload : List UInt8} {x y x' y' a b c seq : UInt8}

theorem valid_iff :
    Valid (t ++ [a, b, c]) ↔ 2 ≤ t.length ∧ t.length ≤ 61 ∧ (t.getD 0 0).toNat = t.length + 3 ∧
      t.getD 1 0 &&& ~~~messageSeqMask = messageDest ∧ c = messageSync ∧ crcRegister.run (0xff, 0xff) t = (a, b) := by
  have hlen : (t ++ [a, b, c]).length = t.length + 3 := by simp
  have hlast : (t ++ [a, b, c]).getD (t.length + 3 - 1) 0 = c := by simp
  have hhi : (t ++ [a, b, c]).getD (t.length + 3 - 3) 0 = a := by simp
  have hlo : (t ++ [a, b, c]).getD (t.length + 3 - 2) 0 = b := by simp
  have hbody : (t ++ [a, b, c]).take (t.length + 3 - 3) = t := by simp
  have hfirst : 2 ≤ t.length → ∀ i < 2, (t ++ [a, b, c]).getD i 0 = t.getD i 0 := by
    intro h2 i hi
    simp only [List.getD_eq_getElem?_getD, List.getElem?_append_left (show i < t.length by omega)]
  unfold Valid
  rw [blockVerdict_eq_good_iff, hlen, hlast, hhi, hlo, hbody, crcOk_eq]
  have hmin : messageMin = 5 := rfl
  have hmax : messageMax = 64 := rfl
  constructor
  · rintro ⟨-, h0, h5, h64, h1, -, hc, hrun⟩
    have h2 : 2 ≤ t.length := by omega
    rw [hfirst h2 0 (by omega)] at h0
    rw [hfirst h2 1 (by omega)] at h1
    exact ⟨h2, by omega, h0, h1, hc, hrun⟩
  · rintro ⟨h2, h61, h0, h1, hc, hrun⟩
    rw [hfirst h2 0 (by omega), hfirst h2 1 (by omega)]
    exact ⟨by omega, h0, by omega, by omega, h1, le_refl _, hc, hrun⟩

theorem valid_concat_iff {v : List UInt8} :
    Valid (v ++ [c]) ↔ 4 ≤ v.length ∧ v.length ≤ 63 ∧ (v.getD 0 0).toNat = v.length + 1 ∧
      v.getD 1 0 &&& ~~~messageSeqMask = messageDest ∧ c = messageSync ∧ crcRegister.Codeword (0xff, 0xff) v := by
  by_cases h4 : 4 ≤ v.length
  · obtain ⟨t, a, b, rfl⟩ : ∃ t a b, v = t ++ [a, b] := by
      rcases List.eq_nil_or_concat v with rfl | ⟨v, b, rfl⟩
      · simp at h4
      rcases List.eq_nil_or_concat v with rfl | ⟨t, a, rfl⟩
      · simp at h4
      exact ⟨t, a, b, by simp⟩
    have h2 : 2 ≤ t.length := by simpa using h4
    have hget : ∀ i < 2, (t ++ [a, b]).getD i 0 = t.getD i 0 := by
      intro i hi
      simp only [List.getD_eq_getElem?_getD, List.getElem?_append_left (show i < t.length by omega)]
    rw [List.append_assoc, hget 0 (by omega), hget 1 (by omega), Checksum.Register.codeword_pair]
    change Valid (t ++ [a, b, c]) ↔ _
    rw [valid_iff]
    simp only [List.length_append, List.length_cons, List.length_nil]
    constructor <;> exact fun ⟨h1, h2, h3, h4⟩ => ⟨by omega, by omega, by omega, h4⟩
  · constructor
    · intro h
      have h5 := (good_bounds h).1
      rw [List.length_append] at h5
      exact absurd (Nat.le_of_succ_le_succ h5) h4
    · exact fun h => absurd h.1 h4

theorem frame_length (seq : UInt8) (payload : List UInt8) : (frame seq payload).length = payload.length + 5 := by
  unfold frame
  simp

/-- **What the senders make passes** the tests of the receivers. -/
theorem frame_valid (hlen : payload.length ≤ 59) (hseq : seq &&& ~~~messageSeqMask = messageDest) :
    Valid (frame seq payload) := by
  unfold frame
  simp only
  rw [valid_iff]
  have hmin : messageMin = 5 := rfl
  refine ⟨by simp, by simp only [List.length_cons]; omega, ?_, hseq, rfl, (bytesOf_crc _).symm⟩
  simp only [List.getD_cons_zero, UInt8.toNat_ofNat', List.length_cons]
  omega

/-- The difference at the last byte of the contents goes with one at the first byte of the checksum. -/
theorem low_high_iff {r : UInt8} (hy : y = crcRegister.high (crcRegister.mix r x)) :
    (crcRegister.low (crcRegister.mix r x') = crcRegister.low (crcRegister.mix r x) ∧
        y' = crcRegister.high (crcRegister.mix r x')) ↔
      (x' = x ∧ y' = y) ∨ (x' = x ^^^ 0x91 ∧ y' = y ^^^ 0x85) := by
  have hlow : crcRegister.low (crcRegister.mix r x') = crcRegister.low (crcRegister.mix r x) ↔
      x' = x ∨ x' = x ^^^ 0x91 := by
    refine (crc_low_eq_iff (r ^^^ x) (r ^^^ x')).trans (or_congr (UInt8.xor_right_inj r) ?_)
    rw [UInt8.xor_assoc, UInt8.xor_right_inj]
  rw [hlow, hy]
  constructor
  · rintro ⟨rfl | rfl, hy'⟩
    · exact Or.inl ⟨rfl, hy'⟩
    · refine Or.inr ⟨rfl, hy'.trans ?_⟩
      exact (congrArg crcHigh (UInt8.xor_assoc r x 0x91).symm).trans (crcHigh_blind (r ^^^ x))
  · rintro (⟨rfl, rfl⟩ | ⟨rfl, rfl⟩)
    · exact ⟨Or.inl rfl, rfl⟩
    · refine ⟨Or.inr rfl, ?_⟩
      exact ((congrArg crcHigh (UInt8.xor_assoc r x 0x91).symm).trans (crcHigh_blind (r ^^^ x))).symm

/-- **Damage to two adjacent bytes** behind the length of a block is seen, but for one pattern: the last byte of the
payload differs by `0x91`, and the first byte of the checksum by `0x85`. -/
theorem damage_unseen_iff (hp : p ≠ []) (h : Valid (p ++ [x, y] ++ q)) :
    Valid (p ++ [x', y'] ++ q) ↔
      (x' = x ∧ y' = y) ∨ (q.length = 2 ∧ 2 ≤ p.length ∧ x' = x ^^^ 0x91 ∧ y' = y ^^^ 0x85) := by
  rcases List.eq_nil_or_concat q with rfl | ⟨q, c, rfl⟩
  · -- the last byte of the checksum and the sign at the end
    rcases List.eq_nil_or_concat p with rfl | ⟨t, a, rfl⟩
    · exact absurd rfl hp
    have hshape : ∀ x y, t.concat a ++ [x, y] ++ [] = t ++ [a, x, y] := by simp
    rw [hshape] at h ⊢
    obtain ⟨h1, h2, h3, h4, h5, h6⟩ := valid_iff.mp h
    rw [valid_iff, h6, h5]
    constructor
    · rintro ⟨-, -, -, -, hy, hx⟩
      exact Or.inl ⟨(Prod.mk.inj hx).2.symm, hy⟩
    · rintro (⟨rfl, rfl⟩ | ⟨hq, -⟩)
      · exact ⟨h1, h2, h3, h4, rfl, rfl⟩
      · simp at hq
  · have hshape : ∀ x y, p ++ [x, y] ++ q.concat c = p ++ [x, y] ++ q ++ [c] := by simp
    have hfirst : ∀ i < p.length, ∀ x y, (p ++ [x, y] ++ q).getD i 0 = p.getD i 0 := by
      intro i hi x y
      rw [List.append_assoc]
      simp only [List.getD_eq_getElem?_getD, List.getElem?_append_left hi]
    have hpos : 0 < p.length := List.length_pos_of_ne_nil hp
    have hq : (q.concat c).length = q.length + 1 := by simp
    rw [hshape] at h ⊢
    obtain ⟨h1, h2, h3, h4, h5, h6⟩ := valid_concat_iff.mp h
    have hlen : (p ++ [x', y'] ++ q).length = (p ++ [x, y] ++ q).length := by simp
    rw [hfirst 0 hpos] at h3
    rw [valid_concat_iff, hlen, hfirst 0 hpos, Checksum.Register.codeword_pair_iff h6, hq]
    constructor
    · rintro ⟨-, -, -, hdest, -, ⟨rfl, rfl⟩ | ⟨hlast, hlow⟩⟩
      · exact Or.inl ⟨rfl, rfl⟩
      · obtain ⟨z, rfl⟩ := List.length_eq_one_iff.mp hlast
        have hsum : p ++ [x, y] ++ [z] = p ++ [x] ++ [y, z] := by simp
        rw [hsum, Checksum.Register.codeword_pair, Checksum.Register.run_append] at h6
        refine ((low_high_iff (Prod.mk.inj h6).1.symm).mp hlow).imp id fun hd => ⟨by simp, ?_, hd⟩
        -- in a block without payload the byte before the checksum is the sequence number
        by_contra hshort
        obtain ⟨l, rfl⟩ := List.length_eq_one_iff.mp (show p.length = 1 by omega)
        obtain ⟨rfl, rfl⟩ := hd
        have hmoved : ∀ x : UInt8, x &&& ~~~messageSeqMask = messageDest →
            (x ^^^ 0x91) &&& ~~~messageSeqMask ≠ messageDest := CString.forall_uint8 (by decide +kernel)
        exact hmoved x h4 hdest
    · rintro (⟨rfl, rfl⟩ | ⟨hlast, hp2, hd⟩)
      · exact ⟨h1, h2, h3, h4, h5, Or.inl ⟨rfl, rfl⟩⟩
      · have hone : q.length = 1 := by omega
        obtain ⟨z, rfl⟩ := List.length_eq_one_iff.mp hone
        have hsum : p ++ [x, y] ++ [z] = p ++ [x] ++ [y, z] := by simp
        rw [hsum, Checksum.Register.codeword_pair, Checksum.Register.run_append] at h6
        refine ⟨h1, h2, h3, ?_, h5, Or.inr ⟨hone, (low_high_iff (Prod.mk.inj h6).1.symm).mpr (Or.inr hd)⟩⟩
        rw [hfirst 1 hp2] at h4 ⊢
        exact h4

/-- A block with one byte of payload, damaged at that byte and the next one. -/
theorem damage_unseen_iff_concreteCase : Valid ([6, 16] ++ [148, 168] ++ [214, 126]) :=
  (damage_unseen_iff (x := 5) (y := 45) (by decide) (by decide +kernel)).mpr (Or.inr (by decide))

/-- Python's check and that of the host say the same of what is at the head of a buffer. -/
theorem MsgProto.checkPacket_eq (s : List UInt8) :
    MsgProto.checkPacket s = (msgblockCheck false s).2 ∨
      (MsgProto.checkPacket s = -1 ∧ (msgblockCheck false s).2 < 0) := by
  unfold MsgProto.checkPacket msgblockCheck
  rw [MsgProto.crcOk_eq]
  by_cases hlen : s.length < messageMin
  · rw [blockVerdict_short hlen]
    exact Or.inl (by simp [hlen])
  · simp only [hlen, if_false, Bool.false_eq_true]
    cases blockVerdict Link.crcOk s with
    | more => exact Or.inl rfl
    | good msglen => exact Or.inl rfl
    | bad =>
      refine Or.inr ⟨rfl, ?_⟩
      have hne : s ≠ [] := by
        rintro rfl
        exact hlen (by decide)
      have := skipToSync_pos hne
      simp only
      omega

end Damage

/-! ## The decoder of a stream -/

section Decoders

variable {buf rest : List UInt8} {s : SyncState} {b : UInt8}

/-- A stream is decoded byte by byte where it is out of step, and block by block where it is not. -/
def mcuDecoder : Decoder SyncState UInt8 Received where
  next s buf :=
    match buf with
    | [] => none
    | b :: rest =>
      let lost : Option Received := if s.needValid then none else some .nak
      if s.needSync then some (⟨decide (b ≠ messageSync), true⟩, 1, lost)
      else
        match blockVerdict crcOk (b :: rest) with
        | .more => none
        | .bad => if b = messageSync then some (s, 1, none) else some (⟨true, true⟩, 1, lost)
        | .good msglen => some (⟨false, false⟩, msglen, some (.block ((b :: rest).take msglen)))
  progress := by
    rintro s (_ | ⟨b, rest⟩) s' n o h
    · simp at h
    · simp only at h
      have h1 : (b :: rest).length = rest.length + 1 := rfl
      by_cases hs : s.needSync
      · rw [if_pos hs] at h
        cases h
        omega
      · rw [if_neg hs] at h
        cases hv : blockVerdict crcOk (b :: rest) with
        | more =>
          rw [hv] at h
          cases h
        | bad =>
          rw [hv] at h
          by_cases hb : b = messageSync
          · rw [if_pos hb] at h
            cases h
            omega
          · rw [if_neg hb] at h
            cases h
            omega
        | good msglen =>
          have := good_bounds hv
          rw [hv] at h
          cases h
          omega
  stable := by
    rintro s (_ | ⟨b, rest⟩) r h ys
    · simp at h
    · simp only [List.cons_append] at h ⊢
      by_cases hs : s.needSync
      · rw [if_pos hs] at h ⊢
        exact h
      · rw [if_neg hs] at h ⊢
        have hmore : blockVerdict crcOk (b :: rest) ≠ .more := by
          intro hv
          rw [hv] at h
          cases h
        rw [← List.cons_append, blockVerdict_append hmore]
        cases hv : blockVerdict crcOk (b :: rest) with
        | more => exact absurd hv hmore
        | bad =>
          rw [hv] at h
          exact h
        | good msglen =>
          rw [hv] at h
          simp only at h ⊢
          rw [List.take_append_of_le_length (good_bounds hv).2.2]
          exact h

/-- The same without the naks. -/
def hostDecoder : Decoder Bool UInt8 (List UInt8) where
  next needSync buf := (mcuDecoder.next ⟨needSync, false⟩ buf).map
    fun r => (r.1.needSync, r.2.1, r.2.2.bind Received.bytes?)
  progress := by
    intro s xs s' n o h
    obtain ⟨r, hr, he⟩ := Option.map_eq_some_iff.mp h
    cases he
    exact mcuDecoder.progress hr
  stable := by
    intro s xs r h ys
    obtain ⟨r', hr, he⟩ := Option.map_eq_some_iff.mp h
    rw [mcuDecoder.stable hr ys, ← he]
    rfl

theorem hostDecoder_next (s : SyncState) (xs : List UInt8) :
    hostDecoder.next s.needSync xs =
      (mcuDecoder.next s xs).map fun r => (r.1.needSync, r.2.1, r.2.2.bind Received.bytes?) := by
  cases xs with
  | nil => rfl
  | cons b rest =>
    obtain ⟨ns, nv⟩ := s
    cases ns with
    | true => cases nv <;> rfl
    | false =>
      simp only [hostDecoder, mcuDecoder]
      cases blockVerdict crcOk (b :: rest) with
      | more => rfl
      | bad =>
        by_cases hb : b = messageSync
        · simp [hb]
        · cases nv <;> simp [hb, Received.bytes?]
      | good msglen => rfl

end Decoders

/-! ## The loops follow the decoder -/

section Loops

variable {buf rest : List UInt8} {b : UInt8}

/-- **Skipping at once** is skipping byte by byte. -/
theorem run_skip (buf : List UInt8) :
    mcuDecoder.run ⟨true, true⟩ buf = mcuDecoder.run ⟨(skipToSync buf).1, true⟩ (buf.drop (skipToSync buf).2) := by
  induction buf with
  | nil => rw [skipToSync_nil, List.drop_nil]
  | cons b rest ih =>
    have hstep : mcuDecoder.next ⟨true, true⟩ (b :: rest) = some (⟨decide (b ≠ messageSync), true⟩, 1, none) := rfl
    rw [Decoder.run_of_skip hstep]
    by_cases hb : b = messageSync
    · simp [hb, skipToSync_sync]
    · rw [skipToSync_of_ne hb]
      simpa [hb] using ih

theorem run_skip_cons (b : UInt8) (rest : List UInt8) :
    mcuDecoder.run ⟨decide (b ≠ messageSync), true⟩ rest =
      mcuDecoder.run ⟨(skipToSync (b :: rest)).1, true⟩ ((b :: rest).drop (skipToSync (b :: rest)).2) := by
  by_cases hb : b = messageSync
  · simp [hb, skipToSync_sync]
  · rw [skipToSync_of_ne hb]
    simpa [hb] using run_skip rest

/-- **One call** of `command_find_block`, as steps of the decoder. -/
theorem commandFindBlock_run (s : SyncState) (buf : List UInt8) :
    match (commandFindBlock s buf).2.2 with
    | .none => (mcuDecoder.next s buf = none) ∧ (commandFindBlock s buf).1 = s
    | .skip nak => 0 < (commandFindBlock s buf).2.1 ∧ buf ≠ [] ∧
        mcuDecoder.run s buf =
          { mcuDecoder.run (commandFindBlock s buf).1 (buf.drop (commandFindBlock s buf).2.1) with
            outputs := (if nak then [.nak] else []) ++
              (mcuDecoder.run (commandFindBlock s buf).1 (buf.drop (commandFindBlock s buf).2.1)).outputs }
    | .block msglen => msglen = (commandFindBlock s buf).2.1 ∧
        mcuDecoder.next s buf = some ((commandFindBlock s buf).1, msglen, some (.block (buf.take msglen))) := by
  obtain ⟨ns, nv⟩ := s
  cases buf with
  | nil =>
    have hv : blockVerdict crcOk [] = .more := rfl
    simp only [commandFindBlock, hv]
    exact ⟨rfl, rfl⟩
  | cons b rest =>
    cases ns with
    | true =>
      have hstep : mcuDecoder.next ⟨true, nv⟩ (b :: rest) =
          some (⟨decide (b ≠ messageSync), true⟩, 1, if nv then none else some .nak) := rfl
      have hfind : commandFindBlock ⟨true, nv⟩ (b :: rest) =
          (⟨(skipToSync (b :: rest)).1, true⟩, (skipToSync (b :: rest)).2, .skip !nv) := by
        simp [commandFindBlock]
      rw [hfind]
      refine ⟨skipToSync_pos (List.cons_ne_nil b rest), List.cons_ne_nil b rest, ?_⟩
      rw [Decoder.run_of_some hstep, List.drop_one, List.tail_cons, run_skip_cons]
      cases nv <;> rfl
    | false =>
      have hfalse : ¬ (b :: rest ≠ [] ∧ (false : Bool) = true) := fun h => Bool.noConfusion h.2
      cases hv : blockVerdict crcOk (b :: rest) with
      | more =>
        have hfind : commandFindBlock ⟨false, nv⟩ (b :: rest) = (⟨false, nv⟩, 0, .none) := by
          simp only [commandFindBlock, hfalse, if_false, hv]
        rw [hfind]
        refine ⟨?_, rfl⟩
        simp [mcuDecoder, hv]
      | good msglen =>
        have hfind : commandFindBlock ⟨false, nv⟩ (b :: rest) = (⟨false, false⟩, msglen, .block msglen) := by
          simp only [commandFindBlock, hfalse, if_false, hv]
        rw [hfind]
        refine ⟨rfl, ?_⟩
        simp [mcuDecoder, hv]
      | bad =>
        by_cases hb : b = messageSync
        · have hfind : commandFindBlock ⟨false, nv⟩ (b :: rest) = (⟨false, nv⟩, 1, .skip false) := by
            simp only [commandFindBlock, hfalse, if_false, hv]
            simp [hb]
          have hstep : mcuDecoder.next ⟨false, nv⟩ (b :: rest) = some (⟨false, nv⟩, 1, none) := by
            simp only [mcuDecoder, Bool.false_eq_true, if_false, hv]
            rw [if_pos hb]
          rw [hfind]
          refine ⟨Nat.one_pos, List.cons_ne_nil b rest, ?_⟩
          rw [Decoder.run_of_some hstep]
          rfl
        · have hfind : commandFindBlock ⟨false, nv⟩ (b :: rest) =
              (⟨(skipToSync (b :: rest)).1, true⟩, (skipToSync (b :: rest)).2, .skip !nv) := by
            simp only [commandFindBlock, hfalse, if_false, hv]
            simp [hb]
          have hstep : mcuDecoder.next ⟨false, nv⟩ (b :: rest) =
              some (⟨decide (b ≠ messageSync), true⟩, 1, if nv then none else some .nak) := by
            simp [mcuDecoder, hv, hb]
          rw [hfind]
          refine ⟨skipToSync_pos (List.cons_ne_nil b rest), List.cons_ne_nil b rest, ?_⟩
          rw [Decoder.run_of_some hstep, List.drop_one, List.tail_cons, run_skip_cons]
          cases nv <;> rfl

/-- The loop of the firmware: it ends where the decoder waits, with its results. -/
theorem consoleLoop_run {fuel : ℕ} (s : SyncState) (buf : List UInt8) (h : buf.length < fuel) :
    mcuDecoder.next (consoleLoop fuel s buf).1.1 (consoleLoop fuel s buf).1.2 = none ∧
      mcuDecoder.run s buf =
        ⟨(consoleLoop fuel s buf).1.1, (consoleLoop fuel s buf).1.2, (consoleLoop fuel s buf).2⟩ := by
  induction fuel generalizing s buf with
  | zero => omega
  | succ fuel ih =>
    have hcall := commandFindBlock_run s buf
    rw [consoleLoop]
    cases hf : (commandFindBlock s buf).2.2 with
    | none =>
      rw [hf] at hcall
      obtain ⟨hnext, hs⟩ := hcall
      simp only [hs]
      exact ⟨hnext, Decoder.run_of_none hnext⟩
    | skip nak =>
      rw [hf] at hcall
      obtain ⟨hpos, hne, hrun⟩ := hcall
      have hlen : 0 < buf.length := List.length_pos_of_ne_nil hne
      obtain ⟨hrest, hdec⟩ := ih (commandFindBlock s buf).1 (buf.drop (commandFindBlock s buf).2.1)
        (by rw [List.length_drop]; omega)
      simp only
      refine ⟨hrest, ?_⟩
      rw [hrun, hdec]
    | block msglen =>
      rw [hf] at hcall
      obtain ⟨hpop, hnext⟩ := hcall
      have hpos := mcuDecoder.progress hnext
      obtain ⟨hrest, hdec⟩ := ih (commandFindBlock s buf).1 (buf.drop (commandFindBlock s buf).2.1)
        (by rw [List.length_drop]; omega)
      simp only
      refine ⟨hrest, ?_⟩
      rw [Decoder.run_of_some hnext, hpop, hdec]
      rfl

/-- The host's decoder on a stream is the firmware's without the naks. -/
theorem host_run_eq (s : SyncState) (xs : List UInt8) :
    hostDecoder.run s.needSync xs =
      ⟨(mcuDecoder.run s xs).state.needSync, (mcuDecoder.run s xs).rest,
        (mcuDecoder.run s xs).outputs.filterMap Received.bytes?⟩ := by
  have h := Decoder.run_map (π := SyncState.needSync) hostDecoder_next s xs
  exact h

/-- The same for the host, behind a byte of a stream that is out of step. -/
theorem host_run_skip_cons (b : UInt8) (rest : List UInt8) :
    hostDecoder.run (decide (b ≠ messageSync)) rest =
      hostDecoder.run (skipToSync (b :: rest)).1 ((b :: rest).drop (skipToSync (b :: rest)).2) := by
  have h1 := host_run_eq ⟨decide (b ≠ messageSync), true⟩ rest
  have h2 := host_run_eq ⟨(skipToSync (b :: rest)).1, true⟩ ((b :: rest).drop (skipToSync (b :: rest)).2)
  rw [run_skip_cons] at h1
  exact h1.trans h2.symm

theorem host_run_short (needSync : Bool) (buf : List UInt8) (h : buf.length < messageMin) :
    (hostDecoder.run needSync buf).outputs = [] := by
  induction buf generalizing needSync with
  | nil => rw [Decoder.run_of_none (show hostDecoder.next needSync [] = none from rfl)]
  | cons b rest ih =>
    cases needSync with
    | true =>
      have hstep : hostDecoder.next true (b :: rest) = some (decide (b ≠ messageSync), 1, none) := rfl
      rw [Decoder.run_of_skip hstep]
      exact ih _ (by rw [List.length_cons] at h; exact Nat.lt_of_succ_lt h)
    | false =>
      have hnext : hostDecoder.next false (b :: rest) = none := by
        simp [hostDecoder, mcuDecoder, blockVerdict_short h]
      rw [Decoder.run_of_none hnext]

/-- **One call** of `msgblock_check`, as steps of the decoder. -/
theorem msgblockCheck_run (needSync : Bool) (buf : List UInt8) :
    ((msgblockCheck needSync buf).2 = 0 ∧ (msgblockCheck needSync buf).1 = needSync ∧
        (hostDecoder.run needSync buf).outputs = []) ∨
      (0 < (msgblockCheck needSync buf).2 ∧ hostDecoder.next needSync buf =
        some ((msgblockCheck needSync buf).1, (msgblockCheck needSync buf).2.toNat,
          some (buf.take (msgblockCheck needSync buf).2.toNat))) ∨
      ((msgblockCheck needSync buf).2 < 0 ∧ buf ≠ [] ∧ hostDecoder.run needSync buf =
        hostDecoder.run (msgblockCheck needSync buf).1 (buf.drop (-(msgblockCheck needSync buf).2).toNat)) := by
  by_cases hlen : buf.length < messageMin
  · have hcheck : msgblockCheck needSync buf = (needSync, 0) := if_pos hlen
    rw [hcheck]
    exact Or.inl ⟨rfl, rfl, host_run_short needSync buf hlen⟩
  cases buf with
  | nil => exact absurd (show 0 < messageMin by decide) hlen
  | cons b rest =>
    have hpos := skipToSync_pos (List.cons_ne_nil b rest)
    -- where bytes are skipped, it is up to the next sign, and the decoder takes the first of them
    have herror (ns : Bool) (hcheck : msgblockCheck ns (b :: rest) =
          ((skipToSync (b :: rest)).1, -((skipToSync (b :: rest)).2 : ℤ)))
        (hstep : hostDecoder.next ns (b :: rest) = some (decide (b ≠ messageSync), 1, none)) :
        (msgblockCheck ns (b :: rest)).2 < 0 ∧ b :: rest ≠ [] ∧ hostDecoder.run ns (b :: rest) =
          hostDecoder.run (msgblockCheck ns (b :: rest)).1
            ((b :: rest).drop (-(msgblockCheck ns (b :: rest)).2).toNat) := by
      rw [hcheck]
      refine ⟨by simp only; omega, List.cons_ne_nil b rest, ?_⟩
      rw [Decoder.run_of_skip hstep, List.drop_one, List.tail_cons, host_run_skip_cons]
      simp only [neg_neg, Int.toNat_natCast]
    cases needSync with
    | true =>
      have hcheck : msgblockCheck true (b :: rest) =
          ((skipToSync (b :: rest)).1, -((skipToSync (b :: rest)).2 : ℤ)) := by
        simp only [msgblockCheck, hlen, if_false, if_true]
      exact Or.inr (Or.inr (herror true hcheck rfl))
    | false =>
      cases hv : blockVerdict crcOk (b :: rest) with
      | more =>
        have hcheck : msgblockCheck false (b :: rest) = (false, 0) := by
          simp only [msgblockCheck, hlen, if_false, Bool.false_eq_true, hv]
        have hnext : hostDecoder.next false (b :: rest) = none := by
          simp [hostDecoder, mcuDecoder, hv]
        rw [hcheck]
        exact Or.inl ⟨rfl, rfl, by rw [Decoder.run_of_none hnext]⟩
      | bad =>
        have hcheck : msgblockCheck false (b :: rest) =
            ((skipToSync (b :: rest)).1, -((skipToSync (b :: rest)).2 : ℤ)) := by
          simp only [msgblockCheck, hlen, if_false, Bool.false_eq_true, hv]
        refine Or.inr (Or.inr (herror false hcheck ?_))
        simp only [hostDecoder, mcuDecoder, Bool.false_eq_true, if_false, hv]
        by_cases hb : b = messageSync
        · rw [if_pos hb]
          simp [hb]
        · rw [if_neg hb]
          simp [hb, Received.bytes?]
      | good msglen =>
        have hbounds := good_bounds hv
        have hcheck : msgblockCheck false (b :: rest) = (false, (msglen : ℤ)) := by
          simp only [msgblockCheck, hlen, if_false, Bool.false_eq_true, hv]
        rw [hcheck]
        refine Or.inr (Or.inl ⟨by simp only; omega, ?_⟩)
        simp [hostDecoder, mcuDecoder, hv, Received.bytes?]

/-- The loop of the host: what it leaves has no result. -/
theorem inputLoop_run {fuel : ℕ} (needSync : Bool) (buf : List UInt8) (h : buf.length < fuel) :
    (hostDecoder.run (inputLoop fuel needSync buf).1.1 (inputLoop fuel needSync buf).1.2).outputs = [] ∧
      hostDecoder.run needSync buf =
        { hostDecoder.run (inputLoop fuel needSync buf).1.1 (inputLoop fuel needSync buf).1.2 with
          outputs := (inputLoop fuel needSync buf).2 } := by
  induction fuel generalizing needSync buf with
  | zero => omega
  | succ fuel ih =>
    rw [inputLoop]
    rcases msgblockCheck_run needSync buf with ⟨hr, hns, hout⟩ | ⟨hr, hnext⟩ | ⟨hr, hne, hrun⟩
    · simp only [hr, if_true, hns]
      exact ⟨hout, by rw [← hout]⟩
    · have hpos := hostDecoder.progress hnext
      obtain ⟨hrest, hdec⟩ := ih (msgblockCheck needSync buf).1 (buf.drop (msgblockCheck needSync buf).2.toNat)
        (by rw [List.length_drop]; omega)
      simp only [hr.ne', if_false, hr, if_true]
      refine ⟨hrest, ?_⟩
      rw [Decoder.run_of_some hnext, hdec]
      rfl
    · have hlen : 0 < buf.length := List.length_pos_of_ne_nil hne
      obtain ⟨hrest, hdec⟩ := ih (msgblockCheck needSync buf).1 (buf.drop (-(msgblockCheck needSync buf).2).toNat)
        (by rw [List.length_drop]; omega)
      simp only [hr.ne, if_false, not_lt.mpr hr.le]
      exact ⟨hrest, hrun.trans hdec⟩

theorem inputEvent_follows : hostDecoder.Follows inputEvent id := by
  intro t part _
  exact inputLoop_run t.1 (t.2 ++ part) (Nat.lt_succ_self _)

theorem consoleTask_follows : mcuDecoder.Follows consoleTask id := by
  intro t part _
  obtain ⟨hnext, hrun⟩ := consoleLoop_run t.1 (t.2 ++ part) (Nat.lt_succ_self _)
  refine ⟨?_, ?_⟩
  · unfold Decoder.Settled
    rw [Decoder.run_of_none (show mcuDecoder.next (id (consoleTask t part).1).1 (id (consoleTask t part).1).2 = none
      from hnext)]
  · rw [Decoder.run_of_none (show mcuDecoder.next (id (consoleTask t part).1).1 (id (consoleTask t part).1).2 = none
      from hnext)]
    exact hrun

end Loops

/-! ## Whole streams -/

section Streams

variable {block payload : List UInt8} {seq : UInt8}

theorem mcu_run_nil (s : SyncState) : (mcuDecoder.run s []).outputs = [] := by
  rw [Decoder.run_of_none (show mcuDecoder.next s [] = none from rfl)]

theorem mcu_pads (k : ℕ) (nv : Bool) (h : 4 ≤ block.length) :
    mcuDecoder.run ⟨false, nv⟩ (List.replicate k messageSync ++ block) = mcuDecoder.run ⟨false, nv⟩ block := by
  induction k with
  | zero => rfl
  | succ k ih =>
    have hv : blockVerdict crcOk (messageSync :: (List.replicate k messageSync ++ block)) = .bad := by
      have hlen : ¬ (messageSync :: (List.replicate k messageSync ++ block)).length < messageMin := by
        have h5 : messageMin = 5 := rfl
        rw [List.length_cons, List.length_append]
        omega
      -- the sign is longer than any block
      have hbad : (messageSync.toNat < messageMin ∨ messageMax < messageSync.toNat) = True := by decide
      unfold blockVerdict
      rw [if_neg hlen]
      simp only [List.getD_cons_zero, hbad, if_true]
    have hstep : mcuDecoder.next ⟨false, nv⟩ (messageSync :: (List.replicate k messageSync ++ block)) =
        some (⟨false, nv⟩, 1, none) := by
      simp only [mcuDecoder, Bool.false_eq_true, if_false, if_true, hv]
    rw [List.replicate_succ, List.cons_append, Decoder.run_of_skip hstep]
    exact ih

/-- Blocks, each behind so many `MESSAGE_SYNC`. -/
def streamOf (blocks : List (ℕ × List UInt8)) : List UInt8 :=
  (blocks.map fun b => List.replicate b.1 messageSync ++ b.2).flatten

theorem mcu_stream (nv : Bool) (blocks : List (ℕ × List UInt8)) (h : ∀ b ∈ blocks, Valid b.2) :
    (mcuDecoder.run ⟨false, nv⟩ (streamOf blocks)).outputs = blocks.map fun b => .block b.2 := by
  induction blocks generalizing nv with
  | nil => exact mcu_run_nil _
  | cons b blocks ih =>
    obtain ⟨k, block⟩ := b
    have hvalid : Valid block := h (k, block) List.mem_cons_self
    have hlen := (good_bounds hvalid).1
    have hverdict := verdict_valid hvalid (streamOf blocks)
    have hshape : streamOf ((k, block) :: blocks) = List.replicate k messageSync ++ (block ++ streamOf blocks) := by
      rw [← List.append_assoc]
      rfl
    rw [hshape, mcu_pads k nv (by rw [List.length_append]; omega)]
    cases block with
    | nil => simp at hlen
    | cons c rest =>
      have hstep : mcuDecoder.next ⟨false, nv⟩ (c :: rest ++ streamOf blocks) =
          some (⟨false, false⟩, (c :: rest).length, some (.block (c :: rest))) := by
        simp only [mcuDecoder, List.cons_append, Bool.false_eq_true, if_false]
        rw [← List.cons_append, hverdict]
        simp
      rw [Decoder.run_of_some hstep, List.drop_left, ih false fun b hb => h b (List.mem_cons_of_mem _ hb)]
      rfl

theorem outputsOf_inputEvent (parts : List (List UInt8)) :
    Decoder.outputsOf inputEvent (false, []) parts =
      (mcuDecoder.run ⟨false, false⟩ parts.flatten).outputs.filterMap Received.bytes? := by
  have hfollows : Decoder.outputsOf inputEvent (false, []) parts = (hostDecoder.run false parts.flatten).outputs := by
    refine Decoder.outputs_of_follows inputEvent_follows ?_ parts
    unfold Decoder.Settled
    exact host_run_short false [] (by decide)
  rw [hfollows]
  exact congrArg Decoded.outputs (host_run_eq ⟨false, false⟩ parts.flatten)

theorem outputsOf_consoleTask (parts : List (List UInt8)) :
    Decoder.outputsOf consoleTask (⟨false, false⟩, []) parts =
      (mcuDecoder.run ⟨false, false⟩ parts.flatten).outputs := by
  refine Decoder.outputs_of_follows consoleTask_follows ?_ parts
  unfold Decoder.Settled
  exact mcu_run_nil _

theorem filterMap_blocks (blocks : List (ℕ × List UInt8)) :
    (blocks.map fun b => Received.block b.2).filterMap Received.bytes? = blocks.map Prod.snd := by
  rw [List.filterMap_map]
  exact congrFun (List.filterMap_eq_map (f := Prod.snd)) blocks

/-- **Framing**: host and firmware find the same blocks in the same stream, however the stream is cut into reads on
either side; and in a stream of blocks, with any number of `MESSAGE_SYNC` before each, they find these blocks, without
a nak. -/
theorem framing_agrees :
    (∀ parts parts' : List (List UInt8), parts.flatten = parts'.flatten →
      Decoder.outputsOf inputEvent (false, []) parts =
        (Decoder.outputsOf consoleTask (⟨false, false⟩, []) parts').filterMap Received.bytes?) ∧
    ∀ (blocks : List (ℕ × List UInt8)) (parts : List (List UInt8)), (∀ b ∈ blocks, Valid b.2) →
      parts.flatten = streamOf blocks →
        Decoder.outputsOf inputEvent (false, []) parts = blocks.map Prod.snd ∧
        Decoder.outputsOf consoleTask (⟨false, false⟩, []) parts = blocks.map fun b => .block b.2 := by
  constructor
  · intro parts parts' h
    rw [outputsOf_inputEvent, outputsOf_consoleTask, h]
  · intro blocks parts hvalid h
    rw [outputsOf_inputEvent, outputsOf_consoleTask, h, mcu_stream false blocks hvalid]
    exact ⟨filterMap_blocks blocks, rfl⟩

/-- A block behind a `MESSAGE_SYNC`, in two reads. -/
theorem framing_agrees_concreteCase :
    Decoder.outputsOf inputEvent (false, []) [[126, 6, 17], [5, 52, 14, 126]] = [[6, 17, 5, 52, 14, 126]] :=
  (framing_agrees.2 [(1, [6, 17, 5, 52, 14, 126])] [[126, 6, 17], [5, 52, 14, 126]]
    (fun b hb => by rw [List.mem_singleton.mp hb]; decide +kernel) (by decide)).1

end Streams

end Cxsw.Link
