import Mathlib.Data.UInt
import Cxsw.Lib.Checksum
import Cxsw.Lib.CString

/-!
# Cxsw.Chelper.Crc16 — the checksum of a message block (`msgblock.c`, `generic/crc16_ccitt.c`, `klippy/msgproto.py`)

The register of 16 bits is taken a byte at a time.  `msgblock_crc16_ccitt` and the firmware's `crc16_ccitt` are the same
function; the one of `msgproto.py` works on integers without a width.

* `crcRegister`: the two bytes of the register, in the sense of `Checksum`.
* `MsgProto.crc16Ccitt_eq`: Python computes the same two bytes.
* `crc_low_eq_iff`: the low byte of the checksum does not tell every last byte from every other one.
-/

namespace Cxsw.Link

/-! ## The code -/

section Defs

/-- One round of `msgblock_crc16_ccitt`. -/
def crcStep (crc : UInt16) (b : UInt8) : UInt16 :=
  let data := b ^^^ (crc &&& 0xff).toUInt8
  let data := data ^^^ (data <<< 4)
  ((data.toUInt16 <<< 8) ||| (crc >>> 8)) ^^^ (data >>> 4).toUInt16 ^^^ (data.toUInt16 <<< 3)

/-- `msgblock_crc16_ccitt`. -/
def msgblockCrc16Ccitt (buf : List UInt8) : UInt16 := buf.foldl crcStep 0xffff

namespace MsgProto

/-- One round of `crc16_ccitt` in Python. -/
def crcStep (crc : ℕ) (b : UInt8) : ℕ :=
  let data := b.toNat ^^^ (crc &&& 0xff)
  let data := data ^^^ ((data &&& 0x0f) <<< 4)
  ((data <<< 8) ||| (crc >>> 8)) ^^^ (data >>> 4) ^^^ (data <<< 3)

/-- `crc16_ccitt` in Python: `chr(crc >> 8) + chr(crc & 0xff)`. -/
def crc16Ccitt (buf : List UInt8) : List ℕ :=
  let crc := buf.foldl crcStep 0xffff
  [crc >>> 8, crc &&& 0xff]

end MsgProto

/-- What a byte contributes once the low byte of the register is mixed in. -/
def crcTable (i : UInt8) : UInt16 :=
  let data := i ^^^ (i <<< 4)
  (data.toUInt16 <<< 8) ^^^ (data >>> 4).toUInt16 ^^^ (data.toUInt16 <<< 3)

def crcHigh (i : UInt8) : UInt8 := (crcTable i >>> 8).toUInt8

def crcLow (i : UInt8) : UInt8 := (crcTable i).toUInt8

/-- The high and the low byte of the register. -/
def bytesOf (crc : UInt16) : UInt8 × UInt8 := ((crc >>> 8).toUInt8, crc.toUInt8)

end Defs

/-! ## The table -/

section Table

/-- The two exclusive ors with a shifted byte that make the high byte are undone one after the other. -/
theorem crcTable_bytes : ∀ i : UInt8,
    (crcHigh i ^^^ (crcHigh i >>> 5)) ^^^ ((crcHigh i ^^^ (crcHigh i >>> 5)) <<< 4) = i ∧
      (crcLow i = 0 ↔ i = 0 ∨ i = 0x91) ∧ crcHigh (i ^^^ 0x91) = crcHigh i ^^^ 0x85 :=
  CString.forall_uint8 (by decide +kernel)

theorem crcHigh_injective : Function.Injective crcHigh := by
  have hinv : Function.LeftInverse (fun h : UInt8 => (h ^^^ (h >>> 5)) ^^^ ((h ^^^ (h >>> 5)) <<< 4)) crcHigh :=
    fun i => (crcTable_bytes i).1
  exact hinv.injective

theorem crcTable_xor (i j : UInt8) : crcTable (i ^^^ j) = crcTable i ^^^ crcTable j := by
  unfold crcTable
  simp only [UInt8.shiftLeft_xor, UInt8.shiftRight_xor, UInt8.toUInt16_xor, UInt16.shiftLeft_xor]
  ac_rfl

/-- **The low byte** is blind for one difference. -/
theorem crc_low_eq_iff (i j : UInt8) : crcLow j = crcLow i ↔ j = i ∨ j = i ^^^ 0x91 := by
  have hker : ∀ d : UInt8, crcLow d = 0 ↔ d = 0 ∨ d = 0x91 := fun d => (crcTable_bytes d).2.1
  have hxor : crcLow (i ^^^ j) = crcLow i ^^^ crcLow j := by
    unfold crcLow
    rw [crcTable_xor, UInt16.toUInt8_xor]
  have h := hker (i ^^^ j)
  rw [hxor, UInt8.xor_eq_zero_iff, UInt8.xor_eq_zero_iff] at h
  rw [eq_comm, h, eq_comm]
  refine or_congr_right ⟨fun hd => ?_, fun hd => ?_⟩
  · rw [← hd, ← UInt8.xor_assoc, UInt8.xor_self, UInt8.zero_xor]
  · rw [hd, ← UInt8.xor_assoc, UInt8.xor_self, UInt8.zero_xor]

theorem crcHigh_blind (i : UInt8) : crcHigh (i ^^^ 0x91) = crcHigh i ^^^ 0x85 := (crcTable_bytes i).2.2

end Table

/-! ## The register -/

section Registers

theorem or_shiftRight (d crc : UInt16) : (d <<< 8) ||| (crc >>> 8) = (d <<< 8) ^^^ (crc >>> 8) := by
  apply UInt16.toBitVec_inj.mp
  simp only [UInt16.toBitVec_or, UInt16.toBitVec_xor, UInt16.toBitVec_shiftLeft, UInt16.toBitVec_shiftRight]
  ext k hk
  rcases lt_or_ge k 8 with h | h
  · simp [h]
  · simp [BitVec.getLsbD_of_ge crc.toBitVec (8 + k) (by omega)]

theorem and_ff_toUInt8 (crc : UInt16) : (crc &&& 0xff).toUInt8 = crc.toUInt8 := by
  apply UInt8.toNat_inj.mp
  rw [UInt16.toNat_toUInt8, UInt16.toNat_toUInt8, UInt16.toNat_and]
  change (crc.toNat &&& (2 ^ 8 - 1)) % 2 ^ 8 = crc.toNat % 2 ^ 8
  rw [Nat.and_two_pow_sub_one_eq_mod, Nat.mod_mod]

theorem shiftRight_shiftRight (crc : UInt16) : (crc >>> 8) >>> 8 = 0 := by
  have hlt := crc.toNat_lt
  apply UInt16.toNat_inj.mp
  rw [UInt16.toNat_shiftRight, UInt16.toNat_shiftRight, Nat.shiftRight_eq_div_pow, Nat.shiftRight_eq_div_pow]
  change crc.toNat / 2 ^ 8 / 2 ^ 8 = 0
  omega

theorem crcStep_eq (crc : UInt16) (b : UInt8) : crcStep crc b = crcTable (crc.toUInt8 ^^^ b) ^^^ (crc >>> 8) := by
  unfold crcStep crcTable
  simp only [and_ff_toUInt8, or_shiftRight, UInt8.xor_comm b]
  ac_rfl

/-- The register of the checksum. -/
def crcRegister : Checksum.Register UInt8 where
  mix a b := a ^^^ b
  high := crcHigh
  low := crcLow
  mix_injective _ _ _ h := (UInt8.xor_right_inj _).mp h
  mix_left_injective _ _ _ h := (UInt8.xor_left_inj _).mp h
  high_injective := crcHigh_injective

theorem bytesOf_crcStep (crc : UInt16) (b : UInt8) : bytesOf (crcStep crc b) = crcRegister.step (bytesOf crc) b := by
  rw [crcStep_eq]
  unfold bytesOf Checksum.Register.step
  simp only [UInt16.shiftRight_xor, shiftRight_shiftRight, UInt16.xor_zero, UInt16.toUInt8_xor]
  exact Prod.ext rfl (UInt8.xor_comm _ _)

/-- **The checksum** is what the register makes of the bytes. -/
theorem bytesOf_crc (buf : List UInt8) :
    bytesOf (msgblockCrc16Ccitt buf) = crcRegister.run (0xff, 0xff) buf := by
  have hfold : ∀ crc, bytesOf (buf.foldl crcStep crc) = crcRegister.run (bytesOf crc) buf := by
    induction buf with
    | nil => exact fun _ => rfl
    | cons b buf ih =>
      intro crc
      rw [List.foldl_cons, ih, bytesOf_crcStep]
      rfl
  exact hfold 0xffff

theorem toNat_joined (hi lo : UInt8) : ((hi.toUInt16 <<< 8) ||| lo.toUInt16).toNat = hi.toNat * 256 + lo.toNat := by
  have hhi := hi.toNat_lt
  have hlo := lo.toNat_lt
  have h8 : 2 ^ 8 * hi.toNat + lo.toNat = 2 ^ 8 * hi.toNat ||| lo.toNat := Nat.two_pow_add_eq_or_of_lt hlo _
  have hshift : (hi.toUInt16 <<< 8).toNat = 2 ^ 8 * hi.toNat := by
    rw [UInt16.toNat_shiftLeft, Nat.shiftLeft_eq, UInt8.toNat_toUInt16]
    change hi.toNat * 2 ^ 8 % 2 ^ 16 = _
    omega
  rw [UInt16.toNat_or, hshift, UInt8.toNat_toUInt16, ← h8]
  omega

/-- Two bytes in this order are the register of 16 bits. -/
theorem eq_joined_iff (crc : UInt16) (hi lo : UInt8) :
    crc = (hi.toUInt16 <<< 8) ||| lo.toUInt16 ↔ bytesOf crc = (hi, lo) := by
  have hcrc := crc.toNat_lt
  have hhi := hi.toNat_lt
  have hlo := lo.toNat_lt
  have hhigh : (crc >>> 8).toUInt8.toNat = crc.toNat / 256 % 256 := by
    rw [UInt16.toNat_toUInt8, UInt16.toNat_shiftRight, Nat.shiftRight_eq_div_pow]
    rfl
  unfold bytesOf
  rw [← UInt16.toNat_inj, toNat_joined, Prod.mk.injEq, ← UInt8.toNat_inj, ← UInt8.toNat_inj, hhigh,
    UInt16.toNat_toUInt8]
  omega

end Registers

/-! ## Python's version -/

section Python

theorem nat_or_shiftRight (d : ℕ) {s : ℕ} (hs : s < 2 ^ 8) : (d <<< 8) ||| s = (d <<< 8) ^^^ s := by
  apply Nat.eq_of_testBit_eq
  intro k
  rw [Nat.testBit_or, Nat.testBit_xor, Nat.testBit_shiftLeft]
  rcases lt_or_ge k 8 with h | h
  · simp [not_le.mpr h]
  · have hbit : s.testBit k = false :=
      Nat.testBit_lt_two_pow (lt_of_lt_of_le hs (Nat.pow_le_pow_right (by decide) h))
    simp [hbit]

theorem MsgProto.table_eq : ∀ i : UInt8,
    (((i.toNat ^^^ ((i.toNat &&& 0x0f) <<< 4)) <<< 8) ^^^ ((i.toNat ^^^ ((i.toNat &&& 0x0f) <<< 4)) >>> 4)) ^^^
      ((i.toNat ^^^ ((i.toNat &&& 0x0f) <<< 4)) <<< 3) = (crcTable i).toNat :=
  CString.forall_uint8 (by decide +kernel)

theorem MsgProto.crcStep_eq (crc : UInt16) (b : UInt8) : MsgProto.crcStep crc.toNat b = (Link.crcStep crc b).toNat := by
  have hcrc := crc.toNat_lt
  have hi : b.toNat ^^^ (crc.toNat &&& 0xff) = (crc.toUInt8 ^^^ b).toNat := by
    rw [UInt8.toNat_xor, UInt16.toNat_toUInt8, Nat.xor_comm]
    exact congrArg (· ^^^ b.toNat) (Nat.and_two_pow_sub_one_eq_mod crc.toNat 8)
  have hs : crc.toNat >>> 8 < 2 ^ 8 := by
    rw [Nat.shiftRight_eq_div_pow]
    omega
  have hshift : (crc >>> 8).toNat = crc.toNat >>> 8 := UInt16.toNat_shiftRight crc 8
  unfold MsgProto.crcStep
  simp only [hi, nat_or_shiftRight _ hs]
  rw [Link.crcStep_eq, UInt16.toNat_xor, hshift, ← MsgProto.table_eq]
  ac_rfl

/-- **Python computes the same two bytes.** -/
theorem MsgProto.crc16Ccitt_eq (buf : List UInt8) :
    MsgProto.crc16Ccitt buf =
      [(bytesOf (msgblockCrc16Ccitt buf)).1.toNat, (bytesOf (msgblockCrc16Ccitt buf)).2.toNat] := by
  have hfold : ∀ crc : UInt16, buf.foldl MsgProto.crcStep crc.toNat = (buf.foldl Link.crcStep crc).toNat := by
    induction buf with
    | nil => exact fun _ => rfl
    | cons b buf ih =>
      intro crc
      rw [List.foldl_cons, List.foldl_cons, MsgProto.crcStep_eq, ih]
  have hcrc := (msgblockCrc16Ccitt buf).toNat_lt
  have hall : buf.foldl MsgProto.crcStep 0xffff = (msgblockCrc16Ccitt buf).toNat := hfold 0xffff
  unfold MsgProto.crc16Ccitt bytesOf
  simp only [hall, UInt16.toNat_toUInt8, UInt16.toNat_shiftRight]
  congr 1
  · change (msgblockCrc16Ccitt buf).toNat >>> 8 = (msgblockCrc16Ccitt buf).toNat >>> 8 % 2 ^ 8
    rw [Nat.shiftRight_eq_div_pow]
    omega
  · exact congrArg (fun n => [n]) (Nat.and_two_pow_sub_one_eq_mod _ 8)

end Python

end Cxsw.Link
