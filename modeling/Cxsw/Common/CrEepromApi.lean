import Mathlib.Data.Fin.VecNotation
import Cxsw.Lib.Layout

/-!
# Cxsw.Common.CrEepromApi — saving and loading the settings (`Common/RtthreadSrc/CrEepromApi.cpp`)

The EEPROM is a byte store of any capacity whose power may fail after any byte.  A setting is a version, a checksum
and a body of `n` bytes; `EepromSaveSetting` writes it with version `ERR` and checksum 0, then the version, then the
checksum.  `reset` is what `EepromResetSetting` makes of the settings in memory.

* `load_afterCut`: after a save cut anywhere, a load fails, finds the store as it was, or gives the new value.
* `load_fail`: a load that fails leaves the settings, unless its reads were short.
* `load_afterSave`: after a whole save a load gives the new value.
* `eeprom_torn_save`: the two together.
-/

namespace Cxsw.Eeprom

open Cxsw.Ring

/-! ## The settings and the store -/

section Defs

/-- `EEPROM_OFFSET`. -/
def eepromOffset : ℕ := 100

/-- `SettingsData_t`: `body` is everything behind the checksum. -/
@[ext]
structure SettingsData (n : ℕ) where
  version : Fin 4 → UInt8
  crc : BitVec 16
  body : Fin n → UInt8

/-- `SettingsData_t` in memory. -/
def SettingsData.layout (n : ℕ) : Layout (SettingsData n) :=
  ((Layout.bytes 4).prod ((Layout.le 2).prod (Layout.bytes n))).record (fun ⟨v, c, b⟩ => ⟨v, c, b⟩)
    (fun s => (s.version, s.crc, s.body)) fun _ => rfl

/-- `sizeof(SettingData)`. -/
def settingSize (n : ℕ) : ℕ := (SettingsData.layout n).size

/-- `"ERR"`. -/
def errVersion : Fin 4 → UInt8 := ![0x45, 0x52, 0x52, 0]

/-- `Version`, the string `"V81"`. -/
def eepromVersion : Fin 4 → UInt8 := ![0x56, 0x38, 0x31, 0]

/-- One round of `Crc16` on a bit. -/
def crcBit (crc : BitVec 16) : BitVec 16 := if crc &&& 0x8000 ≠ 0 then crc <<< 1 ^^^ 0x1021 else crc <<< 1

/-- `Crc16` on a byte. -/
def crcByte (crc : BitVec 16) (b : UInt8) : BitVec 16 := crcBit^[8] (crc ^^^ (b.toBitVec.setWidth 16 <<< 8))

/-- `Crc16` on the first `cnt` bytes; the count is a `U16`. -/
def crc16 (crc : BitVec 16) (data : List UInt8) (cnt : ℕ) : BitVec 16 := (data.take (cnt % 2 ^ 16)).foldl crcByte crc

/-- The checksum of a setting: of all bytes behind version and checksum. -/
def workingCrc {n : ℕ} (s : SettingsData n) : BitVec 16 :=
  crc16 0 (((SettingsData.layout n).enc s).drop 6) (settingSize n - 4 - 2)

/-- The store, and how many bytes it still writes until the power fails. -/
structure PowerStore where
  bytes : List UInt8
  power : ℕ

/-- `CrEepromWrite`: the bytes that the store has room for; the power fails behind the last one it allows. -/
def crEepromWrite (p : PowerStore) (pos : ℕ) (data : List UInt8) : ℕ × PowerStore :=
  let data := data.take (p.bytes.length - pos)
  (data.length, ⟨splice p.bytes pos (data.take p.power), p.power - data.length⟩)

/-- `CrEepromRead`. -/
def crEepromRead (store : List UInt8) (pos len : ℕ) : List UInt8 := (store.drop pos).take len

/-- The globals `SettingData` and `EepromError`. -/
structure Ram (n : ℕ) where
  settingData : SettingsData n
  eepromError : Bool

variable {n : ℕ}

/-- `EepromSaveSetting`: its result, the memory and the store after it. -/
def eepromSaveSetting (r : Ram n) (p : PowerStore) : ℕ × Ram n × PowerStore :=
  if p.bytes.length < settingSize n then (0, r, p)
  else
    let setting : SettingsData n := { r.settingData with version := errVersion, crc := 0 }
    let w1 := crEepromWrite p eepromOffset ((SettingsData.layout n).enc setting)
    if settingSize n ≤ w1.1 then
      let w2 := crEepromWrite w1.2 eepromOffset ((Layout.bytes 4).enc eepromVersion)
      let w3 := crEepromWrite w2.2 (eepromOffset + 4) ((Layout.le 2).enc (workingCrc setting))
      (w1.1, ⟨setting, false⟩, w3.2)
    else (w1.1, ⟨setting, true⟩, w1.2)

/-- `strncmp(Setting.Version, Version, 3) == 0`. -/
def versionOk (s : SettingsData n) : Bool :=
  s.version 0 = eepromVersion 0 && s.version 1 = eepromVersion 1 && s.version 2 = eepromVersion 2

/-- The checks of `EepromLoadSetting` on a setting that was read. -/
def acceptSetting (setting : SettingsData n) (r : Ram n) : Ram n :=
  if ! versionOk setting then { r with eepromError := true }
  else if workingCrc setting = setting.crc then { r with settingData := setting }
  else { r with eepromError := true }

/-- `EepromLoadSetting`: its result and the memory after it. -/
def eepromLoadSetting (reset : SettingsData n → SettingsData n) (store : List UInt8) (r : Ram n) : Bool × Ram n :=
  if store.length < settingSize n then (false, r)
  else
    let r := { r with eepromError := false }
    let data := crEepromRead store eepromOffset (settingSize n)
    let r :=
      if settingSize n ≤ data.length then acceptSetting ((SettingsData.layout n).dec data) r
      else
        -- the second attempt reads the same bytes
        let data := crEepromRead store eepromOffset (settingSize n)
        if settingSize n ≤ data.length then acceptSetting ((SettingsData.layout n).dec data) r
        else { settingData := reset r.settingData, eepromError := true }
    (! r.eepromError, r)

/-- The store after a save of `setting` over `old` whose power fails after `cut` bytes. -/
def saveCut (old : List UInt8) (setting : SettingsData n) (cut : ℕ) : List UInt8 :=
  (eepromSaveSetting ⟨setting, false⟩ ⟨old, cut⟩).2.2.bytes

/-- A setting as a whole save leaves it. -/
def stamped (s : SettingsData n) : SettingsData n :=
  { s with version := eepromVersion, crc := workingCrc s }

end Defs

/-! ## What a load finds -/

section Load

variable {n : ℕ}

theorem settingSize_eq (n : ℕ) : settingSize n = 6 + n := by
  show 4 + (2 + n) = 6 + n
  omega

theorem workingCrc_eq (s : SettingsData n) : workingCrc s = crc16 0 (List.ofFn s.body) n := by
  have henc : (SettingsData.layout n).enc s = (List.ofFn s.version ++ leBytes 2 s.crc.toNat) ++ List.ofFn s.body :=
    (List.append_assoc _ _ _).symm
  unfold workingCrc
  rw [henc, List.drop_left' (by rw [List.length_append, List.length_ofFn, leBytes_length]), settingSize_eq]
  congr 1
  omega

/-- The setting that stands in the store. -/
def stored (n : ℕ) (store : List UInt8) : SettingsData n :=
  (SettingsData.layout n).dec (crEepromRead store eepromOffset (settingSize n))

theorem stored_version (store : List UInt8) (i : Fin 4) :
    (stored n store).version i = (store[eepromOffset + i]?).getD 0 := by
  show ((((store.drop eepromOffset).take (settingSize n)).take 4).getD i 0) = _
  rw [List.getD_eq_getElem?_getD, List.getElem?_take_of_lt i.isLt, List.getElem?_take_of_lt, List.getElem?_drop]
  have := i.isLt
  rw [settingSize_eq]
  omega

theorem stored_body (store : List UInt8) (i : Fin n) :
    (stored n store).body i = (store[eepromOffset + (6 + i)]?).getD 0 := by
  show (((((store.drop eepromOffset).take (settingSize n)).drop 4).drop 2).getD i 0) = _
  have := i.isLt
  rw [List.getD_eq_getElem?_getD, List.getElem?_drop, List.getElem?_drop, List.getElem?_take_of_lt,
    List.getElem?_drop]
  · congr 3
    omega
  · rw [settingSize_eq]
    omega

/-- Whether the image has room behind the offset. -/
def Fits (n : ℕ) (store : List UInt8) : Prop := eepromOffset + settingSize n ≤ store.length

instance (n : ℕ) (store : List UInt8) : Decidable (Fits n store) :=
  inferInstanceAs (Decidable (eepromOffset + settingSize n ≤ store.length))

theorem read_length (n : ℕ) (store : List UInt8) :
    settingSize n ≤ (crEepromRead store eepromOffset (settingSize n)).length ↔ Fits n store := by
  unfold crEepromRead Fits
  rw [List.length_take, List.length_drop, settingSize_eq]
  omega

theorem eepromLoadSetting_of_fits (reset : SettingsData n → SettingsData n) {store : List UInt8} (h : Fits n store)
    (r : Ram n) :
    eepromLoadSetting reset store r =
      (! (acceptSetting (stored n store) { r with eepromError := false }).eepromError,
        acceptSetting (stored n store) { r with eepromError := false }) := by
  have hcap : ¬ store.length < settingSize n := by
    unfold Fits at h
    omega
  unfold eepromLoadSetting
  dsimp only
  rw [if_neg hcap, if_pos ((read_length n store).mpr h)]
  rfl

/-- A load where it does not: the checks are never reached. -/
theorem eepromLoadSetting_of_not_fits (reset : SettingsData n → SettingsData n) {store : List UInt8}
    (h : ¬ Fits n store) (r : Ram n) :
    eepromLoadSetting reset store r =
      (false, if store.length < settingSize n then r else ⟨reset r.settingData, true⟩) := by
  have hread := mt (read_length n store).mp h
  unfold eepromLoadSetting
  dsimp only
  split_ifs
  · rfl
  · rfl

/-- What is accepted has the version and the checksum of its body. -/
theorem acceptSetting_spec (s : SettingsData n) (r : Ram n) (hr : r.eepromError = false) :
    (acceptSetting s r).eepromError = true ∧ (acceptSetting s r).settingData = r.settingData ∨
      versionOk s = true ∧ workingCrc s = s.crc ∧ (acceptSetting s r) = ⟨s, false⟩ := by
  unfold acceptSetting
  by_cases hv : versionOk s = true
  · rw [if_neg (by simp [hv])]
    by_cases hc : workingCrc s = s.crc
    · rw [if_pos hc, ← hr]
      exact Or.inr ⟨hv, hc, rfl⟩
    · rw [if_neg hc]
      exact Or.inl ⟨rfl, rfl⟩
  · rw [if_pos (by simp [hv])]
    exact Or.inl ⟨rfl, rfl⟩

/-- **A load that fails** leaves the settings as they were, unless its reads were short. -/
theorem load_fail (reset : SettingsData n → SettingsData n) (store : List UInt8) (r : Ram n)
    (h : (eepromLoadSetting reset store r).1 = false) :
    (eepromLoadSetting reset store r).2.settingData =
      if settingSize n ≤ store.length ∧ ¬ Fits n store then reset r.settingData else r.settingData := by
  by_cases hf : Fits n store
  · rw [if_neg (fun hc => hc.2 hf)]
    rw [eepromLoadSetting_of_fits reset hf] at h ⊢
    obtain ⟨-, hs⟩ | ⟨-, -, hacc⟩ := acceptSetting_spec (stored n store) { r with eepromError := false } rfl
    · exact hs
    · rw [hacc] at h
      exact absurd h.symm Bool.false_ne_true
  · rw [eepromLoadSetting_of_not_fits reset hf]
    dsimp only
    by_cases hc : store.length < settingSize n
    · rw [if_pos hc, if_neg (by omega)]
    · rw [if_neg hc, if_pos ⟨by omega, hf⟩]

/-- A load that succeeds gives the setting in the store, with the version and the checksum of its body. -/
theorem load_success (reset : SettingsData n → SettingsData n) (store : List UInt8) (r : Ram n)
    (h : (eepromLoadSetting reset store r).1 = true) :
    Fits n store ∧ versionOk (stored n store) = true ∧ workingCrc (stored n store) = (stored n store).crc ∧
      (eepromLoadSetting reset store r).2.settingData = stored n store := by
  by_cases hf : Fits n store
  · rw [eepromLoadSetting_of_fits reset hf] at h ⊢
    obtain ⟨herr, -⟩ | ⟨hv, hc, hacc⟩ := acceptSetting_spec (stored n store) { r with eepromError := false } rfl
    · rw [herr] at h
      exact absurd h Bool.false_ne_true
    · rw [hacc]
      exact ⟨hf, hv, hc, rfl⟩
  · rw [eepromLoadSetting_of_not_fits reset hf] at h
    exact absurd h Bool.false_ne_true

end Load

/-! ## What a cut save leaves -/

section Save

variable {n : ℕ}

theorem crEepromWrite_length (p : PowerStore) (pos : ℕ) (data : List UInt8) :
    (crEepromWrite p pos data).2.bytes.length = p.bytes.length := by
  show (splice p.bytes pos ((data.take (p.bytes.length - pos)).take p.power)).length = p.bytes.length
  by_cases hp : pos ≤ p.bytes.length
  · apply splice_length
    rw [List.length_take, List.length_take]
    omega
  · rw [show p.bytes.length - pos = 0 by omega, List.take_zero, List.take_nil, splice_nil]

theorem saveCut_length (old : List UInt8) (s : SettingsData n) (cut : ℕ) :
    (saveCut old s cut).length = old.length := by
  unfold saveCut eepromSaveSetting
  split_ifs
  · rfl
  · dsimp only
    split_ifs
    · dsimp only
      rw [crEepromWrite_length, crEepromWrite_length, crEepromWrite_length]
    · exact crEepromWrite_length _ _ _

/-- The image of the first write. -/
def image (s : SettingsData n) : List UInt8 := (SettingsData.layout n).enc { s with version := errVersion, crc := 0 }

theorem image_length (s : SettingsData n) : (image s).length = settingSize n := (SettingsData.layout n).enc_length _

theorem image_version (s : SettingsData n) (i : Fin 4) : (image s)[(i : ℕ)]? = some (errVersion i) := by
  show (List.ofFn errVersion ++ (leBytes 2 0 ++ List.ofFn s.body))[(i : ℕ)]? = some (errVersion i)
  rw [List.getElem?_append_left (by rw [List.length_ofFn]; exact i.isLt), List.getElem?_ofFn]
  simp

theorem image_body (s : SettingsData n) (i : Fin n) : (image s)[6 + (i : ℕ)]? = some (s.body i) := by
  show (List.ofFn errVersion ++ (leBytes 2 0 ++ List.ofFn s.body))[6 + (i : ℕ)]? = some (s.body i)
  rw [← List.append_assoc, List.getElem?_append_right (by simp [leBytes_length]), List.getElem?_ofFn]
  simp [leBytes_length]

/-- The three writes, each up to where the power fails. -/
theorem saveCut_of_fits {old : List UInt8} (h : Fits n old) (s : SettingsData n) (cut : ℕ) :
    saveCut old s cut =
      splice (splice (splice old eepromOffset ((image s).take cut)) eepromOffset
        ((List.ofFn eepromVersion).take (cut - settingSize n))) (eepromOffset + 4)
        ((leBytes 2 (workingCrc s).toNat).take (cut - settingSize n - 4)) := by
  have hroom : eepromOffset + settingSize n ≤ old.length := h
  have hsize := settingSize_eq n
  have hcrc : workingCrc { s with version := errVersion, crc := 0 } = workingCrc s := by
    rw [workingCrc_eq, workingCrc_eq]
  -- a write that has room
  have hw : ∀ (p : PowerStore) (pos : ℕ) (data : List UInt8), pos + data.length ≤ p.bytes.length →
      crEepromWrite p pos data = (data.length, ⟨splice p.bytes pos (data.take p.power), p.power - data.length⟩) := by
    intro p pos data hd
    unfold crEepromWrite
    rw [List.take_of_length_le (by omega)]
  have himg := image_length s
  unfold saveCut eepromSaveSetting
  rw [if_neg (show ¬ old.length < settingSize n by omega)]
  dsimp only
  rw [show (SettingsData.layout n).enc { s with version := errVersion, crc := 0 } = image s from rfl,
    hw ⟨old, cut⟩ eepromOffset (image s) (by rw [himg]; exact hroom)]
  dsimp only
  rw [if_pos himg.ge, himg, hcrc]
  have h1 : (splice old eepromOffset ((image s).take cut)).length = old.length :=
    splice_length (by rw [List.length_take]; omega)
  have hver : ((Layout.bytes 4).enc eepromVersion).length = 4 := List.length_ofFn
  have hle : ((Layout.le 2).enc (workingCrc s)).length = 2 := leBytes_length 2 _
  rw [hw _ eepromOffset ((Layout.bytes 4).enc eepromVersion) (by rw [hver]; show _ ≤ (splice _ _ _).length; omega)]
  dsimp only
  rw [hver]
  have h2 : (splice (splice old eepromOffset ((image s).take cut)) eepromOffset
      (((Layout.bytes 4).enc eepromVersion).take (cut - settingSize n))).length = old.length := by
    rw [splice_length, h1]
    rw [List.length_take]
    omega
  rw [hw _ (eepromOffset + 4) ((Layout.le 2).enc (workingCrc s)) (by rw [hle]; show _ ≤ (splice _ _ _).length; omega)]
  rfl

/-- A byte of the store that the last write does not reach. -/
theorem saveCut_getElem? {old : List UInt8} (h : Fits n old) (s : SettingsData n) (cut : ℕ) {i : ℕ}
    (hi : i < 4 ∨ 6 ≤ i) :
    (saveCut old s cut)[eepromOffset + i]? =
      if i < min (cut - settingSize n) 4 then (List.ofFn eepromVersion)[i]?
      else if i < min cut (settingSize n) then (image s)[i]? else old[eepromOffset + i]? := by
  have hroom : eepromOffset + settingSize n ≤ old.length := h
  have hsize := settingSize_eq n
  have himg : ((image s).take cut).length = min cut (settingSize n) := by rw [List.length_take, image_length]
  have hver : ((List.ofFn eepromVersion).take (cut - settingSize n)).length = min (cut - settingSize n) 4 := by
    rw [List.length_take, List.length_ofFn]
  have hle : ((leBytes 2 (workingCrc s).toNat).take (cut - settingSize n - 4)).length ≤ 2 := by
    rw [List.length_take, leBytes_length]
    omega
  have h1 : (splice old eepromOffset ((image s).take cut)).length = old.length := splice_length (by omega)
  have h2 : (splice (splice old eepromOffset ((image s).take cut)) eepromOffset
      ((List.ofFn eepromVersion).take (cut - settingSize n))).length = old.length := by
    rw [splice_length, h1]
    omega
  have hstep : (saveCut old s cut)[eepromOffset + i]? =
      (splice (splice old eepromOffset ((image s).take cut)) eepromOffset
        ((List.ofFn eepromVersion).take (cut - settingSize n)))[eepromOffset + i]? := by
    rw [saveCut_of_fits h, getElem?_splice (by omega)]
    rcases hi with hi | hi
    · rw [if_pos (by omega)]
    · rw [if_neg (by omega), if_neg (by omega)]
  rw [hstep, getElem?_splice (by omega), if_neg (by omega), hver, Nat.add_sub_cancel_left]
  by_cases hv : i < min (cut - settingSize n) 4
  · rw [if_pos (by omega), if_pos hv, List.getElem?_take_of_lt (by omega)]
  · rw [if_neg (by omega), if_neg hv, getElem?_splice (by omega), if_neg (by omega), himg,
      Nat.add_sub_cancel_left]
    by_cases hm : i < min cut (settingSize n)
    · rw [if_pos (by omega), if_pos hm, List.getElem?_take_of_lt (by omega)]
    · rw [if_neg (by omega), if_neg hm]

theorem saveCut_version {old : List UInt8} (h : Fits n old) (s : SettingsData n) (cut : ℕ) (i : Fin 4) :
    (stored n (saveCut old s cut)).version i =
      if i < cut - settingSize n then eepromVersion i
      else if i < cut then errVersion i else (old[eepromOffset + (i : ℕ)]?).getD 0 := by
  have hi := i.isLt
  have hsize := settingSize_eq n
  rw [stored_version, saveCut_getElem? h s cut (Or.inl hi)]
  by_cases hv : (i : ℕ) < cut - settingSize n
  · rw [if_pos (by omega), if_pos hv, List.getElem?_ofFn]
    simp [hi]
  · rw [if_neg (by omega), if_neg hv]
    by_cases hm : (i : ℕ) < cut
    · rw [if_pos (by omega), if_pos hm, image_version]
      rfl
    · rw [if_neg (by omega), if_neg hm]

theorem saveCut_body {old : List UInt8} (h : Fits n old) (s : SettingsData n) {cut : ℕ} (hc : settingSize n ≤ cut) :
    (stored n (saveCut old s cut)).body = s.body := by
  ext i : 1
  have hi := i.isLt
  have hsize := settingSize_eq n
  rw [stored_body, saveCut_getElem? h s cut (Or.inr (by omega)), if_neg (by omega), if_pos (by omega), image_body]
  rfl

theorem saveCut_zero (old : List UInt8) (s : SettingsData n) : saveCut old s 0 = old := by
  unfold saveCut eepromSaveSetting
  split_ifs with hcap
  · rfl
  · have hw : ∀ (p : PowerStore) (pos : ℕ) (data : List UInt8), p.power = 0 →
        (crEepromWrite p pos data).2.bytes = p.bytes ∧ (crEepromWrite p pos data).2.power = 0 := by
      intro p pos data hp
      unfold crEepromWrite
      dsimp only
      rw [hp, List.take_zero, splice_nil]
      exact ⟨rfl, Nat.zero_sub _⟩
    dsimp only
    split_ifs
    · obtain ⟨hb1, hp1⟩ := hw ⟨old, 0⟩ eepromOffset
        ((SettingsData.layout n).enc { s with version := errVersion, crc := 0 }) rfl
      obtain ⟨hb2, hp2⟩ := hw _ eepromOffset ((Layout.bytes 4).enc eepromVersion) hp1
      obtain ⟨hb3, -⟩ := hw _ (eepromOffset + 4)
        ((Layout.le 2).enc (workingCrc { s with version := errVersion, crc := 0 })) hp2
      rw [hb3, hb2, hb1]
    · exact (hw ⟨old, 0⟩ eepromOffset _ rfl).1

/-- **A load after a cut save** fails, finds the store as it was, or gives the new value. -/
theorem load_afterCut (reset : SettingsData n → SettingsData n) (old : List UInt8) (s : SettingsData n) (cut : ℕ)
    (r : Ram n) :
    (eepromLoadSetting reset (saveCut old s cut) r).1 = false ∨ saveCut old s cut = old ∨
      (eepromLoadSetting reset (saveCut old s cut) r).2.settingData = stamped s := by
  by_cases hok : (eepromLoadSetting reset (saveCut old s cut) r).1 = true
  · refine Or.inr ?_
    obtain ⟨hfits, hv, hcrc, hval⟩ := load_success reset _ r hok
    have hf : Fits n old := by
      unfold Fits at hfits ⊢
      rwa [saveCut_length] at hfits
    have hver := saveCut_version hf s cut
    rcases Nat.eq_zero_or_pos cut with h0 | hpos
    · exact Or.inl (by rw [h0, saveCut_zero])
    · refine Or.inr ?_
      unfold versionOk at hv
      simp only [Bool.and_eq_true, decide_eq_true_eq] at hv
      obtain ⟨⟨hv0, hv1⟩, hv2⟩ := hv
      have hsize := settingSize_eq n
      -- the third byte of the version is there, or one of its bytes is still of `ERR`
      have hcut : 2 < cut - settingSize n := by
        by_contra hlt
        have herr : ∀ i : Fin 4, (i : ℕ) = cut - settingSize n →
            (stored n (saveCut old s cut)).version i = errVersion i := by
          intro i hi
          rw [hver, if_neg (by omega), if_pos (by omega)]
        rcases (show cut - settingSize n = 0 ∨ cut - settingSize n = 1 ∨ cut - settingSize n = 2 by omega) with
          hd | hd | hd
        · rw [herr 0 hd.symm] at hv0
          exact absurd hv0 (by decide)
        · rw [herr 1 hd.symm] at hv1
          exact absurd hv1 (by decide)
        · rw [herr 2 hd.symm] at hv2
          exact absurd hv2 (by decide)
      have hbody := saveCut_body hf s (show settingSize n ≤ cut by omega)
      have hvers : (stored n (saveCut old s cut)).version = eepromVersion := by
        ext i : 1
        rw [hver]
        by_cases hi : (i : ℕ) < cut - settingSize n
        · rw [if_pos hi]
        · -- only the end of the string, which both versions have
          have h3 : i = 3 := Fin.ext (show (i : ℕ) = 3 by omega)
          rw [if_neg hi, if_pos (by omega), h3]
          rfl
      have hsum : (stored n (saveCut old s cut)).crc = workingCrc s := by
        rw [← hcrc, workingCrc_eq, workingCrc_eq, hbody]
      rw [hval]
      exact SettingsData.ext hvers hsum hbody
  · exact Or.inl (Bool.eq_false_iff.mpr hok)

theorem saveCut_crc {old : List UInt8} (h : Fits n old) (s : SettingsData n) {cut : ℕ}
    (hc : settingSize n + 6 ≤ cut) : (stored n (saveCut old s cut)).crc = workingCrc s := by
  have hroom : eepromOffset + settingSize n ≤ old.length := h
  have hsize := settingSize_eq n
  have hlen := saveCut_length old s cut
  have hle : ((leBytes 2 (workingCrc s).toNat).take (cut - settingSize n - 4)) = leBytes 2 (workingCrc s).toNat :=
    List.take_of_length_le (by rw [leBytes_length]; omega)
  have hcell : ∀ i, i < 2 →
      (saveCut old s cut)[eepromOffset + 4 + i]? = (leBytes 2 (workingCrc s).toNat)[i]? := by
    intro i hi
    rw [saveCut_of_fits h] at hlen ⊢
    have hpre : eepromOffset + 4 + (leBytes 2 (workingCrc s).toNat).length ≤
        (splice (splice old eepromOffset ((image s).take cut)) eepromOffset
          ((List.ofFn eepromVersion).take (cut - settingSize n))).length := by
      rw [splice_length, splice_length, leBytes_length]
      · omega
      · rw [List.length_take, image_length]
        omega
      · rw [splice_length, List.length_take, List.length_ofFn]
        · omega
        · rw [List.length_take, image_length]
          omega
    rw [hle, getElem?_splice hpre, if_neg (by omega), if_pos (by rw [leBytes_length]; omega), Nat.add_sub_cancel_left]
  have hbytes : (((crEepromRead (saveCut old s cut) eepromOffset (settingSize n)).drop 4).take 2) =
      leBytes 2 (workingCrc s).toNat := by
    apply List.ext_getElem?
    intro i
    by_cases hi : i < 2
    · rw [List.getElem?_take_of_lt hi, List.getElem?_drop, ← hcell i hi]
      unfold crEepromRead
      rw [List.getElem?_take_of_lt (by omega), List.getElem?_drop, Nat.add_assoc]
    · rw [List.getElem?_eq_none (by rw [List.length_take]; omega),
        List.getElem?_eq_none (by rw [leBytes_length]; omega)]
  show (Layout.le 2).dec (((crEepromRead (saveCut old s cut) eepromOffset (settingSize n)).drop 4).take 2) = _
  rw [hbytes]
  exact (Layout.le 2).dec_enc (workingCrc s)

/-- **A whole save is loaded.** -/
theorem load_afterSave (reset : SettingsData n → SettingsData n) {old : List UInt8} (h : Fits n old)
    (s : SettingsData n) {cut : ℕ} (hc : settingSize n + 6 ≤ cut) (r : Ram n) :
    eepromLoadSetting reset (saveCut old s cut) r = (true, ⟨stamped s, false⟩) := by
  have hf : Fits n (saveCut old s cut) := by
    unfold Fits
    rw [saveCut_length]
    exact h
  have hvers : (stored n (saveCut old s cut)).version = eepromVersion := by
    ext i : 1
    have hi := i.isLt
    rw [saveCut_version h, if_pos (by omega)]
  have hbody := saveCut_body h s (show settingSize n ≤ cut by omega)
  have hst : stored n (saveCut old s cut) = stamped s := SettingsData.ext hvers (saveCut_crc h s hc) hbody
  have hsum : workingCrc (stamped s) = (stamped s).crc := by
    rw [workingCrc_eq]
    exact (workingCrc_eq s).symm
  have hok : versionOk (stamped s) = true := rfl
  have hacc : acceptSetting (stamped s) { r with eepromError := false } = ⟨stamped s, false⟩ := by
    unfold acceptSetting
    rw [hok, if_neg (by decide), if_pos hsum]
  rw [eepromLoadSetting_of_fits reset hf, hst, hacc]
  rfl

/-- **Torn saves are detected**, for any old store, any new value and any cut: a load fails, finds the old store, or
gives the new value in all fields; and a load of any store that fails leaves the settings, unless the image does not
fit behind the offset, when the defaults are set. -/
theorem eeprom_torn_save (reset : SettingsData n → SettingsData n) (old store : List UInt8) (s : SettingsData n)
    (cut : ℕ) (r : Ram n) :
    ((eepromLoadSetting reset (saveCut old s cut) r).1 = false ∨ saveCut old s cut = old ∨
        (eepromLoadSetting reset (saveCut old s cut) r).2.settingData = stamped s) ∧
      ((eepromLoadSetting reset store r).1 = false →
        (eepromLoadSetting reset store r).2.settingData =
          if settingSize n ≤ store.length ∧ ¬ Fits n store then reset r.settingData else r.settingData) :=
  ⟨load_afterCut reset old s cut r, load_fail reset store r⟩

/-- The first store of `EepromResetSetting`: `PlanSetting.Max_Accel[0]`, at byte 124 of the structure, is 3000. -/
def resetMaxAccel (s : SettingsData 586) : SettingsData 586 :=
  { s with
    body := fun i =>
      match i.val with
      | 118 => 0xB8
      | 119 => 0x0B
      | 120 => 0
      | 121 => 0
      | _ => s.body i }

/-- **A store too short for offset and image**, of 600 bytes for the 592 of the structure, passes the check of the
capacity; the load fails and sets the defaults. -/
theorem shortStore_resets :
    (eepromLoadSetting resetMaxAccel (List.replicate 600 0xFF) ⟨⟨eepromVersion, 0, fun _ => 0⟩, false⟩).1 = false ∧
      (eepromLoadSetting resetMaxAccel (List.replicate 600 0xFF) ⟨⟨eepromVersion, 0, fun _ => 0⟩,
        false⟩).2.settingData ≠
        ⟨eepromVersion, 0, fun _ => 0⟩ := by
  have hf : ¬ Fits 586 (List.replicate 600 0xFF) := by
    unfold Fits
    rw [settingSize_eq, List.length_replicate]
    decide
  rw [eepromLoadSetting_of_not_fits _ hf]
  refine ⟨rfl, fun h => ?_⟩
  rw [if_neg (by rw [settingSize_eq, List.length_replicate]; decide)] at h
  have hb : (0xB8 : UInt8) = 0 := congrFun (congrArg SettingsData.body h) 118
  exact absurd hb (by decide)

end Save

end Cxsw.Eeprom
