import Mathlib.Data.UInt
import Cxsw.Lib.Run
import Cxsw.Lib.Span
import Cxsw.Common.CrEepromApi

/-!
# Cxsw.Common.EepromRegions — the regions of the EEPROM (`Common/RtthreadSrc/CrEepromApi.cpp`)

The settings stand above `EEPROM_OFFSET`, the meshes of bed leveling below `MeshesEnd`, slot by slot downwards.  All
functions read and write at the one `Offset`.  `StoreMesh` and `LoadMesh` are empty unless `AUTO_BED_LEVELING_UBL` is
defined, which no file of the repository does (`ubl`); with it a load of the settings loads a mesh as well.  The
store never loses power here.

* `Region`, `Session.apply`: the calls, with a record of what was last stored where.
* `eepromSaveSetting_spec`, `eepromLoadSetting_eq`: both functions are those of `CrEepromApi` on its region.
* `RegionInv.step`: every call is as it should be, and the record stays that of the store.
* `regions_kept_iff`: so it is in every run, exactly if the reported capacity reaches up to the meshes.
-/

namespace Cxsw.Eeprom

open Cxsw.Ring

/-! ## The functions -/

section Defs

/-- The bytes of `SettingsData_t` behind the checksum; the structure has 592 bytes. -/
abbrev bodySize : ℕ := 586

/-- `UblLevelAttr.UblStorageSlot`, the byte 297 of the structure. -/
def ublStorageSlot (s : SettingsData bodySize) : UInt8 := s.body 291

/-- `sizeof(UblValueZ)`: nine `FLOAT`s. -/
def ublSize : ℕ := 36

/-- `UblValueZ` in memory. -/
abbrev UblMesh := Fin 36 → UInt8

/-- `EEPROM_CAPACITY`. -/
def eepromCapacity : ℕ := 4096

/-- `MeshesEnd`. -/
def meshesEnd : ℕ := eepromCapacity - 129

/-- The EEPROM and the globals of the file: `Ram`, `Offset`, `UsedSize` and `UblValueZ`. -/
structure Device extends Ram bodySize where
  store : List UInt8
  offset : ℕ
  usedSize : ℕ
  ublValueZ : UblMesh

/-- `MeshesStartIndex`. -/
def meshesStartIndex (usedSize : ℕ) : ℕ := (usedSize + eepromOffset + 32) &&& 0xFFF8

/-- `CalcNumMeshes`: a quotient of `size_t`, returned as a `U16`. -/
def calcNumMeshes (usedSize : ℕ) : BitVec 16 :=
  BitVec.ofNat 16 ((BitVec.ofInt 32 ((meshesEnd : ℤ) - meshesStartIndex usedSize)).toNat / ublSize)

/-- `MeshSlotOffset`; the slot is a `U8`. -/
def meshSlotOffset (slot : BitVec 8) : BitVec 32 := BitVec.ofInt 32 (meshesEnd - (slot.toNat + 1) * ublSize)

namespace Device

/-- `EepromStart`. -/
def eepromStart (d : Device) : Device := { d with offset := eepromOffset }

/-- `EepromSkip`. -/
def eepromSkip (d : Device) (skip : ℕ) : Device := { d with offset := (d.offset + skip) % 2 ^ 32 }

/-- `EepromFinish`. -/
def eepromFinish (d : Device) : Device := { d with offset := eepromOffset }

/-- `EepromWrite`: how much was written, and the store after it. -/
def eepromWrite (d : Device) (data : List UInt8) : ℕ × Device :=
  let w := crEepromWrite ⟨d.store, data.length⟩ d.offset data
  (w.1, { d with store := w.2.bytes })

/-- `EepromRead`. -/
def eepromRead (d : Device) (len : ℕ) : List UInt8 := crEepromRead d.store d.offset len

/-- `WITHIN(Slot, 0, A - 1)`, where `A` is an `S16`. -/
def Within (d : Device) (slot : ℤ) : Prop := 0 ≤ slot ∧ slot ≤ (calcNumMeshes d.usedSize).toInt - 1

instance (d : Device) (slot : ℤ) : Decidable (d.Within slot) := inferInstanceAs (Decidable (_ ∧ _))

/-- `StoreMesh`, and whether all of the mesh was written.  `slot` is an `S8`, whether `char` has a sign or not. -/
def storeMesh (ubl : Bool) (d : Device) (slot : ℤ) : Bool × Device :=
  if ubl = true ∧ d.Within slot then
    let pos := meshSlotOffset (BitVec.ofInt 8 slot)
    let d := { d.eepromStart with offset := pos.toNat }
    let w := d.eepromWrite (List.ofFn d.ublValueZ)
    (decide (ublSize ≤ w.1), w.2.eepromFinish)
  else (false, d)

/-- `LoadMesh` into `UblValueZ`, and whether all of the mesh was read. -/
def loadMesh (ubl : Bool) (d : Device) (slot : ℤ) : Bool × Device :=
  if ubl = true ∧ d.Within slot then
    let pos := meshSlotOffset (BitVec.ofInt 8 slot)
    let d := { d.eepromStart with offset := pos.toNat }
    let data := d.eepromRead ublSize
    (decide (ublSize ≤ data.length), { d with ublValueZ := fun i => (data[i]?).getD (d.ublValueZ i) }.eepromFinish)
  else (false, d)

/-- `EepromSaveSetting`; `UBL_SAVE_ACTIVE_ON_M500` is not defined. -/
def eepromSaveSetting (d : Device) : ℕ × Device :=
  if d.store.length < settingSize bodySize then (0, d)
  else
    let setting : SettingsData bodySize := { d.settingData with version := errVersion, crc := 0 }
    let d := { d with settingData := setting }
    let d := { d.eepromStart with eepromError := false }
    let w := d.eepromWrite ((SettingsData.layout bodySize).enc setting)
    let d :=
      if settingSize bodySize ≤ w.1 then
        let d := { w.2 with usedSize := settingSize bodySize, offset := eepromOffset }
        let d := (d.eepromWrite ((Layout.bytes 4).enc eepromVersion)).2
        let d := d.eepromSkip 4
        (d.eepromWrite ((Layout.le 2).enc (workingCrc setting))).2
      else { w.2 with eepromError := true }
    (w.1, d.eepromFinish)

/-- The checks of `EepromLoadSetting` on a setting that was read. -/
def acceptSetting (ubl : Bool) (d : Device) (setting : SettingsData bodySize) : Device :=
  let d := { d with usedSize := settingSize bodySize, offset := eepromOffset }
  if ! versionOk setting then { d with eepromError := true }
  else if workingCrc setting = setting.crc then
    -- the slot is a `U8`, so it always passes the test for a negative one
    ({ d with settingData := setting }.loadMesh ubl (ublStorageSlot setting).toNat).2
  else { d with eepromError := true }

/-- `EepromLoadSetting`: its result and the state after it. -/
def eepromLoadSetting (ubl : Bool) (reset : SettingsData bodySize → SettingsData bodySize) (d : Device) :
    Bool × Device :=
  if d.store.length < settingSize bodySize then (false, d)
  else
    let d := { d.eepromStart with eepromError := false }
    let data := d.eepromRead (settingSize bodySize)
    let d :=
      if settingSize bodySize ≤ data.length then d.acceptSetting ubl ((SettingsData.layout bodySize).dec data)
      else
        let data := d.eepromRead (settingSize bodySize)
        if settingSize bodySize ≤ data.length then d.acceptSetting ubl ((SettingsData.layout bodySize).dec data)
        else { d with settingData := reset d.settingData, eepromError := true }
    let d := d.eepromFinish
    (! d.eepromError, d)

end Device

end Defs

/-! ## Regions and calls -/

section Calls

/-- The regions of the store. -/
inductive Region
  | settings
  | mesh (slot : ℕ)
  deriving DecidableEq

/-- Where a region lies. -/
def Region.span : Region → Span
  | .settings => ⟨eepromOffset, settingSize bodySize⟩
  | .mesh slot => ⟨meshesEnd - (slot + 1) * ublSize, ublSize⟩

/-- The slots that `StoreMesh` and `LoadMesh` accept. -/
def Device.Accepts (ubl : Bool) (d : Device) (slot : ℤ) : Prop := ubl = true ∧ d.Within slot

instance (ubl : Bool) (d : Device) (slot : ℤ) : Decidable (d.Accepts ubl slot) := inferInstanceAs (Decidable (_ ∧ _))

/-- The regions in use. -/
def Device.Has (ubl : Bool) (d : Device) : Region → Prop
  | .settings => True
  | .mesh slot => d.Accepts ubl slot

/-- The calls, and what the rest of the firmware does between them: it sets the settings and the mesh. -/
inductive EepromCall
  | set (settingData : SettingsData bodySize) (ublValueZ : UblMesh)
  | saveSetting
  | loadSetting
  | storeMesh (slot : ℤ)
  | loadMesh (slot : ℤ)

/-- What was last stored in each region. -/
structure Written where
  settings : Option (Fin bodySize → UInt8)
  mesh : ℕ → Option UblMesh

/-- The device, and what was stored in it. -/
structure Session where
  device : Device
  written : Written

/-- After power-on, with anything in the store. -/
def Session.start (store : List UInt8) : Session where
  device :=
    { settingData := ⟨0, 0, 0⟩, eepromError := false, store := store, offset := eepromOffset,
      usedSize := settingSize bodySize, ublValueZ := 0 }
  written := ⟨none, fun _ => none⟩

/-- A call.  A store that succeeds is recorded. -/
def Session.apply (ubl : Bool) (reset : SettingsData bodySize → SettingsData bodySize) (s : Session) :
    EepromCall → Session
  | .set settingData ublValueZ =>
    { s with device := { s.device with settingData := settingData, ublValueZ := ublValueZ } }
  | .saveSetting =>
    let r := s.device.eepromSaveSetting
    ⟨r.2, if settingSize bodySize ≤ r.1 then { s.written with settings := some s.device.settingData.body }
      else s.written⟩
  | .loadSetting => { s with device := (s.device.eepromLoadSetting ubl reset).2 }
  | .storeMesh slot =>
    let r := s.device.storeMesh ubl slot
    ⟨r.2, if r.1 then { s.written with mesh := Function.update s.written.mesh slot.toNat (some s.device.ublValueZ) }
      else s.written⟩
  | .loadMesh slot => { s with device := (s.device.loadMesh ubl slot).2 }

/-- A store into `region` left everything else, and so what every other region holds. -/
def KeepsOthers (ubl : Bool) (d : Device) (region : Region) (store : List UInt8) : Prop :=
  region.span.SameOutside store d.store ∧
    ∀ other, d.Has ubl other → other ≠ region → other.span.read store = other.span.read d.store

/-- The slot lies in the EEPROM, above the image of the settings. -/
def SlotInside (d : Device) (slot : ℤ) : Prop :=
  (Region.mesh slot.toNat).span.Inside d.store.length ∧
    eepromOffset + settingSize bodySize ≤ (Region.mesh slot.toNat).span.base

/-- **What is asked of a call**: a store keeps the other regions; a load that succeeds gives what was last stored; a
slot that is accepted lies in the EEPROM, any other changes nothing. -/
def CallOk (ubl : Bool) (reset : SettingsData bodySize → SettingsData bodySize) (s : Session) : EepromCall → Prop
  | .set _ _ => True
  | .saveSetting => KeepsOthers ubl s.device .settings s.device.eepromSaveSetting.2.store
  | .loadSetting =>
    let r := s.device.eepromLoadSetting ubl reset
    r.2.store = s.device.store ∧ (r.1 = true →
      (∀ body, s.written.settings = some body → r.2.settingData.body = body) ∧
        (∀ mesh, s.written.mesh (ublStorageSlot r.2.settingData).toNat = some mesh → r.2.ublValueZ = mesh) ∧
        (¬ s.device.Accepts ubl (ublStorageSlot r.2.settingData).toNat → r.2.ublValueZ = s.device.ublValueZ))
  | .storeMesh slot =>
    if s.device.Accepts ubl slot then
      SlotInside s.device slot ∧ KeepsOthers ubl s.device (.mesh slot.toNat) (s.device.storeMesh ubl slot).2.store
    else s.device.storeMesh ubl slot = (false, s.device)
  | .loadMesh slot =>
    if s.device.Accepts ubl slot then
      SlotInside s.device slot ∧ (s.device.loadMesh ubl slot).2.store = s.device.store ∧
        ((s.device.loadMesh ubl slot).1 = true →
          ∀ mesh, s.written.mesh slot.toNat = some mesh → (s.device.loadMesh ubl slot).2.ublValueZ = mesh)
    else s.device.loadMesh ubl slot = (false, s.device)

end Calls

/-! ## One function -/

section Functions

variable {d : Device} {ubl : Bool} {slot : ℤ}

@[simp] theorem Region.settings_span : Region.settings.span = ⟨100, 592⟩ := rfl

@[simp] theorem Region.mesh_span (slot : ℕ) : (Region.mesh slot).span = ⟨3967 - (slot + 1) * 36, 36⟩ := rfl

theorem settingSize_bodySize : settingSize bodySize = 592 := rfl

namespace Device

theorem eepromWrite_eq (d : Device) (data : List UInt8) :
    d.eepromWrite data =
      ((data.take (d.store.length - d.offset)).length, { d with store := writeAt d.store d.offset data }) := by
  have hpower : (data.take (d.store.length - d.offset)).take data.length = data.take (d.store.length - d.offset) :=
    List.take_of_length_le (by rw [List.length_take]; omega)
  unfold eepromWrite crEepromWrite writeAt
  simp only [hpower]

theorem within_iff (h : d.usedSize = settingSize bodySize) : d.Within slot ↔ 0 ≤ slot ∧ slot < 90 := by
  have hnum : (calcNumMeshes (settingSize bodySize)).toInt - 1 = 89 := by decide
  unfold Within
  rw [h, hnum]
  omega

theorem meshSlotOffset_eq (h0 : 0 ≤ slot) (h90 : slot < 90) :
    (meshSlotOffset (BitVec.ofInt 8 slot)).toNat = (Region.mesh slot.toNat).span.base := by
  have hslot : (BitVec.ofInt 8 slot).toNat = slot.toNat := by
    rw [BitVec.toNat_ofInt]
    omega
  unfold meshSlotOffset
  rw [hslot, BitVec.toNat_ofInt, Region.mesh_span]
  unfold meshesEnd eepromCapacity ublSize
  dsimp only
  omega

/-- **Regions do not meet.** -/
theorem apart (h : d.usedSize = settingSize bodySize) {r r' : Region} (hr : d.Has ubl r) (hr' : d.Has ubl r')
    (hne : r ≠ r') : r.span.Apart r'.span := by
  have hmesh : ∀ {k : ℕ}, d.Has ubl (.mesh k) → Region.settings.span.Apart (Region.mesh k).span := by
    intro k hk
    obtain ⟨h0, h90⟩ := (within_iff h).mp hk.2
    simp only [Span.Apart, Region.settings_span, Region.mesh_span]
    omega
  rcases r with _ | k <;> rcases r' with _ | k'
  · exact absurd rfl hne
  · exact hmesh hr'
  · exact (hmesh hr).symm
  · obtain ⟨-, hk⟩ := (within_iff h).mp hr.2
    obtain ⟨-, hk'⟩ := (within_iff h).mp hr'.2
    have hkk : k ≠ k' := fun hk => hne (congrArg Region.mesh hk)
    simp only [Span.Apart, Region.mesh_span]
    omega

theorem keepsOthers (h : d.usedSize = settingSize bodySize) (region : Region) (hr : d.Has ubl region)
    {store : List UInt8} (hs : region.span.SameOutside store d.store) : KeepsOthers ubl d region store :=
  ⟨hs, fun _ hother hne => hs.read_eq (apart h hother hr hne)⟩

theorem enc_unstamped (s : SettingsData bodySize) :
    (SettingsData.layout bodySize).enc { s with version := errVersion, crc := 0 } = image s := rfl

theorem eepromSaveSetting_eq (h : ¬ d.store.length < settingSize bodySize) :
    d.eepromSaveSetting.1 = min (d.store.length - eepromOffset) (settingSize bodySize) ∧
      d.eepromSaveSetting.2.store =
        if settingSize bodySize ≤ d.eepromSaveSetting.1 then
          writeAt (writeAt (writeAt d.store eepromOffset (image d.settingData)) eepromOffset (List.ofFn eepromVersion))
            (eepromOffset + 4) (leBytes 2 (workingCrc d.settingData).toNat)
        else writeAt d.store eepromOffset (image d.settingData) := by
  have hcrc : workingCrc ({ d.settingData with version := errVersion, crc := 0 } : SettingsData bodySize) =
      workingCrc d.settingData := by rw [workingCrc_eq, workingCrc_eq]
  have hcount : ((image d.settingData).take (d.store.length - eepromOffset)).length =
      min (d.store.length - eepromOffset) (settingSize bodySize) := by rw [List.length_take, image_length]
  unfold eepromSaveSetting
  rw [if_neg h]
  simp only [eepromWrite_eq, eepromStart, eepromSkip, eepromFinish, enc_unstamped, hcount, hcrc]
  refine ⟨trivial, ?_⟩
  split_ifs
  · rfl
  · rfl

theorem eepromSaveSetting_usedSize (h : d.usedSize = settingSize bodySize) :
    d.eepromSaveSetting.2.usedSize = settingSize bodySize := by
  unfold eepromSaveSetting
  simp only [eepromWrite_eq, eepromStart, eepromSkip, eepromFinish]
  split_ifs
  · exact h
  · rfl
  · exact h

/-- **A save** writes into the region of the settings. -/
theorem sameOutside_eepromSaveSetting (d : Device) :
    Region.settings.span.SameOutside d.eepromSaveSetting.2.store d.store := by
  by_cases hcap : d.store.length < settingSize bodySize
  · unfold eepromSaveSetting
    rw [if_pos hcap]
    exact Span.SameOutside.refl _ _
  · have hspan : ∀ {xs data : List UInt8} {off : ℕ}, eepromOffset ≤ off →
        off + data.length ≤ eepromOffset + settingSize bodySize →
        Region.settings.span.SameOutside (writeAt xs off data) xs := fun h1 h2 => Span.sameOutside_writeAt h1 h2
    have himg : ∀ xs, Region.settings.span.SameOutside (writeAt xs eepromOffset (image d.settingData)) xs := fun xs =>
      hspan le_rfl (by rw [image_length])
    rw [(eepromSaveSetting_eq hcap).2]
    split_ifs
    · refine (hspan (by omega) ?_).trans ((hspan le_rfl ?_).trans (himg _))
      · rw [leBytes_length, settingSize_bodySize]
        omega
      · rw [List.length_ofFn, settingSize_bodySize]
        omega
    · exact himg _

theorem eepromSaveSetting_success (h : Fits bodySize d.store) : settingSize bodySize ≤ d.eepromSaveSetting.1 := by
  have hroom : eepromOffset + settingSize bodySize ≤ d.store.length := h
  rw [(eepromSaveSetting_eq (by omega)).1]
  omega

/-- **A save that succeeds** is the one of `CrEepromApi` whose power does not fail. -/
theorem eepromSaveSetting_of_success (h : settingSize bodySize ≤ d.eepromSaveSetting.1) :
    Fits bodySize d.store ∧
      d.eepromSaveSetting.2.store = saveCut d.store d.settingData (settingSize bodySize + 6) := by
  have hcap : ¬ d.store.length < settingSize bodySize := by
    intro hcap
    unfold eepromSaveSetting at h
    rw [if_pos hcap] at h
    exact absurd (show settingSize bodySize ≤ 0 from h) (by decide)
  have hroom : eepromOffset + settingSize bodySize ≤ d.store.length := by
    have hcount := (eepromSaveSetting_eq hcap).1
    have hpos : 0 < settingSize bodySize := by decide
    generalize settingSize bodySize = size at h hcount hpos ⊢
    omega
  have himg := image_length d.settingData
  have hver : (List.ofFn eepromVersion).length = 4 := List.length_ofFn
  have hle := leBytes_length 2 (workingCrc d.settingData).toNat
  refine ⟨hroom, ?_⟩
  rw [(eepromSaveSetting_eq hcap).2, if_pos h, saveCut_of_fits hroom, Nat.add_sub_cancel_left,
    writeAt_within (by rw [himg]; exact hroom) (by rw [hver, himg]; decide) (by rw [hle, himg]; decide),
    List.take_of_length_le (by rw [himg]; exact Nat.le_add_right _ _), List.take_of_length_le (by rw [hver]; decide),
    List.take_of_length_le hle.le]

theorem storeMesh_of_not_accepts (h : ¬ d.Accepts ubl slot) : d.storeMesh ubl slot = (false, d) := if_neg h

theorem loadMesh_of_not_accepts (h : ¬ d.Accepts ubl slot) : d.loadMesh ubl slot = (false, d) := if_neg h

/-- **`StoreMesh`** writes the mesh into the region of its slot. -/
theorem storeMesh_of_accepts (hsize : d.usedSize = settingSize bodySize) (h : d.Accepts ubl slot) :
    d.storeMesh ubl slot =
      (decide (ublSize ≤ min (d.store.length - (Region.mesh slot.toNat).span.base) ublSize),
        { d with
          store := writeAt d.store (Region.mesh slot.toNat).span.base (List.ofFn d.ublValueZ)
          offset := eepromOffset }) := by
  obtain ⟨h0, h90⟩ := (within_iff hsize).mp h.2
  unfold storeMesh
  rw [if_pos (show ubl = true ∧ d.Within slot from h)]
  simp only [eepromWrite_eq, eepromStart, eepromFinish, meshSlotOffset_eq h0 h90, List.length_take, List.length_ofFn]
  rfl

/-- **`LoadMesh`** reads the region of its slot. -/
theorem loadMesh_of_accepts (hsize : d.usedSize = settingSize bodySize) (h : d.Accepts ubl slot) :
    d.loadMesh ubl slot =
      (decide (ublSize ≤ ((Region.mesh slot.toNat).span.read d.store).length),
        { d with
          offset := eepromOffset
          ublValueZ := fun i => (((Region.mesh slot.toNat).span.read d.store)[i]?).getD (d.ublValueZ i) }) := by
  obtain ⟨h0, h90⟩ := (within_iff hsize).mp h.2
  unfold loadMesh
  rw [if_pos (show ubl = true ∧ d.Within slot from h)]
  simp only [eepromRead, eepromStart, eepromFinish, meshSlotOffset_eq h0 h90]
  rfl

theorem loadMesh_of_read (hsize : d.usedSize = settingSize bodySize) (h : d.Accepts ubl slot) {mesh : UblMesh}
    (hread : (Region.mesh slot.toNat).span.read d.store = List.ofFn mesh) :
    (d.loadMesh ubl slot).2.ublValueZ = mesh := by
  ext i : 1
  rw [loadMesh_of_accepts hsize h, hread]
  show ((List.ofFn mesh)[(i : ℕ)]?).getD (d.ublValueZ i) = mesh i
  rw [List.getElem?_ofFn, dif_pos i.isLt]
  rfl

theorem loadMesh_congr {d' : Device} (hsize : d.usedSize = settingSize bodySize)
    (hsize' : d'.usedSize = settingSize bodySize) (hstore : d'.store = d.store) (hubl : d'.ublValueZ = d.ublValueZ) :
    (d'.loadMesh ubl slot).2.ublValueZ = (d.loadMesh ubl slot).2.ublValueZ := by
  have hacc : d'.Accepts ubl slot ↔ d.Accepts ubl slot := by
    unfold Accepts Within
    rw [hsize, hsize']
  by_cases h : d.Accepts ubl slot
  · rw [loadMesh_of_accepts hsize h, loadMesh_of_accepts hsize' (hacc.mpr h), hstore, hubl]
  · rw [loadMesh_of_not_accepts h, loadMesh_of_not_accepts (mt hacc.mp h)]
    exact hubl

theorem loadMesh_same (ubl : Bool) (d : Device) (slot : ℤ) :
    (d.loadMesh ubl slot).2.toRam = d.toRam ∧ (d.loadMesh ubl slot).2.store = d.store ∧
      (d.loadMesh ubl slot).2.usedSize = d.usedSize := by
  unfold loadMesh
  split_ifs
  · exact ⟨rfl, rfl, rfl⟩
  · exact ⟨rfl, rfl, rfl⟩

/-- The checks are those of `CrEepromApi`; a setting that passes them loads its mesh. -/
theorem acceptSetting_eq (ubl : Bool) (hsize : d.usedSize = settingSize bodySize) (setting : SettingsData bodySize) :
    (d.acceptSetting ubl setting).toRam = Eeprom.acceptSetting setting d.toRam ∧
      (d.acceptSetting ubl setting).store = d.store ∧
      (d.acceptSetting ubl setting).usedSize = settingSize bodySize ∧
      ((d.acceptSetting ubl setting).eepromError = false →
        (d.acceptSetting ubl setting).ublValueZ = (d.loadMesh ubl (ublStorageSlot setting).toNat).2.ublValueZ) := by
  unfold acceptSetting Eeprom.acceptSetting
  dsimp only
  split_ifs
  · exact ⟨rfl, rfl, rfl, fun h => absurd h (by simp)⟩
  · obtain ⟨hram, hstore, hused⟩ := loadMesh_same ubl
      { d with settingData := setting, usedSize := settingSize bodySize, offset := eepromOffset }
      (ublStorageSlot setting).toNat
    exact ⟨hram, hstore, hused, fun _ => loadMesh_congr hsize rfl rfl rfl⟩
  · exact ⟨rfl, rfl, rfl, fun h => absurd h (by simp)⟩

/-- **A load** is the one of `CrEepromApi`; if it succeeds it loads the mesh of the slot in the settings as well. -/
theorem eepromLoadSetting_eq (ubl : Bool) (reset : SettingsData bodySize → SettingsData bodySize)
    (hsize : d.usedSize = settingSize bodySize) :
    (d.eepromLoadSetting ubl reset).1 = (Eeprom.eepromLoadSetting reset d.store d.toRam).1 ∧
      (d.eepromLoadSetting ubl reset).2.toRam = (Eeprom.eepromLoadSetting reset d.store d.toRam).2 ∧
      (d.eepromLoadSetting ubl reset).2.store = d.store ∧
      (d.eepromLoadSetting ubl reset).2.usedSize = settingSize bodySize ∧
      ((d.eepromLoadSetting ubl reset).1 = true → (d.eepromLoadSetting ubl reset).2.ublValueZ =
        (d.loadMesh ubl (ublStorageSlot (d.eepromLoadSetting ubl reset).2.settingData).toNat).2.ublValueZ) := by
  unfold eepromLoadSetting Eeprom.eepromLoadSetting
  by_cases hcap : d.store.length < settingSize bodySize
  · rw [if_pos hcap, if_pos hcap]
    exact ⟨rfl, rfl, rfl, hsize, fun h => absurd h (by simp)⟩
  · rw [if_neg hcap, if_neg hcap]
    dsimp only [eepromStart, eepromRead, eepromFinish]
    rw [show (SettingsData.layout bodySize).dec (crEepromRead d.store eepromOffset (settingSize bodySize)) =
      stored bodySize d.store from rfl]
    by_cases hread : settingSize bodySize ≤ (crEepromRead d.store eepromOffset (settingSize bodySize)).length
    · rw [if_pos hread, if_pos hread]
      obtain ⟨hram, hstore, hused, hubl⟩ := acceptSetting_eq
        (d := { d with offset := eepromOffset, eepromError := false })
        ubl hsize (stored bodySize d.store)
      refine ⟨congrArg (fun r => ! r.eepromError) hram, hram, hstore, hused, fun hok => ?_⟩
      -- a setting that has passed the checks is the one in memory
      have herr := (Bool.not_eq_true' _).mp hok
      obtain ⟨hbad, -⟩ | ⟨-, -, hacc⟩ :=
        acceptSetting_spec (stored bodySize d.store) { d.toRam with eepromError := false } rfl
      · exact absurd ((congrArg Ram.eepromError hram).trans hbad) (Bool.eq_false_iff.mp herr)
      · have hsetting := (congrArg Ram.settingData hram).trans (congrArg Ram.settingData hacc)
        rw [hubl herr, hsetting]
        exact loadMesh_congr hsize hsize rfl rfl
    · simp only [if_neg hread]
      exact ⟨trivial, trivial, trivial, hsize, fun h => absurd h (by simp)⟩

end Device

end Functions

/-! ## Runs -/

section Sessions

variable {ubl : Bool} {capacity : ℕ} {s : Session}

/-- The regions hold what is recorded. -/
structure RegionInv (ubl : Bool) (capacity : ℕ) (s : Session) : Prop where
  usedSize : s.device.usedSize = settingSize bodySize
  length : s.device.store.length = capacity
  settings : ∀ body, s.written.settings = some body →
    Fits bodySize s.device.store ∧ (stored bodySize s.device.store).body = body
  mesh : ∀ slot mesh, s.written.mesh slot = some mesh →
    s.device.Accepts ubl slot ∧ (Region.mesh slot).span.read s.device.store = List.ofFn mesh

theorem accepts_congr {d d' : Device} (h : d'.usedSize = d.usedSize) (slot : ℤ) :
    d'.Accepts ubl slot ↔ d.Accepts ubl slot := by
  unfold Device.Accepts Device.Within
  rw [h]

theorem stored_congr {store store' : List UInt8}
    (h : Region.settings.span.read store' = Region.settings.span.read store) :
    stored bodySize store' = stored bodySize store := congrArg (SettingsData.layout bodySize).dec h

theorem fits_congr {store store' : List UInt8} (h : store'.length = store.length) :
    Fits bodySize store' ↔ Fits bodySize store := by
  unfold Fits
  rw [h]

theorem RegionInv.of_store_eq (h : RegionInv ubl capacity s) {d : Device} (hsize : d.usedSize = settingSize bodySize)
    (hstore : d.store = s.device.store) : RegionInv ubl capacity { s with device := d } := by
  refine ⟨hsize, (congrArg List.length hstore).trans h.length, fun body hb => ?_, fun slot mesh hm => ?_⟩
  · show Fits bodySize d.store ∧ (stored bodySize d.store).body = body
    rw [hstore]
    exact h.settings body hb
  · show d.Accepts ubl slot ∧ (Region.mesh slot).span.read d.store = List.ofFn mesh
    rw [hstore, accepts_congr (hsize.trans h.usedSize.symm)]
    exact h.mesh slot mesh hm

/-- A slot that is accepted lies in a store that reaches up to the meshes. -/
theorem slotInside_of_accepts (h : RegionInv ubl capacity s) (hcap : ubl = true → meshesEnd ≤ capacity) {slot : ℤ}
    (hacc : s.device.Accepts ubl slot) : SlotInside s.device slot := by
  obtain ⟨h0, h90⟩ := (Device.within_iff h.usedSize).mp hacc.2
  have hend := hcap hacc.1
  unfold SlotInside Span.Inside
  rw [h.length, settingSize_bodySize]
  simp only [Region.mesh_span]
  unfold meshesEnd eepromCapacity at hend
  unfold eepromOffset
  omega

/-- **A save.** -/
theorem RegionInv.saveSetting (h : RegionInv ubl capacity s)
    (reset : SettingsData bodySize → SettingsData bodySize) :
    RegionInv ubl capacity (s.apply ubl reset .saveSetting) ∧ CallOk ubl reset s .saveSetting := by
  have hspan := Device.sameOutside_eepromSaveSetting s.device
  have hkeeps : KeepsOthers ubl s.device .settings s.device.eepromSaveSetting.2.store :=
    Device.keepsOthers h.usedSize .settings trivial hspan
  have hsize := Device.eepromSaveSetting_usedSize h.usedSize
  have hlength := hspan.1.trans h.length
  have hmesh : ∀ slot mesh, s.written.mesh slot = some mesh → s.device.eepromSaveSetting.2.Accepts ubl slot ∧
      (Region.mesh slot).span.read s.device.eepromSaveSetting.2.store = List.ofFn mesh := by
    intro slot mesh hm
    obtain ⟨hacc, hread⟩ := h.mesh slot mesh hm
    exact ⟨(accepts_congr (hsize.trans h.usedSize.symm) slot).mpr hacc,
      (hkeeps.2 (.mesh slot) hacc (by simp)).trans hread⟩
  refine ⟨?_, hkeeps⟩
  simp only [Session.apply]
  by_cases hok : settingSize bodySize ≤ s.device.eepromSaveSetting.1
  · rw [if_pos hok]
    refine ⟨hsize, hlength, fun body hb => ?_, hmesh⟩
    obtain ⟨hfits, hstore⟩ := Device.eepromSaveSetting_of_success hok
    refine ⟨(fits_congr hspan.1).mpr hfits, ?_⟩
    show (stored bodySize s.device.eepromSaveSetting.2.store).body = body
    rw [hstore, saveCut_body hfits _ (Nat.le_add_right _ _)]
    exact Option.some.inj hb
  · rw [if_neg hok]
    -- where a save has succeeded before, this one does
    exact ⟨hsize, hlength, fun body hb => absurd (Device.eepromSaveSetting_success (h.settings body hb).1) hok, hmesh⟩

/-- **A load.** -/
theorem RegionInv.loadSetting (h : RegionInv ubl capacity s)
    (reset : SettingsData bodySize → SettingsData bodySize) :
    RegionInv ubl capacity (s.apply ubl reset .loadSetting) ∧ CallOk ubl reset s .loadSetting := by
  obtain ⟨hres, hram, hstore, hsize, hubl⟩ := Device.eepromLoadSetting_eq ubl reset h.usedSize
  refine ⟨h.of_store_eq hsize hstore, hstore, fun hok => ⟨fun body hb => ?_, fun mesh hm => ?_, fun hrej => ?_⟩⟩
  · obtain ⟨-, -, -, hval⟩ := load_success reset _ _ (hres.symm.trans hok)
    have hsetting := (congrArg Ram.settingData hram).trans hval
    rw [hsetting]
    exact (h.settings body hb).2
  · obtain ⟨hacc, hread⟩ := h.mesh _ mesh hm
    exact (hubl hok).trans (Device.loadMesh_of_read h.usedSize hacc hread)
  · rw [hubl hok, Device.loadMesh_of_not_accepts hrej]

/-- **A mesh is stored.** -/
theorem RegionInv.storeMesh (h : RegionInv ubl capacity s) (hcap : ubl = true → meshesEnd ≤ capacity)
    (reset : SettingsData bodySize → SettingsData bodySize) (slot : ℤ) :
    RegionInv ubl capacity (s.apply ubl reset (.storeMesh slot)) ∧ CallOk ubl reset s (.storeMesh slot) := by
  simp only [Session.apply, CallOk]
  by_cases hacc : s.device.Accepts ubl slot
  · obtain ⟨h0, -⟩ := (Device.within_iff h.usedSize).mp hacc.2
    have hinside := slotInside_of_accepts h hcap hacc
    have hmine : s.device.Has ubl (.mesh slot.toNat) := by
      show s.device.Accepts ubl slot.toNat
      rw [Int.toNat_of_nonneg h0]
      exact hacc
    have hlen : (List.ofFn s.device.ublValueZ).length = (Region.mesh slot.toNat).span.len := List.length_ofFn
    have hspan : (Region.mesh slot.toNat).span.SameOutside
        (writeAt s.device.store (Region.mesh slot.toNat).span.base (List.ofFn s.device.ublValueZ)) s.device.store :=
      Span.sameOutside_writeAt le_rfl (by rw [hlen])
    have hkeeps := Device.keepsOthers h.usedSize (.mesh slot.toNat) hmine hspan
    have hroom : ublSize ≤ s.device.store.length - (Region.mesh slot.toNat).span.base := by
      have hin : (Region.mesh slot.toNat).span.base + ublSize ≤ s.device.store.length := hinside.1
      omega
    rw [if_pos hacc, Device.storeMesh_of_accepts h.usedSize hacc, min_eq_right hroom, decide_eq_true le_rfl, if_pos rfl]
    refine ⟨⟨h.usedSize, hspan.1.trans h.length, fun body hb => ?_, fun slot' mesh hm => ?_⟩, hinside, hkeeps⟩
    · obtain ⟨hfits, hbody⟩ := h.settings body hb
      have hread := hkeeps.2 .settings trivial (by simp)
      exact ⟨(fits_congr hspan.1).mpr hfits, (congrArg SettingsData.body (stored_congr hread)).trans hbody⟩
    · by_cases hslot : slot' = slot.toNat
      · subst hslot
        dsimp only at hm ⊢
        rw [Function.update_self] at hm
        refine ⟨hmine, ?_⟩
        rw [← Option.some.inj hm, writeAt_of_room (by rw [hlen]; exact hinside.1)]
        exact Span.read_splice hinside.1 hlen
      · dsimp only at hm ⊢
        rw [Function.update_of_ne hslot] at hm
        obtain ⟨hacc', hread⟩ := h.mesh slot' mesh hm
        exact ⟨hacc', (hkeeps.2 (.mesh slot') hacc' (by simpa using hslot)).trans hread⟩
  · have hrej := Device.storeMesh_of_not_accepts hacc
    rw [if_neg hacc, hrej]
    exact ⟨h, rfl⟩

/-- **A mesh is loaded.** -/
theorem RegionInv.loadMesh (h : RegionInv ubl capacity s) (hcap : ubl = true → meshesEnd ≤ capacity)
    (reset : SettingsData bodySize → SettingsData bodySize) (slot : ℤ) :
    RegionInv ubl capacity (s.apply ubl reset (.loadMesh slot)) ∧ CallOk ubl reset s (.loadMesh slot) := by
  obtain ⟨-, hstore, hsize⟩ := Device.loadMesh_same ubl s.device slot
  refine ⟨h.of_store_eq (hsize.trans h.usedSize) hstore, ?_⟩
  simp only [CallOk]
  by_cases hacc : s.device.Accepts ubl slot
  · rw [if_pos hacc]
    refine ⟨slotInside_of_accepts h hcap hacc, hstore, fun _ mesh hm => ?_⟩
    exact Device.loadMesh_of_read h.usedSize hacc (h.mesh _ mesh hm).2
  · rw [if_neg hacc]
    exact Device.loadMesh_of_not_accepts hacc

/-- **Every call** is as it should be, and the record stays that of the store. -/
theorem RegionInv.step (h : RegionInv ubl capacity s) (hcap : ubl = true → meshesEnd ≤ capacity)
    (reset : SettingsData bodySize → SettingsData bodySize) (c : EepromCall) :
    RegionInv ubl capacity (s.apply ubl reset c) ∧ CallOk ubl reset s c := by
  cases c with
  | set settingData ublValueZ => exact ⟨⟨h.usedSize, h.length, h.settings, h.mesh⟩, trivial⟩
  | saveSetting => exact h.saveSetting reset
  | loadSetting => exact h.loadSetting reset
  | storeMesh slot => exact h.storeMesh hcap reset slot
  | loadMesh slot => exact h.loadMesh hcap reset slot

theorem regionInv_start {store : List UInt8} (h : store.length = capacity) :
    RegionInv ubl capacity (Session.start store) :=
  ⟨rfl, h, fun _ hb => absurd hb (by simp [Session.start]), fun _ _ hm => absurd hm (by simp [Session.start])⟩

theorem accepts_zero (store : List UInt8) : (Session.start store).device.Accepts true 0 :=
  ⟨rfl, (Device.within_iff rfl).mpr (by decide)⟩

theorem length_of_callOk {store : List UInt8} {reset : SettingsData bodySize → SettingsData bodySize}
    (h : CallOk true reset (Session.start store) (.storeMesh 0)) : meshesEnd ≤ store.length := by
  simp only [CallOk] at h
  rw [if_pos (accepts_zero _)] at h
  exact h.1.1

/-- **The regions are kept apart and a load gives what was stored**, in every sequence of calls on any store of the
reported capacity, exactly if there are no meshes or the capacity reaches up to their end. -/
theorem regions_kept_iff (ubl : Bool) (reset : SettingsData bodySize → SettingsData bodySize) (capacity : ℕ) :
    (∀ store : List UInt8, store.length = capacity → ∀ calls,
      AllSteps (Session.apply ubl reset) (CallOk ubl reset) (Session.start store) calls) ↔
      (ubl = true → meshesEnd ≤ capacity) := by
  constructor
  · rintro hall rfl
    obtain ⟨hok, -⟩ := hall (List.replicate capacity 0) List.length_replicate [.storeMesh 0]
    have hlen := length_of_callOk hok
    rwa [List.length_replicate] at hlen
  · intro hcap store hlen calls
    refine AllSteps.of_invariant (I := RegionInv ubl capacity) ?_ (regionInv_start hlen) (allSteps_true _ _ calls)
    intro s c hs _
    exact hs.step hcap reset c

/-- **With meshes and a store of 2048 bytes** slot 0 is accepted, and lies beyond the end. -/
theorem slot_beyond_store :
    (Session.start (List.replicate 2048 0)).device.Accepts true 0 ∧
      ¬ CallOk true id (Session.start (List.replicate 2048 0)) (.storeMesh 0) := by
  refine ⟨accepts_zero _, fun hok => ?_⟩
  have hlen := length_of_callOk hok
  rw [List.length_replicate] at hlen
  exact absurd hlen (by decide)

end Sessions

end Cxsw.Eeprom
