import Cxsw.Lib.Layout
import Cxsw.Lib.FloatBits

/-!
# Cxsw.CrConfig.CrParamConfig — the parameter file (`CrConfig/CrParamConfig.cpp`)

The parameters live three times: in the working sets (`TemperSet`, `FansSet`, `MotionParam`), in the configuration
structures, and in a file of `configFileSize` bytes that holds most of these structures one after the other.  Singles
are given by their bits; `ub` is what the target gives for a conversion to `U16` that C leaves undefined.

* `readConfig_written`: what `SaveConfig` writes, `CrConfigLoad` reads back.
* `params_persist_iff`: which parameters survive a save and a load.
-/

namespace Cxsw.Param

open Cxsw.Ring

/-! ## The configuration structures -/

section Structures

/-- `Accele_t`. -/
structure Accele where
  accel : BitVec 16
  aRetract : BitVec 16
  aTravel : BitVec 16
  amaxX : BitVec 16
  amaxY : BitVec 16
  amaxZ : BitVec 16
  amaxE : BitVec 16

/-- `Jerk_t`. -/
structure Jerk where
  vxJerk : BitVec 32
  vyJerk : BitVec 32
  vzJerk : BitVec 32
  veJerk : BitVec 32

/-- `Velocity_t`. -/
structure Velocity where
  vmaxX : BitVec 16
  vmaxY : BitVec 16
  vmaxZ : BitVec 16
  vmaxE : BitVec 16
  vmin : BitVec 16
  vTravMin : BitVec 16

/-- `Steps_t`. -/
structure Steps where
  xsteps : BitVec 32
  ysteps : BitVec 32
  zsteps : BitVec 32
  esteps : BitVec 32

/-- `PreHeatConfig_t`. -/
structure PreHeatConfig where
  bedPreheatTemp : BitVec 32
  nozzlePreheatTemp : BitVec 32
  absBedPreheatTemp : BitVec 32
  absNozzlePreheatTemp : BitVec 32
  plaBedPreheatTemp : BitVec 32
  plaNozzlePreheatTemp : BitVec 32

/-- `FansSpeed_t`. -/
structure FansSpeed where
  fansSpeed : BitVec 32
  plaFansSpeed : BitVec 32
  absFansSpeed : BitVec 32

/-- The static configuration structures of the file. -/
structure Config where
  accele : Accele
  fansSpeed : FansSpeed
  fil : BitVec 32
  filamentVolumePattern : BitVec 32
  jerk : Jerk
  steps : Steps
  temp : PreHeatConfig
  velocity : Velocity
  printRatio : BitVec 16
  flowRatio : BitVec 16

/-- `ParamMaterialTemper_t`. -/
structure ParamMaterialTemper where
  nozzle : BitVec 32
  bed : BitVec 32

/-- `ParamMaterialTemperSet_t`. -/
structure ParamMaterialTemperSet where
  pla : ParamMaterialTemper
  abs : ParamMaterialTemper

/-- `ParamFanSpeed_t`: the speeds. -/
structure ParamFanSpeed where
  pla : BitVec 32
  abs : BitVec 32

/-- `MotionParamXYZ_t`. -/
structure MotionParamXYZ where
  maxVel : BitVec 32
  maxAccel : BitVec 32
  jerk : BitVec 32
  stepsPerMm : BitVec 32

/-- `MotionParamE_t`. -/
structure MotionParamE where
  param : MotionParamXYZ
  retractAccel : BitVec 32

/-- `ParamMotionParam_t`. -/
structure ParamMotionParam where
  stepperXAttr : MotionParamXYZ
  stepperYAttr : MotionParamXYZ
  stepperZAttr : MotionParamXYZ
  stepperEAttr : MotionParamE
  travelAccelXYZ : BitVec 32
  accelXYZ : BitVec 32
  travelVelMinXYZ : BitVec 32
  velMinXYZ : BitVec 32
  printRatio : BitVec 16
  flowRatio : BitVec 16

/-- The working parameter sets `TemperSet`, `FansSet` and `MotionParam`. -/
structure Params where
  temperSet : ParamMaterialTemperSet
  fansSet : ParamFanSpeed
  motionParam : ParamMotionParam

end Structures

/-! ## Layouts of the file's blocks -/

section Layouts

def u16Layout : Layout (BitVec 16) := Layout.le 2

def u32Layout : Layout (BitVec 32) := Layout.le 4

def Accele.layout : Layout Accele :=
  (u16Layout.prod (u16Layout.prod (u16Layout.prod (u16Layout.prod (u16Layout.prod (u16Layout.prod u16Layout)))))).record
    (fun ⟨a, b, c, d, e, f, g⟩ => ⟨a, b, c, d, e, f, g⟩)
    (fun x => (x.accel, x.aRetract, x.aTravel, x.amaxX, x.amaxY, x.amaxZ, x.amaxE)) fun _ => rfl

def FansSpeed.layout : Layout FansSpeed :=
  (u32Layout.prod (u32Layout.prod u32Layout)).record (fun ⟨a, b, c⟩ => ⟨a, b, c⟩)
    (fun x => (x.fansSpeed, x.plaFansSpeed, x.absFansSpeed)) fun _ => rfl

def Jerk.layout : Layout Jerk :=
  (u32Layout.prod (u32Layout.prod (u32Layout.prod u32Layout))).record (fun ⟨a, b, c, d⟩ => ⟨a, b, c, d⟩)
    (fun x => (x.vxJerk, x.vyJerk, x.vzJerk, x.veJerk)) fun _ => rfl

def Steps.layout : Layout Steps :=
  (u32Layout.prod (u32Layout.prod (u32Layout.prod u32Layout))).record (fun ⟨a, b, c, d⟩ => ⟨a, b, c, d⟩)
    (fun x => (x.xsteps, x.ysteps, x.zsteps, x.esteps)) fun _ => rfl

def PreHeatConfig.layout : Layout PreHeatConfig :=
  (u32Layout.prod (u32Layout.prod (u32Layout.prod (u32Layout.prod (u32Layout.prod u32Layout))))).record
    (fun ⟨a, b, c, d, e, f⟩ => ⟨a, b, c, d, e, f⟩)
    (fun x => (x.bedPreheatTemp, x.nozzlePreheatTemp, x.absBedPreheatTemp, x.absNozzlePreheatTemp,
      x.plaBedPreheatTemp, x.plaNozzlePreheatTemp)) fun _ => rfl

def Velocity.layout : Layout Velocity :=
  (u16Layout.prod (u16Layout.prod (u16Layout.prod (u16Layout.prod (u16Layout.prod u16Layout))))).record
    (fun ⟨a, b, c, d, e, f⟩ => ⟨a, b, c, d, e, f⟩)
    (fun x => (x.vmaxX, x.vmaxY, x.vmaxZ, x.vmaxE, x.vmin, x.vTravMin)) fun _ => rfl

end Layouts

/-! ## The file -/

section File

/-- `CONFIG_FILE_SIZE`. -/
def configFileSize : ℕ := 0x2FF + 1

/-- The card: whether it is mounted, and the content of `/eeprom.dat`. -/
structure Card where
  mounted : Bool
  eeprom : Option (List UInt8)

/-- `AccessStart`, with the zeroed buffer of its callers. -/
def accessStart (card : Card) : Bool × List UInt8 :=
  match card.mounted, card.eeprom with
  | true, some content => (true, content.take configFileSize ++ List.replicate (configFileSize - content.length) 0)
  | _, _ => (false, List.replicate configFileSize 0)

/-- `AccessFinish`: the file is truncated and written. -/
def accessFinish (card : Card) (buf : List UInt8) : Bool × Card :=
  if card.mounted then (true, { card with eeprom := some buf }) else (false, card)

/-- The buffer and the position `*Pos` in it. -/
structure Access where
  pos : ℕ
  buf : List UInt8

variable {α : Type}

/-- `WriteData`. -/
def writeData (l : Layout α) (value : α) (a : Access) : Access :=
  if configFileSize ≤ l.size ∨ configFileSize < a.pos then a
  else ⟨a.pos + l.size, splice a.buf a.pos (l.enc value)⟩

/-- `ReadData` into a variable that holds `old`. -/
def readData (l : Layout α) (old : α) (a : Access) : α × Access :=
  if configFileSize ≤ l.size ∨ configFileSize < a.pos then (old, a)
  else (l.readAt a.buf a.pos, ⟨a.pos + l.size, a.buf⟩)

/-- The eight blocks that `SaveConfig` writes into the buffer. -/
def writeConfig (cfg : Config) (buf : List UInt8) : Access :=
  let a := writeData Accele.layout cfg.accele ⟨0, buf⟩
  let a := writeData FansSpeed.layout cfg.fansSpeed a
  let a := writeData u32Layout cfg.fil a
  let a := writeData u32Layout cfg.filamentVolumePattern a
  let a := writeData Jerk.layout cfg.jerk a
  let a := writeData Steps.layout cfg.steps a
  let a := writeData PreHeatConfig.layout cfg.temp a
  writeData Velocity.layout cfg.velocity a

/-- `SaveConfig`. -/
def saveConfig (cfg : Config) (card : Card) : Bool × Card :=
  accessFinish card (writeConfig cfg (accessStart card).2).buf

/-- The eight blocks that `CrConfigLoad` reads. -/
def readConfig (cfg : Config) (buf : List UInt8) : Config :=
  let r1 := readData Accele.layout cfg.accele ⟨0, buf⟩
  let r2 := readData FansSpeed.layout cfg.fansSpeed r1.2
  let r3 := readData u32Layout cfg.fil r2.2
  let r4 := readData u32Layout cfg.filamentVolumePattern r3.2
  let r5 := readData Jerk.layout cfg.jerk r4.2
  let r6 := readData Steps.layout cfg.steps r5.2
  let r7 := readData PreHeatConfig.layout cfg.temp r6.2
  let r8 := readData Velocity.layout cfg.velocity r7.2
  { cfg with
    accele := r1.1
    fansSpeed := r2.1
    fil := r3.1
    filamentVolumePattern := r4.1
    jerk := r5.1
    steps := r6.1
    temp := r7.1
    velocity := r8.1 }

end File

/-! ## Between the configuration and the parameters -/

section Convert

/-- `S32` or `float` field to `U16` field and back. -/
def toU16 (v : BitVec 32) : BitVec 16 := v.setWidth 16

def ofU16 (v : BitVec 16) : BitVec 32 := v.setWidth 32

/-- `VelConfigToMotionParamVel`. -/
def velConfigToMotionParamVel (vel : Velocity) (param : ParamMotionParam) : ParamMotionParam :=
  { param with
    travelVelMinXYZ := ofU16 vel.vTravMin
    stepperXAttr := { param.stepperXAttr with maxVel := ofU16 vel.vmaxX }
    stepperYAttr := { param.stepperYAttr with maxVel := ofU16 vel.vmaxY }
    stepperZAttr := { param.stepperZAttr with maxVel := ofU16 vel.vmaxZ }
    stepperEAttr := { param.stepperEAttr with
      param := { param.stepperEAttr.param with maxVel := ofU16 vel.vmaxE } } }

/-- `MotionParamVelToVelConfig`. -/
def motionParamVelToVelConfig (param : ParamMotionParam) (vel : Velocity) : Velocity :=
  { vel with
    vTravMin := toU16 param.travelVelMinXYZ
    vmaxX := toU16 param.stepperXAttr.maxVel
    vmaxY := toU16 param.stepperYAttr.maxVel
    vmaxZ := toU16 param.stepperZAttr.maxVel
    vmaxE := toU16 param.stepperEAttr.param.maxVel }

/-- `StepConfigToMotionParamStep`. -/
def stepConfigToMotionParamStep (step : Steps) (param : ParamMotionParam) : ParamMotionParam :=
  { param with
    stepperXAttr := { param.stepperXAttr with stepsPerMm := step.xsteps }
    stepperYAttr := { param.stepperYAttr with stepsPerMm := step.ysteps }
    stepperZAttr := { param.stepperZAttr with stepsPerMm := step.zsteps }
    stepperEAttr := { param.stepperEAttr with
      param := { param.stepperEAttr.param with stepsPerMm := step.esteps } } }

/-- `MotionParamStepToStepConfig`. -/
def motionParamStepToStepConfig (param : ParamMotionParam) : Steps where
  xsteps := param.stepperXAttr.stepsPerMm
  ysteps := param.stepperYAttr.stepsPerMm
  zsteps := param.stepperZAttr.stepsPerMm
  esteps := param.stepperEAttr.param.stepsPerMm

/-- `JerkConfigToMotionParamJerk`. -/
def jerkConfigToMotionParamJerk (jerk : Jerk) (param : ParamMotionParam) : ParamMotionParam :=
  { param with
    stepperXAttr := { param.stepperXAttr with jerk := jerk.vxJerk }
    stepperYAttr := { param.stepperYAttr with jerk := jerk.vyJerk }
    stepperZAttr := { param.stepperZAttr with jerk := jerk.vzJerk }
    stepperEAttr := { param.stepperEAttr with param := { param.stepperEAttr.param with jerk := jerk.veJerk } } }

/-- `MotionParamJerkToJerkConfig`: the X jerk, and only this one, goes through `U16`. -/
def motionParamJerkToJerkConfig (ub : BitVec 32 → BitVec 16) (param : ParamMotionParam) : Jerk where
  vxJerk := floatOfU16 (u16OfFloat ub param.stepperXAttr.jerk)
  vyJerk := param.stepperYAttr.jerk
  vzJerk := param.stepperZAttr.jerk
  veJerk := param.stepperEAttr.param.jerk

/-- `AccelConfigToMotionParamAccel`. -/
def accelConfigToMotionParamAccel (accel : Accele) (param : ParamMotionParam) : ParamMotionParam :=
  { param with
    accelXYZ := ofU16 accel.accel
    travelAccelXYZ := ofU16 accel.aTravel
    stepperXAttr := { param.stepperXAttr with maxAccel := ofU16 accel.amaxX }
    stepperYAttr := { param.stepperYAttr with maxAccel := ofU16 accel.amaxY }
    stepperZAttr := { param.stepperZAttr with maxAccel := ofU16 accel.amaxZ }
    stepperEAttr := { param.stepperEAttr with
      param := { param.stepperEAttr.param with maxAccel := ofU16 accel.amaxE }
      retractAccel := ofU16 accel.aRetract } }

/-- `MotionParamAccelToAccelConfig`. -/
def motionParamAccelToAccelConfig (param : ParamMotionParam) : Accele where
  accel := toU16 param.accelXYZ
  aTravel := toU16 param.travelAccelXYZ
  amaxX := toU16 param.stepperXAttr.maxAccel
  amaxY := toU16 param.stepperYAttr.maxAccel
  amaxZ := toU16 param.stepperZAttr.maxAccel
  amaxE := toU16 param.stepperEAttr.param.maxAccel
  aRetract := toU16 param.stepperEAttr.retractAccel

/-- `FansConfigToFansParam`. -/
def fansConfigToFansParam (fanSpeed : FansSpeed) : ParamFanSpeed := ⟨fanSpeed.plaFansSpeed, fanSpeed.absFansSpeed⟩

/-- `FansParamToFansConfig`. -/
def fansParamToFansConfig (fans : ParamFanSpeed) (fanSpeed : FansSpeed) : FansSpeed :=
  { fanSpeed with plaFansSpeed := fans.pla, absFansSpeed := fans.abs }

/-- `PreheatConfigToTemperParamPla`. -/
def preheatConfigToTemperParamPla (cfg : PreHeatConfig) : ParamMaterialTemper :=
  ⟨cfg.plaNozzlePreheatTemp, cfg.plaBedPreheatTemp⟩

/-- `PreheatConfigToTemperParamAbs`. -/
def preheatConfigToTemperParamAbs (cfg : PreHeatConfig) : ParamMaterialTemper :=
  ⟨cfg.absNozzlePreheatTemp, cfg.absBedPreheatTemp⟩

/-- `TemperParamPlaToPreheatConfig`. -/
def temperParamPlaToPreheatConfig (cfg : PreHeatConfig) (pla : ParamMaterialTemper) : PreHeatConfig :=
  { cfg with plaNozzlePreheatTemp := pla.nozzle, plaBedPreheatTemp := pla.bed }

/-- `TemperParamAbsToPreheatConfig`. -/
def temperParamAbsToPreheatConfig (cfg : PreHeatConfig) (abs : ParamMaterialTemper) : PreHeatConfig :=
  { cfg with absNozzlePreheatTemp := abs.nozzle, absBedPreheatTemp := abs.bed }

/-- `CrConfigParamToConfig`. -/
def crConfigParamToConfig (ub : BitVec 32 → BitVec 16) (p : Params) (cfg : Config) : Config :=
  { cfg with
    temp := temperParamPlaToPreheatConfig (temperParamAbsToPreheatConfig cfg.temp p.temperSet.abs) p.temperSet.pla
    velocity := motionParamVelToVelConfig p.motionParam cfg.velocity
    printRatio := p.motionParam.printRatio
    flowRatio := p.motionParam.flowRatio
    steps := motionParamStepToStepConfig p.motionParam
    jerk := motionParamJerkToJerkConfig ub p.motionParam
    accele := motionParamAccelToAccelConfig p.motionParam
    fansSpeed := fansParamToFansConfig p.fansSet cfg.fansSpeed }

/-- `CrConfigConfigToParam`. -/
def crConfigConfigToParam (cfg : Config) (p : Params) : Params where
  temperSet := ⟨preheatConfigToTemperParamPla cfg.temp, preheatConfigToTemperParamAbs cfg.temp⟩
  fansSet := fansConfigToFansParam cfg.fansSpeed
  motionParam :=
    accelConfigToMotionParamAccel cfg.accele (jerkConfigToMotionParamJerk cfg.jerk
      (stepConfigToMotionParamStep cfg.steps (velConfigToMotionParamVel cfg.velocity
        { p.motionParam with flowRatio := cfg.flowRatio, printRatio := cfg.printRatio })))

end Convert

/-! ## The state and its operations -/

section Operations

/-- The static variables of the file, and the card. -/
structure State where
  cfg : Config
  params : Params
  card : Card

/-- `CrConfigSave`. -/
def crConfigSave (ub : BitVec 32 → BitVec 16) (s : State) : Bool × State :=
  let cfg := crConfigParamToConfig ub s.params s.cfg
  let r := saveConfig cfg s.card
  (r.1, { s with cfg := cfg, card := r.2 })

/-- `CrConfigLoad`. -/
def crConfigLoad (s : State) : State :=
  let r := accessStart s.card
  let cfg := if r.1 then readConfig s.cfg r.2 else s.cfg
  { s with cfg := cfg, params := crConfigConfigToParam cfg s.params }

end Operations

/-! ## What is saved is loaded -/

section RoundTrip

variable {α : Type}

/-- The writes so far fill the buffer up to the position with `done`. -/
structure Written (a : Access) (done : List UInt8) : Prop where
  size : a.buf.length = configFileSize
  pos : a.pos = done.length
  bytes : a.buf.take a.pos = done

theorem Written.write {l : Layout α} {a : Access} {done : List UInt8} (h : Written a done) (value : α)
    (hl : done.length + l.size ≤ configFileSize) (hs : l.size < configFileSize) :
    Written (writeData l value a) (done ++ l.enc value) := by
  have hpos := h.pos
  have hsize := h.size
  have henc := l.enc_length value
  unfold writeData
  rw [if_neg (by omega)]
  refine ⟨?_, ?_, ?_⟩
  · show (splice a.buf a.pos (l.enc value)).length = configFileSize
    rw [splice_length (by omega), hsize]
  · show a.pos + l.size = (done ++ l.enc value).length
    rw [List.length_append, henc, hpos]
  · show (splice a.buf a.pos (l.enc value)).take (a.pos + l.size) = done ++ l.enc value
    rw [← henc, take_splice (by omega), h.bytes]

/-- What is left to read is `todo`. -/
structure Reading (a : Access) (todo : List UInt8) : Prop where
  size : a.pos ≤ configFileSize
  bytes : a.buf.drop a.pos = todo
  room : a.pos + todo.length ≤ configFileSize

theorem Reading.read {l : Layout α} {a : Access} {value : α} {todo : List UInt8}
    (h : Reading a (l.enc value ++ todo)) (old : α) (hs : l.size < configFileSize) :
    (readData l old a).1 = value ∧ Reading (readData l old a).2 todo := by
  have henc := l.enc_length value
  have hroom := h.room
  rw [List.length_append] at hroom
  have hsize := h.size
  unfold readData
  rw [if_neg (by omega)]
  refine ⟨?_, ⟨?_, ?_, ?_⟩⟩
  · exact l.readAt_of_drop h.bytes
  · show a.pos + l.size ≤ configFileSize
    omega
  · show a.buf.drop (a.pos + l.size) = todo
    rw [← List.drop_drop, h.bytes, List.drop_left' henc]
  · show a.pos + l.size + todo.length ≤ configFileSize
    omega

theorem accessStart_length (card : Card) : (accessStart card).2.length = configFileSize := by
  unfold accessStart
  split
  · simp only [List.length_append, List.length_take, List.length_replicate]
    omega
  · exact List.length_replicate

/-- The blocks, in the order of the file. -/
def blocks (cfg : Config) : List UInt8 :=
  Accele.layout.enc cfg.accele ++ FansSpeed.layout.enc cfg.fansSpeed ++ u32Layout.enc cfg.fil ++
    u32Layout.enc cfg.filamentVolumePattern ++ Jerk.layout.enc cfg.jerk ++ Steps.layout.enc cfg.steps ++
    PreHeatConfig.layout.enc cfg.temp ++ Velocity.layout.enc cfg.velocity

theorem writeConfig_written (cfg : Config) {buf : List UInt8} (hb : buf.length = configFileSize) :
    Written (writeConfig cfg buf) (blocks cfg) := by
  have h0 : Written ⟨0, buf⟩ [] := ⟨hb, rfl, rfl⟩
  have h1 := h0.write (l := Accele.layout) cfg.accele (by decide) (by decide)
  have h2 := h1.write (l := FansSpeed.layout) cfg.fansSpeed
    (by simp only [List.length_append, Layout.enc_length]; decide) (by decide)
  have h3 := h2.write (l := u32Layout) cfg.fil
    (by simp only [List.length_append, Layout.enc_length]; decide) (by decide)
  have h4 := h3.write (l := u32Layout) cfg.filamentVolumePattern
    (by simp only [List.length_append, Layout.enc_length]; decide) (by decide)
  have h5 := h4.write (l := Jerk.layout) cfg.jerk
    (by simp only [List.length_append, Layout.enc_length]; decide) (by decide)
  have h6 := h5.write (l := Steps.layout) cfg.steps
    (by simp only [List.length_append, Layout.enc_length]; decide) (by decide)
  have h7 := h6.write (l := PreHeatConfig.layout) cfg.temp
    (by simp only [List.length_append, Layout.enc_length]; decide) (by decide)
  exact h7.write (l := Velocity.layout) cfg.velocity
    (by simp only [List.length_append, Layout.enc_length]; decide) (by decide)

/-- **The file gives back what was written**: all blocks come from it, the ratios do not. -/
theorem readConfig_written (cfg old : Config) {buf : List UInt8} (hb : buf.length = configFileSize) :
    readConfig old (writeConfig cfg buf).buf =
      { cfg with printRatio := old.printRatio, flowRatio := old.flowRatio } := by
  have hw := writeConfig_written cfg hb
  obtain ⟨rest, hrest⟩ : ∃ rest, (writeConfig cfg buf).buf = blocks cfg ++ rest :=
    ⟨_, by rw [← hw.bytes, List.take_append_drop]⟩
  rw [hrest]
  have h0 : Reading ⟨0, blocks cfg ++ rest⟩ (blocks cfg ++ rest) := by
    refine ⟨Nat.zero_le _, rfl, ?_⟩
    have := hw.size
    rw [hrest] at this
    show 0 + (blocks cfg ++ rest).length ≤ configFileSize
    omega
  unfold readConfig
  generalize (⟨0, blocks cfg ++ rest⟩ : Access) = a at h0
  unfold blocks at h0
  simp only [List.append_assoc] at h0
  obtain ⟨v1, h1⟩ := h0.read old.accele (by decide)
  obtain ⟨v2, h2⟩ := h1.read old.fansSpeed (by decide)
  obtain ⟨v3, h3⟩ := h2.read old.fil (by decide)
  obtain ⟨v4, h4⟩ := h3.read old.filamentVolumePattern (by decide)
  obtain ⟨v5, h5⟩ := h4.read old.jerk (by decide)
  obtain ⟨v6, h6⟩ := h5.read old.steps (by decide)
  obtain ⟨v7, h7⟩ := h6.read old.temp (by decide)
  obtain ⟨v8, -⟩ := h7.read old.velocity (by decide)
  dsimp only
  rw [v1, v2, v3, v4, v5, v6, v7, v8]

end RoundTrip

/-! ## Which parameters persist -/

section Persist

variable (ub : BitVec 32 → BitVec 16)

/-- Save in state `s`; later, with memory `t` and the card as the save left it, load: the parameters then. -/
def reload (s t : State) : Params :=
  let u := crConfigLoad { t with card := (crConfigSave ub s).2.card }
  crConfigConfigToParam u.cfg u.params

/-- The speeds and accelerations, which the file holds in 16 bits. -/
def narrowed (p : ParamMotionParam) : List (BitVec 32) :=
  [p.stepperXAttr.maxVel, p.stepperYAttr.maxVel, p.stepperZAttr.maxVel, p.stepperEAttr.param.maxVel,
    p.travelVelMinXYZ, p.accelXYZ, p.travelAccelXYZ, p.stepperXAttr.maxAccel, p.stepperYAttr.maxAccel,
    p.stepperZAttr.maxAccel, p.stepperEAttr.param.maxAccel, p.stepperEAttr.retractAccel]

/-- The narrowed values fit 16 bits, and the X jerk is one of the whole numbers that do. -/
structure Narrowable (p : ParamMotionParam) : Prop where
  narrowed : ∀ v ∈ narrowed p, v.toNat < 2 ^ 16
  xJerk : ∃ n, p.stepperXAttr.jerk = floatOfU16 n

/-- What the file does not hold stands in memory as it did: the two ratios in the configuration, and the minimum speed
while extruding. -/
structure Kept (s t : State) : Prop where
  printRatio : t.cfg.printRatio = s.params.motionParam.printRatio
  flowRatio : t.cfg.flowRatio = s.params.motionParam.flowRatio
  velMinXYZ : t.params.motionParam.velMinXYZ = s.params.motionParam.velMinXYZ

theorem ofU16_toU16_iff (v : BitVec 32) : ofU16 (toU16 v) = v ↔ v.toNat < 2 ^ 16 := by
  unfold ofU16 toU16
  constructor
  · intro h
    rw [← h, BitVec.toNat_setWidth]
    exact lt_of_le_of_lt (Nat.mod_le _ _) (BitVec.isLt _)
  · intro h
    apply BitVec.eq_of_toNat_eq
    rw [BitVec.toNat_setWidth, BitVec.toNat_setWidth, Nat.mod_eq_of_lt h, Nat.mod_eq_of_lt v.isLt]

/-- A value after 16 bits of the file. -/
def narrow (v : BitVec 32) : BitVec 32 := ofU16 (toU16 v)

/-- The motion parameters after the configuration structures, with ratios and minimum speed from elsewhere. -/
def stored (m : ParamMotionParam) (vm : BitVec 32) (pr fr : BitVec 16) : ParamMotionParam where
  stepperXAttr := ⟨narrow m.stepperXAttr.maxVel, narrow m.stepperXAttr.maxAccel,
    floatOfU16 (u16OfFloat ub m.stepperXAttr.jerk), m.stepperXAttr.stepsPerMm⟩
  stepperYAttr := ⟨narrow m.stepperYAttr.maxVel, narrow m.stepperYAttr.maxAccel, m.stepperYAttr.jerk,
    m.stepperYAttr.stepsPerMm⟩
  stepperZAttr := ⟨narrow m.stepperZAttr.maxVel, narrow m.stepperZAttr.maxAccel, m.stepperZAttr.jerk,
    m.stepperZAttr.stepsPerMm⟩
  stepperEAttr := ⟨⟨narrow m.stepperEAttr.param.maxVel, narrow m.stepperEAttr.param.maxAccel,
    m.stepperEAttr.param.jerk, m.stepperEAttr.param.stepsPerMm⟩, narrow m.stepperEAttr.retractAccel⟩
  travelAccelXYZ := narrow m.travelAccelXYZ
  accelXYZ := narrow m.accelXYZ
  travelVelMinXYZ := narrow m.travelVelMinXYZ
  velMinXYZ := vm
  printRatio := pr
  flowRatio := fr

theorem narrowable_iff (m : ParamMotionParam) :
    Narrowable m ↔
      (∀ v ∈ narrowed m, narrow v = v) ∧
        floatOfU16 (u16OfFloat ub m.stepperXAttr.jerk) = m.stepperXAttr.jerk := by
  simp only [narrow, ofU16_toU16_iff, floatOfU16_u16OfFloat_iff]
  exact ⟨fun h => ⟨h.1, h.2⟩, fun h => ⟨h.1, h.2⟩⟩

theorem stored_eq_iff (m : ParamMotionParam) (vm : BitVec 32) (pr fr : BitVec 16) :
    stored ub m vm pr fr = m ↔
      Narrowable m ∧ pr = m.printRatio ∧ fr = m.flowRatio ∧ vm = m.velMinXYZ := by
  obtain ⟨⟨xv, xa, xj, xs⟩, ⟨yv, ya, yj, ys⟩, ⟨zv, za, zj, zs⟩, ⟨⟨ev, ea, ej, es⟩, er⟩, ta, ac, tv, vm0, pr0, fr0⟩ := m
  rw [narrowable_iff ub]
  simp only [stored, narrowed, List.forall_mem_cons, ParamMotionParam.mk.injEq, MotionParamXYZ.mk.injEq,
    MotionParamE.mk.injEq, and_true]
  constructor
  · rintro ⟨⟨hxv, hxa, hxj⟩, ⟨hyv, hya⟩, ⟨hzv, hza⟩, ⟨⟨hev, hea⟩, her⟩, hta, hac, htv, hvm, hpr, hfr⟩
    exact ⟨⟨⟨hxv, hyv, hzv, hev, htv, hac, hta, hxa, hya, hza, hea, her, by simp⟩, hxj⟩, hpr, hfr, hvm⟩
  · rintro ⟨⟨⟨hxv, hyv, hzv, hev, htv, hac, hta, hxa, hya, hza, hea, her, -⟩, hxj⟩, hpr, hfr, hvm⟩
    exact ⟨⟨hxv, hxa, hxj⟩, ⟨hyv, hya⟩, ⟨hzv, hza⟩, ⟨⟨hev, hea⟩, her⟩, hta, hac, htv, hvm, hpr, hfr⟩

/-- A save succeeds exactly on a mounted card. -/
theorem crConfigSave_fst (s : State) : (crConfigSave ub s).1 = s.card.mounted := by
  unfold crConfigSave saveConfig accessFinish
  dsimp only
  by_cases hm : s.card.mounted = true
  · rw [if_pos hm, hm]
  · rw [if_neg hm]
    exact (Bool.eq_false_iff.mpr hm).symm

/-- A successful save leaves the written buffer on the card. -/
theorem accessStart_saved {s : State} (h : (crConfigSave ub s).1 = true) :
    accessStart (crConfigSave ub s).2.card =
      (true, (writeConfig (crConfigParamToConfig ub s.params s.cfg) (accessStart s.card).2).buf) := by
  have hm : s.card.mounted = true := (crConfigSave_fst ub s).symm.trans h
  have hw := (writeConfig_written (crConfigParamToConfig ub s.params s.cfg) (accessStart_length s.card)).size
  unfold crConfigSave saveConfig accessFinish
  dsimp only
  rw [if_pos hm]
  generalize (writeConfig (crConfigParamToConfig ub s.params s.cfg) (accessStart s.card).2).buf = buf at hw
  show (accessStart { s.card with eeprom := some buf }) = (true, buf)
  unfold accessStart
  dsimp only
  rw [hm]
  show (true, buf.take configFileSize ++ List.replicate (configFileSize - buf.length) 0) = (true, buf)
  rw [List.take_of_length_le hw.le, hw, Nat.sub_self, List.replicate_zero, List.append_nil]

/-- What a load after a save gives. -/
theorem reload_eq {s : State} (t : State) (h : (crConfigSave ub s).1 = true) :
    reload ub s t =
      { s.params with
        motionParam := stored ub s.params.motionParam t.params.motionParam.velMinXYZ t.cfg.printRatio
          t.cfg.flowRatio } := by
  have hload := accessStart_saved ub h
  have hread := readConfig_written (crConfigParamToConfig ub s.params s.cfg) t.cfg (accessStart_length s.card)
  unfold reload crConfigLoad
  dsimp only
  rw [hload]
  dsimp only
  rw [if_pos rfl, hread]
  rfl

theorem motionParam_eq_iff (p : Params) (m : ParamMotionParam) :
    { p with motionParam := m } = p ↔ m = p.motionParam := by
  constructor
  · intro hm
    exact congrArg Params.motionParam hm
  · rintro rfl
    rfl

/-- **What survives a save and a load**, for any parameters and whatever memory the load meets: everything, exactly
when the speeds and accelerations fit 16 bits, the X jerk is a whole number that does, and the ratios and the minimum
speed stand in that memory already. -/
theorem params_persist_iff (s t : State) (h : (crConfigSave ub s).1 = true) :
    reload ub s t = s.params ↔ Narrowable s.params.motionParam ∧ Kept s t := by
  rw [reload_eq ub t h, motionParam_eq_iff, stored_eq_iff]
  constructor
  · rintro ⟨hn, hpr, hfr, hvm⟩
    exact ⟨hn, hpr, hfr, hvm⟩
  · rintro ⟨hn, hpr, hfr, hvm⟩
    exact ⟨hn, hpr, hfr, hvm⟩

end Persist

/-! ## The printer as delivered -/

section Defaults

/-- The initial values of the static structures. -/
def initConfig : Config where
  accele := ⟨900, 1000, 1000, 800, 800, 300, 800⟩
  fansSpeed := ⟨0, 100, 100⟩
  fil := 0x3FE00000
  filamentVolumePattern := 0
  jerk := ⟨0x40C00000, 0x40C00000, 0x3E99999A, 0x40A00000⟩
  steps := ⟨0x42A00000, 0x42A00000, 0x43C80000, 0x42BA0000⟩
  temp := ⟨0, 0, 70, 240, 60, 200⟩
  velocity := ⟨50, 50, 8, 20, 0, 0⟩
  printRatio := 100
  flowRatio := 100

/-- `{0}`. -/
def initParams : Params where
  temperSet := ⟨⟨0, 0⟩, ⟨0, 0⟩⟩
  fansSet := ⟨0, 0⟩
  motionParam := ⟨⟨0, 0, 0, 0⟩, ⟨0, 0, 0, 0⟩, ⟨0, 0, 0, 0⟩, ⟨⟨0, 0, 0, 0⟩, 0⟩, 0, 0, 0, 0, 0, 0⟩

/-- After the load of the constructor, with an empty card. -/
def poweredOn : State := crConfigLoad ⟨initConfig, initParams, ⟨true, none⟩⟩

/-- The same with another X jerk and printing ratio, as `SetMotionParam` takes them. -/
def withJerk (jerk : BitVec 32) (ratio : BitVec 16) : State :=
  { poweredOn with
    params := { poweredOn.params with
      motionParam := { poweredOn.params.motionParam with
        stepperXAttr := { poweredOn.params.motionParam.stepperXAttr with jerk := jerk }
        printRatio := ratio } } }

theorem withJerk_jerk (jerk : BitVec 32) (ratio : BitVec 16) :
    (withJerk jerk ratio).params.motionParam.stepperXAttr.jerk = jerk := rfl

theorem withJerk_narrowed (jerk : BitVec 32) (ratio : BitVec 16) :
    narrowed (withJerk jerk ratio).params.motionParam =
      [ofU16 50, ofU16 50, ofU16 8, ofU16 20, ofU16 0, ofU16 900, ofU16 1000, ofU16 800, ofU16 800, ofU16 300,
        ofU16 800, ofU16 1000] := rfl

/-- A whole X jerk survives, here 7 mm/s, also into the next session. -/
theorem params_persist_poweredOn :
    (crConfigSave (fun _ => 0) (withJerk 0x40E00000 100)).1 = true ∧
      reload (fun _ => 0) (withJerk 0x40E00000 100) poweredOn = (withJerk 0x40E00000 100).params := by
  have hs : (crConfigSave (fun _ => 0) (withJerk 0x40E00000 100)).1 = true := crConfigSave_fst _ _
  refine ⟨hs, (params_persist_iff (fun _ => 0) (withJerk 0x40E00000 100) poweredOn hs).mpr ⟨⟨?_, 7, ?_⟩, ?_⟩⟩
  · rw [withJerk_narrowed]
    simp [ofU16]
  · rw [withJerk_jerk]
    decide
  · exact ⟨rfl, rfl, rfl⟩

/-- **An X jerk of 6.5 mm/s comes back as 6**, even in the same session, and a printing ratio of 80 comes back as 100
in the next. -/
theorem persist_loses_xJerk :
    (crConfigSave (fun _ => 0) (withJerk 0x40D00000 80)).1 = true ∧
      reload (fun _ => 0) (withJerk 0x40D00000 80) (crConfigSave (fun _ => 0) (withJerk 0x40D00000 80)).2 ≠
        (withJerk 0x40D00000 80).params ∧
      (reload (fun _ => 0) (withJerk 0x40D00000 80) poweredOn).motionParam.stepperXAttr.jerk = 0x40C00000 ∧
      (reload (fun _ => 0) (withJerk 0x40D00000 80) poweredOn).motionParam.printRatio = 100 := by
  have hs : (crConfigSave (fun _ => 0) (withJerk 0x40D00000 80)).1 = true := crConfigSave_fst _ _
  have hjerk : ∀ t, (reload (fun _ => 0) (withJerk 0x40D00000 80) t).motionParam.stepperXAttr.jerk = 0x40C00000 := by
    intro t
    rw [reload_eq _ t hs]
    unfold stored
    dsimp only
    rw [withJerk_jerk]
    decide
  refine ⟨hs, fun h => ?_, hjerk _, ?_⟩
  · have h1 := hjerk (crConfigSave (fun _ => 0) (withJerk 0x40D00000 80)).2
    rw [h, withJerk_jerk] at h1
    exact absurd h1 (by decide)
  · rw [reload_eq _ _ hs]
    rfl

end Defaults

end Cxsw.Param
