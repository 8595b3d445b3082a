import Cxsw.Lib.Run
import Cxsw.CrConfig.CrParamConfig

/-!
# Cxsw.CrConfig.Presets — the material presets (`CrConfig/CrParamConfig.cpp`)

Each of the materials PLA and ABS has a preset of two temperatures and a fan speed, once in the configuration
structures and once in the working parameters.  The operations on presets are given by their material; only
`CrConfigPlaRecover` has a body of its own, since it fills the PLA temperatures from the ABS ones.

* `presets_isolated_iff`: in every run the two copies of both presets agree and no operation touches the other preset,
  exactly when every `CrConfigPlaRecover` meets ABS temperatures that are the PLA defaults.
* `plaRecover_takes_abs`: one such operation after the start.
-/

namespace Cxsw.Param

/-! ## Presets -/

section Presets

/-- The materials. -/
inductive Material
  | pla
  | abs
  deriving DecidableEq

/-- A preset. -/
structure Preset where
  nozzle : BitVec 32
  bed : BitVec 32
  fan : BitVec 32
  deriving DecidableEq

/-- The preset in the configuration structures. -/
def configPreset (cfg : Config) : Material → Preset
  | .pla => ⟨cfg.temp.plaNozzlePreheatTemp, cfg.temp.plaBedPreheatTemp, cfg.fansSpeed.plaFansSpeed⟩
  | .abs => ⟨cfg.temp.absNozzlePreheatTemp, cfg.temp.absBedPreheatTemp, cfg.fansSpeed.absFansSpeed⟩

/-- The preset in the working parameters. -/
def paramPreset (p : Params) : Material → Preset
  | .pla => ⟨p.temperSet.pla.nozzle, p.temperSet.pla.bed, p.fansSet.pla⟩
  | .abs => ⟨p.temperSet.abs.nozzle, p.temperSet.abs.bed, p.fansSet.abs⟩

/-- The assignments to the configuration of a material. -/
def setConfigPreset (cfg : Config) (x : Preset) : Material → Config
  | .pla => { cfg with
      temp := { cfg.temp with plaNozzlePreheatTemp := x.nozzle, plaBedPreheatTemp := x.bed }
      fansSpeed := { cfg.fansSpeed with plaFansSpeed := x.fan } }
  | .abs => { cfg with
      temp := { cfg.temp with absNozzlePreheatTemp := x.nozzle, absBedPreheatTemp := x.bed }
      fansSpeed := { cfg.fansSpeed with absFansSpeed := x.fan } }

/-- The assignments to the parameters of a material. -/
def setParamPreset (p : Params) (x : Preset) : Material → Params
  | .pla => { p with
      temperSet := { p.temperSet with pla := ⟨x.nozzle, x.bed⟩ }, fansSet := { p.fansSet with pla := x.fan } }
  | .abs => { p with
      temperSet := { p.temperSet with abs := ⟨x.nozzle, x.bed⟩ }, fansSet := { p.fansSet with abs := x.fan } }

/-- `<MATERIAL>_PREHEAT_NOZ_TEMP`, `<MATERIAL>_PREHEAT_BED_TEMP` and `<MATERIAL>_PRE_FAN_SPEED`. -/
def defaultPreset : Material → Preset
  | .pla => ⟨200, 60, 100⟩
  | .abs => ⟨240, 70, 100⟩

end Presets

/-! ## The operations -/

section Operations

/-- `CrConfigAbsSave`, `CrConfigPlaSave`. -/
def presetSave (m : Material) (s : State) : State :=
  let cfg := setConfigPreset s.cfg (paramPreset s.params m) m
  { s with cfg := cfg, card := (saveConfig cfg s.card).2 }

/-- `CrConfigAbsRecover`. -/
def presetRecover (m : Material) (s : State) : State :=
  let cfg := setConfigPreset s.cfg (defaultPreset m) m
  { s with cfg := cfg, params := setParamPreset s.params (configPreset cfg m) m }

/-- The offset of the temperatures in the file. -/
def preheatOffset : ℕ :=
  Accele.layout.size + FansSpeed.layout.size + u32Layout.size + u32Layout.size + Jerk.layout.size + Steps.layout.size

/-- `CrConfigAbsLoad`, `CrConfigPlaLoad`: the temperatures and the fan speeds are read, and those of the material
taken. -/
def presetLoad (m : Material) (s : State) : State :=
  let r := accessStart s.card
  if r.1 then
    let temp := (readData PreHeatConfig.layout s.cfg.temp ⟨preheatOffset, r.2⟩).1
    let fansSpeed := (readData FansSpeed.layout ⟨0, 0, 0⟩ ⟨Accele.layout.size, r.2⟩).1
    let cfg := setConfigPreset s.cfg (configPreset { s.cfg with temp := temp, fansSpeed := fansSpeed } m) m
    { s with cfg := cfg, params := setParamPreset s.params (configPreset cfg m) m }
  else s

def crConfigAbsSave : State → State := presetSave .abs

def crConfigAbsRecover : State → State := presetRecover .abs

def crConfigAbsLoad : State → State := presetLoad .abs

def crConfigPlaSave : State → State := presetSave .pla

/-- `CrConfigPlaRecover`: the parameters get their PLA temperatures by `PreheatConfigToTemperParamAbs`. -/
def crConfigPlaRecover (s : State) : State :=
  let cfg := setConfigPreset s.cfg (defaultPreset .pla) .pla
  { s with
    cfg := cfg
    params := { s.params with
      temperSet := { s.params.temperSet with pla := preheatConfigToTemperParamAbs cfg.temp }
      fansSet := { s.params.fansSet with pla := cfg.fansSpeed.plaFansSpeed } } }

def crConfigPlaLoad : State → State := presetLoad .pla

/-- `CrConfigRecover`, its parts in order: accelerations, fans, filament, jerks, steps, temperatures (with the fans
again), speeds, the two ratios and the volume pattern. -/
def crConfigRecover (s : State) : State :=
  let cfg : Config :=
    { accele := initConfig.accele
      fansSpeed := initConfig.fansSpeed
      fil := initConfig.fil
      filamentVolumePattern := 2
      jerk := initConfig.jerk
      steps := initConfig.steps
      temp := initConfig.temp
      velocity := initConfig.velocity
      printRatio := 100
      flowRatio := 100 }
  { s with
    cfg := cfg
    params :=
      { temperSet := ⟨preheatConfigToTemperParamPla cfg.temp, preheatConfigToTemperParamAbs cfg.temp⟩
        fansSet := fansConfigToFansParam cfg.fansSpeed
        motionParam :=
          velConfigToMotionParamVel cfg.velocity (stepConfigToMotionParamStep cfg.steps
            (jerkConfigToMotionParamJerk cfg.jerk (accelConfigToMotionParamAccel cfg.accele s.params.motionParam))) } }

/-- The configuration operations. -/
inductive ConfigOp
  | load
  | recover
  | absSave
  | absRecover
  | absLoad
  | plaSave
  | plaRecover
  | plaLoad
  deriving DecidableEq

/-- What an operation does. -/
def ConfigOp.apply : ConfigOp → State → State
  | .load => crConfigLoad
  | .recover => crConfigRecover
  | .absSave => crConfigAbsSave
  | .absRecover => crConfigAbsRecover
  | .absLoad => crConfigAbsLoad
  | .plaSave => crConfigPlaSave
  | .plaRecover => crConfigPlaRecover
  | .plaLoad => crConfigPlaLoad

/-- The materials an operation is about. -/
def ConfigOp.materials : ConfigOp → List Material
  | .load => [.pla, .abs]
  | .recover => [.pla, .abs]
  | .absSave => [.abs]
  | .absRecover => [.abs]
  | .absLoad => [.abs]
  | .plaSave => [.pla]
  | .plaRecover => [.pla]
  | .plaLoad => [.pla]

/-- An operation, or a change of the card: it is taken out, put in, or written elsewhere. -/
inductive ConfigEvent
  | op (o : ConfigOp)
  | card (c : Card)

/-- What an event does. -/
def ConfigEvent.apply : State → ConfigEvent → State
  | s, .op o => o.apply s
  | s, .card c => { s with card := c }

/-- The state after events. -/
def afterEvents (s : State) (es : List ConfigEvent) : State := es.foldl ConfigEvent.apply s

end Operations

/-! ## Agreement and isolation -/

section Isolation

/-- The working presets are those of the configuration. -/
def Synced (s : State) : Prop := ∀ m, paramPreset s.params m = configPreset s.cfg m

/-- An operation leaves both copies of the presets it is not about. -/
def LeavesOthers (s : State) (o : ConfigOp) : Prop :=
  ∀ m, m ∉ o.materials →
    paramPreset (o.apply s).params m = paramPreset s.params m ∧ configPreset (o.apply s).cfg m = configPreset s.cfg m

/-- The ABS temperatures of the configuration are the PLA defaults. -/
def AbsAtPlaDefaults (cfg : Config) : Prop :=
  cfg.temp.absNozzlePreheatTemp = (defaultPreset .pla).nozzle ∧ cfg.temp.absBedPreheatTemp = (defaultPreset .pla).bed

@[simp] theorem configPreset_set (cfg : Config) (x : Preset) (m : Material) :
    configPreset (setConfigPreset cfg x m) m = x := by
  cases m with
  | pla => rfl
  | abs => rfl

@[simp] theorem paramPreset_set (p : Params) (x : Preset) (m : Material) :
    paramPreset (setParamPreset p x m) m = x := by
  cases m with
  | pla => rfl
  | abs => rfl

theorem configPreset_set_of_ne (cfg : Config) (x : Preset) {m m' : Material} (h : m' ≠ m) :
    configPreset (setConfigPreset cfg x m) m' = configPreset cfg m' := by
  cases m with
  | pla =>
    cases m' with
    | pla => exact absurd rfl h
    | abs => rfl
  | abs =>
    cases m' with
    | pla => rfl
    | abs => exact absurd rfl h

theorem paramPreset_set_of_ne (p : Params) (x : Preset) {m m' : Material} (h : m' ≠ m) :
    paramPreset (setParamPreset p x m) m' = paramPreset p m' := by
  cases m with
  | pla =>
    cases m' with
    | pla => exact absurd rfl h
    | abs => rfl
  | abs =>
    cases m' with
    | pla => rfl
    | abs => exact absurd rfl h

/-- What an operation on the preset `m` does to the two copies. -/
structure TouchesOnly (m : Material) (s t : State) : Prop where
  params : ∀ m', m' ≠ m → paramPreset t.params m' = paramPreset s.params m'
  cfg : ∀ m', m' ≠ m → configPreset t.cfg m' = configPreset s.cfg m'

theorem presetSave_spec (m : Material) (s : State) :
    TouchesOnly m s (presetSave m s) ∧ paramPreset (presetSave m s).params m = configPreset (presetSave m s).cfg m := by
  refine ⟨⟨fun m' h => rfl, fun m' h => configPreset_set_of_ne _ _ h⟩, ?_⟩
  show paramPreset s.params m = configPreset (setConfigPreset s.cfg (paramPreset s.params m) m) m
  rw [configPreset_set]

theorem presetRecover_spec (m : Material) (s : State) :
    TouchesOnly m s (presetRecover m s) ∧
      paramPreset (presetRecover m s).params m = configPreset (presetRecover m s).cfg m :=
  ⟨⟨fun _ h => paramPreset_set_of_ne _ _ h, fun _ h => configPreset_set_of_ne _ _ h⟩, paramPreset_set _ _ m⟩

theorem presetLoad_spec (m : Material) (s : State) :
    TouchesOnly m s (presetLoad m s) ∧
      (presetLoad m s = s ∨ paramPreset (presetLoad m s).params m = configPreset (presetLoad m s).cfg m) := by
  unfold presetLoad
  dsimp only
  by_cases hr : (accessStart s.card).1 = true
  · rw [if_pos hr]
    exact ⟨⟨fun _ h => paramPreset_set_of_ne _ _ h, fun _ h => configPreset_set_of_ne _ _ h⟩,
      Or.inr (paramPreset_set _ _ m)⟩
  · rw [if_neg hr]
    exact ⟨⟨fun _ _ => rfl, fun _ _ => rfl⟩, Or.inl rfl⟩

theorem TouchesOnly.synced {m : Material} {s t : State} (h : TouchesOnly m s t) (hs : Synced s)
    (hm : paramPreset t.params m = configPreset t.cfg m) : Synced t := by
  intro m'
  by_cases hne : m' = m
  · rw [hne, hm]
  · rw [h.params m' hne, h.cfg m' hne, hs m']

/-- A load of everything makes the copies agree, from any state. -/
theorem crConfigLoad_synced (s : State) : Synced (crConfigLoad s) := by
  intro m
  cases m with
  | pla => rfl
  | abs => rfl

theorem crConfigRecover_synced (s : State) : Synced (crConfigRecover s) := by
  intro m
  cases m with
  | pla => rfl
  | abs => rfl

/-- `CrConfigPlaRecover` makes the copies agree exactly when the ABS temperatures are the PLA defaults. -/
theorem crConfigPlaRecover_synced_iff {s : State} (hs : Synced s) :
    Synced (crConfigPlaRecover s) ↔ AbsAtPlaDefaults s.cfg := by
  have habs : paramPreset (crConfigPlaRecover s).params .abs = configPreset (crConfigPlaRecover s).cfg .abs := hs .abs
  have hpla : paramPreset (crConfigPlaRecover s).params .pla =
      ⟨s.cfg.temp.absNozzlePreheatTemp, s.cfg.temp.absBedPreheatTemp, (defaultPreset .pla).fan⟩ := rfl
  have hcfg : configPreset (crConfigPlaRecover s).cfg .pla = defaultPreset .pla := rfl
  constructor
  · intro h
    have h1 := h .pla
    rw [hpla, hcfg] at h1
    exact ⟨congrArg Preset.nozzle h1, congrArg Preset.bed h1⟩
  · rintro ⟨hn, hb⟩ m
    cases m with
    | pla => rw [hpla, hcfg, hn, hb]
    | abs => exact habs

/-- One operation, on agreeing copies. -/
theorem apply_synced_iff {s : State} (hs : Synced s) (o : ConfigOp) :
    Synced (o.apply s) ↔ (o = .plaRecover → AbsAtPlaDefaults s.cfg) := by
  by_cases ho : o = .plaRecover
  · subst ho
    rw [show ConfigOp.plaRecover.apply s = crConfigPlaRecover s from rfl, crConfigPlaRecover_synced_iff hs]
    exact ⟨fun h _ => h, fun h => h rfl⟩
  · refine iff_of_true ?_ fun h => absurd h ho
    have hload : ∀ m, Synced (presetLoad m s) := by
      intro m
      obtain ⟨ht, heq | hm⟩ := presetLoad_spec m s
      · rw [heq]
        exact hs
      · exact ht.synced hs hm
    cases o with
    | load => exact crConfigLoad_synced s
    | recover => exact crConfigRecover_synced s
    | absSave => exact (presetSave_spec .abs s).1.synced hs (presetSave_spec .abs s).2
    | absRecover => exact (presetRecover_spec .abs s).1.synced hs (presetRecover_spec .abs s).2
    | absLoad => exact hload .abs
    | plaSave => exact (presetSave_spec .pla s).1.synced hs (presetSave_spec .pla s).2
    | plaRecover => exact absurd rfl ho
    | plaLoad => exact hload .pla

/-- **No operation touches the other preset**, in any state. -/
theorem leavesOthers (s : State) (o : ConfigOp) : LeavesOthers s o := by
  have of : ∀ {m : Material} {t : State}, TouchesOnly m s t → ∀ m', m' ∉ [m] →
      paramPreset t.params m' = paramPreset s.params m' ∧ configPreset t.cfg m' = configPreset s.cfg m' := by
    intro m t h m' hm
    rw [List.mem_singleton] at hm
    exact ⟨h.params m' hm, h.cfg m' hm⟩
  intro m hm
  cases o with
  | load => cases m <;> simp [ConfigOp.materials] at hm
  | recover => cases m <;> simp [ConfigOp.materials] at hm
  | absSave => exact of (presetSave_spec .abs s).1 m hm
  | absRecover => exact of (presetRecover_spec .abs s).1 m hm
  | absLoad => exact of (presetLoad_spec .abs s).1 m hm
  | plaSave => exact of (presetSave_spec .pla s).1 m hm
  | plaRecover =>
    cases m with
    | pla => simp [ConfigOp.materials] at hm
    | abs => exact ⟨rfl, rfl⟩
  | plaLoad => exact of (presetLoad_spec .pla s).1 m hm

/-- Every `CrConfigPlaRecover` of the events meets ABS temperatures that are the PLA defaults. -/
def RecoverOk (s : State) : ConfigEvent → Prop
  | .op o => o = .plaRecover → AbsAtPlaDefaults s.cfg
  | .card _ => True

/-- **The presets agree and are isolated** after every operation, from any state that the load at the start of the
program meets and for any operations and changes of the card, exactly when every `CrConfigPlaRecover` finds the ABS
temperatures at the PLA defaults. -/
theorem presets_isolated_iff (s : State) (es : List ConfigEvent) :
    ((∀ pre, pre <+: es → Synced (afterEvents (crConfigLoad s) pre)) ∧
        ∀ pre o, pre ++ [.op o] <+: es → LeavesOthers (afterEvents (crConfigLoad s) pre) o) ↔
      ∀ pre e, pre ++ [e] <+: es → RecoverOk (afterEvents (crConfigLoad s) pre) e := by
  have hrun : (∀ pre, pre <+: es → Synced (afterEvents (crConfigLoad s) pre)) ↔
      ∀ pre e, pre ++ [e] <+: es → RecoverOk (afterEvents (crConfigLoad s) pre) e := by
    refine forall_prefix_iff (Q := fun pre => Synced (afterEvents (crConfigLoad s) pre))
      (C := fun pre e => RecoverOk (afterEvents (crConfigLoad s) pre) e) (crConfigLoad_synced s) (fun pre e h => ?_) es
    rw [show afterEvents (crConfigLoad s) (pre ++ [e]) = ConfigEvent.apply (afterEvents (crConfigLoad s) pre) e from
      List.foldl_concat _ _ _ _]
    cases e with
    | op o => exact apply_synced_iff h o
    | card c => exact iff_of_true h trivial
  rw [← hrun]
  exact ⟨fun h => h.1, fun h => ⟨h, fun pre o _ => leavesOthers _ o⟩⟩

/-- **`CrConfigPlaRecover` after the start** gives the PLA preset the nozzle temperature of ABS. -/
theorem plaRecover_takes_abs :
    paramPreset (afterEvents poweredOn [.op .plaRecover]).params .pla = ⟨240, 70, 100⟩ ∧
      configPreset (afterEvents poweredOn [.op .plaRecover]).cfg .pla = ⟨200, 60, 100⟩ ∧
      ¬ Synced (afterEvents poweredOn [.op .plaRecover]) := by
  refine ⟨rfl, rfl, fun h => ?_⟩
  have h1 : (240 : BitVec 32) = 200 := congrArg Preset.nozzle (h .pla)
  exact absurd h1 (by decide)

end Isolation

end Cxsw.Param
