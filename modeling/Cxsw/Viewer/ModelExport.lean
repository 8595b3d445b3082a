import Cxsw.Viewer.ModelTransform

/-!
# Cxsw.Viewer.ModelExport — what is exported and what is shown (`3d-lib/src/managers/InteractionManager.ts`)

* `Meets`: the calls that go right with an exchange of the y and z axes.
* `exports_of_stepsMeet`: in the runs of such calls the exported matrix is that of the shown group, exchanged.
* `rotation_survives_reset`: a reset does not take the kept matrix back.
-/

namespace Cxsw.Transform

open Matrix AxisRotation

noncomputable section

variable (standing : Standing) (s : State)

/-! ### Conditions -/

/-- With the exchange `P`, what is exported is what is shown. -/
def Agrees (P : Exchange) : Prop := exported s = some (P.conj (displayed s))

/-- What is owed after the calls: a reset gives the identity, and of two rotations about one axis the second one counts.
-/
structure Exports (P : Exchange) (calls : List Call) : Prop where
  agrees : Agrees (run standing s calls) P
  reset : calls.getLast? = some .reset → exported (run standing s calls) = some 1
  again : ∀ before c a b, calls = before ++ [.rotate c a, .rotate c b] →
    exported (run standing s calls) = exported (run standing s (before ++ [.rotate c b]))

/-- The rotation of the shown group is zero. -/
def Upright : Prop := s.mesh.rotation = 0

/-- `getModelMatrixWorld` takes `tempMatrix` as it is. -/
def AsKept : Prop := s.every = true ∨ s.arrow.getLast? = some Entry.scaleFlag

/-- Equal scales, so that they commute with every rotation. -/
def Uniform : Prop := s.mesh.scale.x = s.mesh.scale.y

/-- A call that goes right with the exchange `P`. * A rotation about the only axis so far goes by the sign of this axis;
it needs the scale 1, and about the x axis it must   not be the third one. * After one rotation about the other one of
the y and z axes, `scaleMatrix` must not be there or be the identity, and no   rotation about the same axis may
follow.  Apart from this, rotations about the x axis must not be mixed with others. * One axis may be scaled only where
its flag does not tell of a rotation, and where the scale still commutes with the   rotation and with the exchange; a
scaling must not be transposed twice. * A reset needs the kept matrix to be the identity already. -/
def Meets (P : Exchange) : Call → Prop
  | .rotate .x _ => P.y = P.z ∧ (Alone s .x ∧ s.arrow.length < 2 ∧ s.mesh.scale = 1 ∨
      ¬Alone s .x ∧ 2 ≤ s.arrow.length ∧ s.roateData.y = none ∧ s.roateData.z = none)
  | .rotate .y _ => P.z = -1 ∧ Alone s .y ∧ s.mesh.scale = 1 ∨
      P.y = 1 ∧ Uniform s ∧ (s.arrow = [.z] ∧ (∀ m ∈ s.scaleMatrix, linear m = 1) ∨
        ¬Alone s .y ∧ 2 ≤ s.arrow.length ∧ s.arrow ≠ [.z, .y] ∧ s.roateData.x = none)
  | .rotate .z _ => P.y = 1 ∧ Alone s .z ∧ s.mesh.scale = 1 ∨
      P.z = -1 ∧ Uniform s ∧ s.arrow = [.y] ∧ (∀ m ∈ s.scaleMatrix, linear m = 1) ∨
      P.y = 1 ∧ Uniform s ∧ ¬Alone s .z ∧ 2 ≤ s.arrow.length ∧ s.arrow ≠ [.y, .z] ∧ s.roateData.x = none
  | .rotate .all _ | .rotate .other _ | .scale .other _ _ => s.tempMatrix ≠ none
  | .scale .x percentage _ => (Upright s ∨ s.rotateFlagX = false ∧ AsKept s) ∧
      (s.mesh.rotation.y = 0 ∧ s.mesh.rotation.z = 0 ∨ percentage = s.mesh.scale.y)
  | .scale .y percentage _ => (Upright s ∨ s.rotateFlagZ = false ∧ AsKept s) ∧ percentage = s.mesh.scale.y
  | .scale .z percentage _ => (Upright s ∨ s.rotateFlagY = false ∧ AsKept s) ∧ percentage = s.mesh.scale.z
  | .scale .all _ _ =>
      Upright s ∨ s.rotateFlagX = true ∨ s.rotateFlagY = true ∨ s.rotateFlagZ = true ∨ AsKept s
  | .reset => ∃ m, s.tempMatrix = some m ∧ linear m = 1

/-- Every call of a run meets its condition. -/
def StepsMeet (P : Exchange) : State → List Call → Prop
  | _, [] => True
  | s, call :: calls => Meets s P call ∧ StepsMeet P (step standing s call) calls

/-! ### Runs -/

variable {s} {standing} {P : Exchange}

/-- The axis about which the mesh group is rotated where only one axis has been pushed. -/
def About : Entry → Vector3 → Prop
  | .x, r => r.y = 0 ∧ r.z = 0
  | .y, r => r.x = 0 ∧ r.y = 0
  | .z, r => r.x = 0 ∧ r.z = 0
  | .scaleFlag, _ => True

/-- The invariant of the runs whose calls meet their conditions. -/
structure Inv (P : Exchange) (s : State) : Prop where
  pose : Pose s s.mesh.rotation s.mesh.scale
  aligned : Aligned P s.mesh.rotation s.mesh.scale
  fresh : s.tenum = 0 → s.mesh.rotation = 0
  about : ∀ el, Alone s el → About el s.mesh.rotation

/-- A state after a call that has gone right. -/
structure Right (P : Exchange) (s : State) (r size : Vector3) : Prop where
  pose : Pose s r size
  aligned : Aligned P r size
  fresh : s.tenum = 0 → r = 0
  about : ∀ el, Alone s el → About el r
  exported : exported s = some (tLinear r size)ᵀ

theorem Right.inv {r size : Vector3} (h : Right P s r size) : Inv P s := by
  obtain ⟨hpose, haligned, hfresh, habout, -⟩ := h
  obtain rfl := hpose.rotation
  obtain rfl := hpose.scale
  exact ⟨hpose, haligned, hfresh, habout⟩

theorem Right.agrees {r size : Vector3} (h : Right P s r size) : Agrees s P := by
  rw [Agrees, h.exported, displayed, Object3D.composed, linear_compose, h.pose.rotation, h.pose.scale,
    conj_aligned h.aligned, tLinear]

theorem every_congr {t : State} (h : s.arrow = t.arrow) : s.every = t.every := by
  unfold State.every
  rw [h]

/-- The kept matrix is handed out as it should be. -/
theorem Outcome.right {r size : Vector3} {m : Mat3} {arrow : List Entry} (h : Outcome s r size m arrow)
    (haligned : Aligned P r size) (habout : ∀ el, (∀ other ∈ arrow, other = el) → About el r)
    (hm : AsKept s ∧ m = (tLinear r size)ᵀ ∨ ¬AsKept s ∧ m = tLinear r size) :
    Right P (s.getTransformModelData standing) r size := by
  have hmoved : Outcome (s.getTransformModelData standing) r size m arrow :=
    Outcome.getTransformModelData standing h
  refine ⟨hmoved.toPose, haligned, fun htenum => absurd htenum hmoved.tenum, fun el halone => habout el ?_, ?_⟩
  · rw [← hmoved.arrow]
    exact halone
  · obtain ⟨kept, htemp, hlinear⟩ := hmoved.temp
    rcases hm with ⟨hkept, rfl⟩ | ⟨hkept, rfl⟩
    · have hmovedKept : AsKept (s.getTransformModelData standing) := hkept
      rw [exported_every hmovedKept htemp, hlinear]
    · have hnot : ¬((s.getTransformModelData standing).every = true ∨
          (s.getTransformModelData standing).arrow.getLast? = some Entry.scaleFlag) := hkept
      rw [not_or, Bool.not_eq_true] at hnot
      rw [exported_transposed hnot.1 hnot.2 htemp, hlinear]

theorem asKept_push {t : State} {el : Entry} (halone : Alone s el) (harrow : t.arrow = s.arrow ++ [el]) : AsKept t :=
  Or.inl ((every_congr (t := s.push el) harrow).trans (every_push.mpr halone))

theorem not_asKept_push {t : State} {el : Entry} (hmixed : ¬Alone s el) (hel : el ≠ .scaleFlag)
    (harrow : t.arrow = s.arrow ++ [el]) : ¬AsKept t := by
  rintro (hevery | hlast)
  · rw [every_congr (t := s.push el) harrow, every_push] at hevery
    exact hmixed hevery
  · rw [harrow, List.getLast?_concat, Option.some.injEq] at hlast
    exact hel hlast

theorem asKept_scaleFlag {t : State} (harrow : t.arrow = s.arrow ++ [.scaleFlag]) : AsKept t := by
  refine Or.inr ?_
  rw [harrow, List.getLast?_concat]

/-- After a push only the pushed entry can be the only one. -/
theorem about_push {el : Entry} {r : Vector3} (h : Alone s el → About el r) (other : Entry)
    (hother : ∀ e ∈ s.arrow ++ [el], e = other) : About other r := by
  obtain rfl : el = other := hother el (by simp)
  exact h fun e he => hother e (List.mem_append_left _ he)

/-- The rotation that a rotation about the given axis leads to. -/
def target (s : State) : Coordinates → ℝ → Vector3
  | .x, d => if (s.push .x).every then ⟨degToRad d, 0, 0⟩ else turned { s.roateData with x := some d }
  | .y, d =>
    if (s.push .y).every then ⟨0, 0, degToRad (-d)⟩
    else if s.arrow = [.z] then ⟨0, degToRad d, 0⟩ else turned { s.roateData with y := some d }
  | .z, d =>
    if (s.push .z).every then ⟨0, degToRad (-d), 0⟩
    else if s.arrow = [.y] then ⟨0, 0, degToRad (-d)⟩ else turned { s.roateData with y := some d, z := some d }
  | .all, _ | .other, _ => s.mesh.rotation

@[simp] theorem linear_makeRotationX (a : ℝ) : linear (makeRotationX a) = rotX a := rfl

@[simp] theorem linear_makeRotationY (a : ℝ) : linear (makeRotationY a) = rotY a := rfl

@[simp] theorem linear_makeRotationZ (a : ℝ) : linear (makeRotationZ a) = rotZ a := rfl

theorem degToRad_neg (degrees : ℝ) : degToRad (-degrees) = -degToRad degrees := neg_mul _ _

theorem tLinear_x (a : ℝ) : (tLinear ⟨a, 0, 0⟩ 1)ᵀ = rotX (-a) := by
  rw [tLinear, scaling_one, Matrix.mul_one, euler, twist, neg_zero, rotY_zero, rotZ_zero, Matrix.mul_one,
    Matrix.mul_one, rotX_transpose]

theorem tLinear_y (a : ℝ) : (tLinear ⟨0, a, 0⟩ 1)ᵀ = rotZ (-a) := by
  rw [tLinear, scaling_one, Matrix.mul_one, euler, twist, neg_zero, rotX_zero, rotY_zero, Matrix.one_mul,
    Matrix.one_mul, rotZ_transpose]

theorem tLinear_z (a : ℝ) : (tLinear ⟨0, 0, a⟩ 1)ᵀ = rotY a := by
  rw [tLinear, scaling_one, Matrix.mul_one, euler, twist, rotX_zero, rotZ_zero, Matrix.one_mul, Matrix.mul_one,
    rotY_transpose, neg_neg]

theorem cloneOnce_of_tenum (h : s.tenum ≠ 0) : s.cloneOnce = s := if_neg h

theorem right_rotateX (hinv : Inv P s) (htenum : s.tenum ≠ 0) {d : ℝ}
    (h : Meets s P (.rotate .x d)) : Right P (onModelRotate standing s .x d) (target s .x d) s.mesh.scale := by
  rw [onModelRotate, cloneOnce_of_tenum htenum]
  obtain ⟨hsign, ⟨halone, hlength, hone⟩ | ⟨hmixed, hlength, hy, hz⟩⟩ := h
  · obtain ⟨hy, hz⟩ : s.mesh.rotation.y = 0 ∧ s.mesh.rotation.z = 0 := hinv.about .x halone
    have hout : Outcome (s.rotateX standing d) _ _ _ _ :=
      rotateX_alone hinv.pose htenum halone hlength hy hz d
    rw [target, if_pos (every_push.mpr halone)]
    refine hout.right ⟨hinv.aligned.1, Or.inl ⟨rfl, rfl, Or.inr hsign⟩⟩ (about_push fun _ => ⟨rfl, rfl⟩)
      (Or.inl ⟨asKept_push halone hout.arrow, ?_⟩)
    rw [linear_makeRotationX, hone, tLinear_x, degToRad_neg]
  · have hout : Outcome (s.rotateX standing d) _ _ _ _ :=
      rotateX_mixed hinv.pose htenum hmixed hlength d
    rw [target, if_neg fun hevery => hmixed (every_push.mp hevery)]
    have hturned : turned { s.roateData with x := some d } = ⟨degToRad d, 0, 0⟩ := by
      simp [turned, turnedZ, hy, hz]
    refine hout.right ?_ (about_push fun halone => absurd halone hmixed)
      (Or.inr ⟨not_asKept_push hmixed (by decide) hout.arrow, rfl⟩)
    rw [hturned]
    exact ⟨hinv.aligned.1, Or.inl ⟨rfl, rfl, Or.inr hsign⟩⟩

/-- Without a rotation about the x axis, `onSetModelRotate` turns about the axis that is exchanged for z. -/
theorem aligned_turned {data : RoateData} {size : Vector3} (hsign : P.y = 1) (hx : data.x = none)
    (hyz : size.y = size.z) (hxy : size.x = size.y) : Aligned P (turned data) size := by
  refine ⟨hyz, Or.inr ⟨?_, Or.inr hsign, Or.inl rfl, hxy⟩⟩
  rw [turned, hx]
  rfl

theorem right_rotateY (hinv : Inv P s) (htenum : s.tenum ≠ 0) {d : ℝ}
    (h : Meets s P (.rotate .y d)) : Right P (onModelRotate standing s .y d) (target s .y d) s.mesh.scale := by
  rw [onModelRotate, cloneOnce_of_tenum htenum]
  obtain ⟨hsign, halone, hone⟩ | ⟨hsign, huniform, ⟨harrow, hone⟩ | ⟨hmixed, hlength, -, hx⟩⟩ := h
  · obtain ⟨hx, hy⟩ : s.mesh.rotation.x = 0 ∧ s.mesh.rotation.y = 0 := hinv.about .y halone
    have hout : Outcome (s.rotateY standing d) _ _ _ _ :=
      rotateY_alone hinv.pose htenum halone hx hy d
    have hxy : s.mesh.scale.x = s.mesh.scale.y := by rw [hone]; rfl
    rw [target, if_pos (every_push.mpr halone)]
    refine hout.right ⟨hinv.aligned.1, Or.inr ⟨rfl, Or.inl rfl, Or.inr hsign, hxy⟩⟩ (about_push fun _ => ⟨rfl, rfl⟩)
      (Or.inl ⟨asKept_push halone hout.arrow, ?_⟩)
    rw [linear_makeRotationY, hone, tLinear_z]
  · have halone : Alone s .z := by simp [Alone, harrow]
    have hmixed : ¬Alone s .y := by simp [Alone, harrow]
    obtain ⟨hx, hz⟩ : s.mesh.rotation.x = 0 ∧ s.mesh.rotation.z = 0 := hinv.about .z halone
    have hout : Outcome (s.rotateY standing d) _ _ _ _ :=
      rotateY_second hinv.pose htenum harrow hone hx hz d
    rw [target, if_neg fun hevery => hmixed (every_push.mp hevery), if_pos harrow]
    exact hout.right ⟨hinv.aligned.1, Or.inr ⟨rfl, Or.inr hsign, Or.inl rfl, huniform⟩⟩
      (about_push fun halone => absurd halone hmixed) (Or.inr ⟨not_asKept_push hmixed (by decide) hout.arrow, rfl⟩)
  · have hout : Outcome (s.rotateY standing d) _ _ _ _ :=
      rotateY_mixed hinv.pose htenum hmixed hlength d
    have harrow : s.arrow ≠ [.z] := by
      rintro heq
      rw [heq] at hlength
      exact absurd hlength (by decide)
    rw [target, if_neg fun hevery => hmixed (every_push.mp hevery), if_neg harrow]
    exact hout.right (aligned_turned hsign hx hinv.aligned.1 huniform) (about_push fun halone => absurd halone hmixed)
      (Or.inr ⟨not_asKept_push hmixed (by decide) hout.arrow, rfl⟩)

theorem right_rotateZ (hinv : Inv P s) (htenum : s.tenum ≠ 0) {d : ℝ}
    (h : Meets s P (.rotate .z d)) : Right P (onModelRotate standing s .z d) (target s .z d) s.mesh.scale := by
  rw [onModelRotate, cloneOnce_of_tenum htenum]
  obtain ⟨hsign, halone, hone⟩ | ⟨hsign, huniform, harrow, hone⟩ | ⟨hsign, huniform, hmixed, hlength, -, hx⟩ := h
  · obtain ⟨hx, hz⟩ : s.mesh.rotation.x = 0 ∧ s.mesh.rotation.z = 0 := hinv.about .z halone
    have hout : Outcome (s.rotateZ standing d) _ _ _ _ :=
      rotateZ_alone hinv.pose htenum halone hx hz d
    have hxy : s.mesh.scale.x = s.mesh.scale.y := by rw [hone]; rfl
    rw [target, if_pos (every_push.mpr halone)]
    refine hout.right ⟨hinv.aligned.1, Or.inr ⟨rfl, Or.inr hsign, Or.inl rfl, hxy⟩⟩ (about_push fun _ => ⟨rfl, rfl⟩)
      (Or.inl ⟨asKept_push halone hout.arrow, ?_⟩)
    rw [linear_makeRotationZ, hone, tLinear_y, degToRad_neg, neg_neg]
  · have halone : Alone s .y := by simp [Alone, harrow]
    have hmixed : ¬Alone s .z := by simp [Alone, harrow]
    obtain ⟨hx, hy⟩ : s.mesh.rotation.x = 0 ∧ s.mesh.rotation.y = 0 := hinv.about .y halone
    have hout : Outcome (s.rotateZ standing d) _ _ _ _ :=
      rotateZ_second hinv.pose htenum harrow hone hx hy d
    rw [target, if_neg fun hevery => hmixed (every_push.mp hevery), if_pos harrow]
    exact hout.right ⟨hinv.aligned.1, Or.inr ⟨rfl, Or.inl rfl, Or.inr hsign, huniform⟩⟩
      (about_push fun halone => absurd halone hmixed) (Or.inr ⟨not_asKept_push hmixed (by decide) hout.arrow, rfl⟩)
  · have hout : Outcome (s.rotateZ standing d) _ _ _ _ :=
      rotateZ_mixed hinv.pose htenum hmixed hlength d
    have harrow : s.arrow ≠ [.y] := by
      rintro heq
      rw [heq] at hlength
      exact absurd hlength (by decide)
    rw [target, if_neg fun hevery => hmixed (every_push.mp hevery), if_neg harrow]
    exact hout.right (aligned_turned hsign hx hinv.aligned.1 huniform) (about_push fun halone => absurd halone hmixed)
      (Or.inr ⟨not_asKept_push hmixed (by decide) hout.arrow, rfl⟩)

theorem Inv.upright_of_nil (hinv : Inv P s) (harrow : s.arrow = []) : s.mesh.rotation = 0 := by
  have halone : ∀ el, Alone s el := by simp [Alone, harrow]
  obtain ⟨hy, hz⟩ : s.mesh.rotation.y = 0 ∧ s.mesh.rotation.z = 0 := hinv.about .x (halone .x)
  obtain ⟨hx, -⟩ : s.mesh.rotation.x = 0 ∧ s.mesh.rotation.z = 0 := hinv.about .z (halone .z)
  exact Vector3.ext hx hy hz

@[simp] theorem mesh_checkFlags : s.checkFlags.mesh = s.mesh := by
  unfold State.checkFlags
  split_ifs <;> rfl

@[simp] theorem arrow_checkFlags : s.checkFlags.arrow = s.arrow := by
  unfold State.checkFlags
  split_ifs <;> rfl

@[simp] theorem tenum_checkFlags : s.checkFlags.tenum = s.tenum := by
  unfold State.checkFlags
  split_ifs <;> rfl

@[simp] theorem tempMatrix_checkFlags : s.checkFlags.tempMatrix = s.tempMatrix := by
  unfold State.checkFlags
  split_ifs <;> rfl

theorem Pose.checkFlags {r size : Vector3} (h : Pose s r size) : Pose s.checkFlags r size := by
  unfold State.checkFlags
  split_ifs
  · exact { h with }
  · exact h

/-- In an upright model no rotation flag stays set. -/
theorem checkFlags_upright (h : Upright s) :
    s.checkFlags.rotateFlagX = false ∧ s.checkFlags.rotateFlagY = false ∧ s.checkFlags.rotateFlagZ = false := by
  have hzero : s.mesh.rotation.x = 0 ∧ s.mesh.rotation.y = 0 ∧ s.mesh.rotation.z = 0 := by
    rw [h]
    exact ⟨rfl, rfl, rfl⟩
  rw [State.checkFlags, if_pos hzero]
  exact ⟨rfl, rfl, rfl⟩

/-- In any other model the flags stay as they are. -/
theorem checkFlags_turned (h : ¬Upright s) : s.checkFlags = s :=
  if_neg fun hzero => h (Vector3.ext hzero.1 hzero.2.1 hzero.2.2)

/-- The flag of an axis is not set where the axis may be scaled. -/
theorem flag_checkFlags (flag : State → Bool) (hupright : Upright s → flag s.checkFlags = false)
    (h : Upright s ∨ flag s = false ∧ AsKept s) : flag s.checkFlags = false := by
  by_cases hs : Upright s
  · exact hupright hs
  · rw [checkFlags_turned hs]
    exact (h.resolve_left hs).1

theorem cloneOnce_checkFlags (htenum : s.tenum ≠ 0) : s.checkFlags.cloneOnce = s.checkFlags :=
  cloneOnce_of_tenum (by rwa [tenum_checkFlags])

/-- A scaling whose result is handed out as it is kept, or of an upright model. -/
theorem Outcome.right_scaled {t : State} {size : Vector3}
    (h : Outcome t s.mesh.rotation size (tLinear s.mesh.rotation size)ᵀ s.arrow) (hinv : Inv P s)
    (haligned : Aligned P s.mesh.rotation size) (hkept : Upright s ∨ AsKept s) :
    Right P (t.getTransformModelData standing) s.mesh.rotation size := by
  refine h.right haligned hinv.about ?_
  by_cases hask : AsKept t
  · exact Or.inl ⟨hask, rfl⟩
  · refine Or.inr ⟨hask, ?_⟩
    have hnot : ¬AsKept s := by
      unfold AsKept at hask ⊢
      rwa [every_congr h.arrow, h.arrow] at hask
    have hupright : s.mesh.rotation = 0 := hkept.resolve_right hnot
    rw [hupright, tLinear_zero_transpose]

theorem aligned_sizeX {r size : Vector3} (h : Aligned P r size) {percentage : ℝ}
    (hx : r.y = 0 ∧ r.z = 0 ∨ percentage = size.y) : Aligned P r { size with x := percentage } := by
  obtain ⟨hyz, ⟨hy, hz, hsign⟩ | ⟨hx', hy, hz, -⟩⟩ := h
  · exact ⟨hyz, Or.inl ⟨hy, hz, hsign⟩⟩
  · rcases hx with ⟨hy', hz'⟩ | hpercentage
    · exact ⟨hyz, Or.inl ⟨hy', hz', Or.inl hx'⟩⟩
    · exact ⟨hyz, Or.inr ⟨hx', hy, hz, hpercentage⟩⟩

theorem aligned_smul {r size : Vector3} (h : Aligned P r size) (e : ℝ) :
    Aligned P r (size.abs.smul |e|) := by
  obtain ⟨hyz, hcases⟩ := h
  refine ⟨by simp only [Vector3.abs, Vector3.smul, hyz], hcases.imp id ?_⟩
  rintro ⟨hx, hy, hz, hxy⟩
  exact ⟨hx, hy, hz, by simp only [Vector3.abs, Vector3.smul, hxy]⟩

section Scaling

variable {P : Exchange} (hinv : Inv P s) (htenum : s.tenum ≠ 0) {percentage e : ℝ}

include hinv htenum

theorem right_scaleX (h : Meets s P (.scale .x percentage e)) :
    Right P (onModelScale standing s .x percentage e) s.mesh.rotation { s.mesh.scale with x := percentage } := by
  obtain ⟨hkept, hx⟩ := h
  have hflag : s.checkFlags.rotateFlagX = false :=
    flag_checkFlags State.rotateFlagX (fun hupright => (checkFlags_upright hupright).1) hkept
  have hout := scaleX_plain hinv.pose.checkFlags (by rwa [tenum_checkFlags]) hflag
    (fun harrow => hinv.upright_of_nil (by rwa [arrow_checkFlags] at harrow)) percentage e
  rw [arrow_checkFlags] at hout
  rw [onModelScale, cloneOnce_checkFlags htenum]
  exact hout.right_scaled hinv (aligned_sizeX hinv.aligned hx) (hkept.imp_right And.right)

theorem right_scaleY (h : Meets s P (.scale .y percentage e)) :
    Right P (onModelScale standing s .y percentage e) s.mesh.rotation s.mesh.scale := by
  obtain ⟨hkept, hy⟩ := h
  have hflag : s.checkFlags.rotateFlagZ = false :=
    flag_checkFlags State.rotateFlagZ (fun hupright => (checkFlags_upright hupright).2.2) hkept
  have hout := scaleY_plain hinv.pose.checkFlags (by rwa [tenum_checkFlags]) hflag
    (fun harrow => hinv.upright_of_nil (by rwa [arrow_checkFlags] at harrow)) percentage e
  have hsize : ({ s.mesh.scale with z := percentage } : Vector3) = s.mesh.scale := by
    rw [hy, hinv.aligned.1]
  rw [arrow_checkFlags, hsize] at hout
  rw [onModelScale, cloneOnce_checkFlags htenum]
  exact hout.right_scaled hinv hinv.aligned (hkept.imp_right And.right)

theorem right_scaleZ (h : Meets s P (.scale .z percentage e)) :
    Right P (onModelScale standing s .z percentage e) s.mesh.rotation s.mesh.scale := by
  obtain ⟨hkept, hz⟩ := h
  have hflag : s.checkFlags.rotateFlagY = false :=
    flag_checkFlags State.rotateFlagY (fun hupright => (checkFlags_upright hupright).2.1) hkept
  have hout := scaleZ_plain hinv.pose.checkFlags (by rwa [tenum_checkFlags]) hflag
    (fun harrow => hinv.upright_of_nil (by rwa [arrow_checkFlags] at harrow)) percentage e
  have hsize : ({ s.mesh.scale with y := percentage } : Vector3) = s.mesh.scale := by
    rw [hz, ← hinv.aligned.1]
  rw [arrow_checkFlags, hsize] at hout
  rw [onModelScale, cloneOnce_checkFlags htenum]
  exact hout.right_scaled hinv hinv.aligned (hkept.imp_right And.right)

theorem right_scaleAll (h : Meets s P (.scale .all percentage e)) :
    Right P (onModelScale standing s .all percentage e) s.mesh.rotation (s.mesh.scale.abs.smul |e|) := by
  have hout := scaleAll_outcome hinv.pose.checkFlags (by rwa [tenum_checkFlags])
    (fun harrow => hinv.upright_of_nil (by rwa [arrow_checkFlags] at harrow)) e
  rw [arrow_checkFlags] at hout
  rw [onModelScale, cloneOnce_checkFlags htenum]
  have haligned := aligned_smul hinv.aligned e
  by_cases hflag : (s.checkFlags.rotateFlagX || s.checkFlags.rotateFlagY || s.checkFlags.rotateFlagZ) = true
  · rw [if_pos hflag] at hout
    have habout : ∀ el, (∀ other ∈ s.arrow ++ [Entry.scaleFlag], other = el) → About el s.mesh.rotation :=
      about_push fun _ => trivial
    exact hout.right haligned habout (Or.inl ⟨asKept_scaleFlag hout.arrow, rfl⟩)
  · rw [if_neg hflag, List.append_nil] at hout
    refine hout.right_scaled hinv haligned ?_
    by_cases hupright : Upright s
    · exact Or.inl hupright
    · rw [checkFlags_turned hupright, Bool.or_eq_true, Bool.or_eq_true, not_or, not_or] at hflag
      obtain ⟨⟨hX, hY⟩, hZ⟩ := hflag
      exact Or.inr ((((h.resolve_left hupright).resolve_left hX).resolve_left hY).resolve_left hZ)

end Scaling

theorem right_reset (hinv : Inv P s) (h : Meets s P .reset) :
    Right P (s.onResetModel standing) 0 1 := by
  obtain ⟨m, hm, hone⟩ := h
  have hpose : Pose (s.onResetModel standing) 0 1 := by
    refine Pose.of_updates rfl twist_zero.symm rfl rfl ?_ hinv.pose.unused
    exact setFromMatrixScale_compose _ _ _
  refine ⟨hpose, ⟨rfl, Or.inl ⟨rfl, rfl, Or.inl rfl⟩⟩, fun _ => rfl, fun el _ => ?_, ?_⟩
  · cases el with
    | x | y | z => exact ⟨rfl, rfl⟩
    | scaleFlag => trivial
  · have htemp : (s.onResetModel standing).tempMatrix = some m := hm
    rw [exported_every (Or.inl rfl) htemp, hone, tLinear_zero_transpose, tLinear, twist_zero, euler_zero, scaling_one,
      Matrix.one_mul]

theorem exported_congr {t : State} (harrow : s.arrow = t.arrow) (htemp : s.tempMatrix = t.tempMatrix) :
    exported s = exported t := by
  unfold exported State.getModelMatrixWorld
  rw [every_congr harrow, harrow, htemp]
  split_ifs <;> rw [Option.map_map, Option.map_map] <;> rfl

/-- What is shown and what is handed out stays as it is. -/
theorem Agrees.congr {t : State} (h : Agrees s P) (harrow : t.arrow = s.arrow)
    (htemp : t.tempMatrix = s.tempMatrix) (hrotation : t.mesh.rotation = s.mesh.rotation)
    (hscale : t.mesh.scale = s.mesh.scale) : Agrees t P := by
  rw [Agrees, displayed, Object3D.composed, linear_compose] at h ⊢
  rw [exported_congr harrow htemp, hrotation, hscale, h]

theorem Agrees.getTransformModelData (h : Agrees s P) : Agrees (s.getTransformModelData standing) P :=
  h.congr rfl rfl rfl rfl

theorem Inv.checkFlags (h : Inv P s) : Inv P s.checkFlags := by
  obtain ⟨hpose, haligned, hfresh, habout⟩ := h
  refine ⟨?_, ?_, ?_, fun el halone => ?_⟩
  · rw [mesh_checkFlags]
    exact hpose.checkFlags
  · rwa [mesh_checkFlags]
  · rwa [mesh_checkFlags, tenum_checkFlags]
  · rw [mesh_checkFlags]
    rw [Alone, arrow_checkFlags] at halone
    exact habout el halone

@[simp] theorem mesh_cloneOnce : s.cloneOnce.mesh = s.mesh := by
  unfold State.cloneOnce
  split_ifs <;> rfl

@[simp] theorem arrow_cloneOnce : s.cloneOnce.arrow = s.arrow := by
  unfold State.cloneOnce
  split_ifs <;> rfl

@[simp] theorem roateData_cloneOnce : s.cloneOnce.roateData = s.roateData := by
  unfold State.cloneOnce
  split_ifs <;> rfl

@[simp] theorem tempMatrix_cloneOnce : s.cloneOnce.tempMatrix = s.tempMatrix := by
  unfold State.cloneOnce
  split_ifs <;> rfl

theorem Inv.cloneOnce (h : Inv P s) : Inv P s.cloneOnce := by
  have hpose := h.pose.cloneOnce h.fresh
  refine ⟨?_, ?_, fun htenum => absurd htenum tenum_cloneOnce, fun el halone => ?_⟩
  · rwa [mesh_cloneOnce]
  · rw [mesh_cloneOnce]
    exact h.aligned
  · rw [Alone, arrow_cloneOnce] at halone
    rw [mesh_cloneOnce]
    exact h.about el halone

theorem Inv.getTransformModelData (h : Inv P s) : Inv P (s.getTransformModelData standing) :=
  ⟨{ h.pose.updateMesh with }, h.aligned, h.fresh, h.about⟩

theorem Meets.cloneOnce {call : Call} (h : Meets s P call) (hunused : s.meshScaleMatrix = none) :
    Meets s.cloneOnce P call := by
  by_cases htenum : s.tenum = 0
  · rw [State.cloneOnce, if_pos htenum]
    have hnone : ∀ m ∈ s.meshScaleMatrix, linear m = 1 := by simp [hunused]
    cases call with
    | rotate coordinates degree =>
      cases coordinates with
      | x | all | other => exact h
      | y =>
        obtain halone | ⟨hsign, huniform, ⟨harrow, -⟩ | hmixed⟩ := h
        · exact Or.inl halone
        · exact Or.inr ⟨hsign, huniform, Or.inl ⟨harrow, hnone⟩⟩
        · exact Or.inr ⟨hsign, huniform, Or.inr hmixed⟩
      | z =>
        obtain halone | ⟨hsign, huniform, harrow, -⟩ | hmixed := h
        · exact Or.inl halone
        · exact Or.inr (Or.inl ⟨hsign, huniform, harrow, hnone⟩)
        · exact Or.inr (Or.inr hmixed)
    | scale coordinates percentage e => cases coordinates <;> exact h
    | reset => exact h
  · rwa [cloneOnce_of_tenum htenum]

theorem onModelRotate_cloneOnce (coordinates : Coordinates) (d : ℝ) :
    onModelRotate standing s.cloneOnce coordinates d = onModelRotate standing s coordinates d := by
  unfold onModelRotate
  rw [cloneOnce_of_tenum tenum_cloneOnce]

theorem onModelScale_cloneOnce (coordinates : Coordinates) (percentage e : ℝ) :
    onModelScale standing s.cloneOnce coordinates percentage e = onModelScale standing s coordinates percentage e := by
  have hcheck : s.cloneOnce.checkFlags = s.checkFlags.cloneOnce := by
    unfold State.cloneOnce
    rw [tenum_checkFlags]
    unfold State.checkFlags
    split_ifs <;> rfl
  have htenum : s.checkFlags.cloneOnce.tenum ≠ 0 := tenum_cloneOnce
  unfold onModelScale
  rw [hcheck, cloneOnce_of_tenum htenum]

/-- **One call** that meets its condition. -/
theorem step_agrees (hinv : Inv P s) (hagrees : s.tempMatrix ≠ none → Agrees s P) {call : Call}
    (hmeets : Meets s P call) : Inv P (step standing s call) ∧ Agrees (step standing s call) P := by
  have hclone : Inv P s.cloneOnce := hinv.cloneOnce
  have htenum : s.cloneOnce.tenum ≠ 0 := tenum_cloneOnce
  have hcloned : Meets s.cloneOnce P call := hmeets.cloneOnce hinv.pose.unused
  have hcloneAgrees : s.tempMatrix ≠ none → Agrees s.cloneOnce P := fun htemp =>
    (hagrees htemp).congr arrow_cloneOnce tempMatrix_cloneOnce (congrArg _ mesh_cloneOnce) (congrArg _ mesh_cloneOnce)
  cases call with
  | rotate coordinates d =>
    rw [step, ← onModelRotate_cloneOnce]
    cases coordinates with
    | x => exact ⟨(right_rotateX hclone htenum hcloned).inv, (right_rotateX hclone htenum hcloned).agrees⟩
    | y => exact ⟨(right_rotateY hclone htenum hcloned).inv, (right_rotateY hclone htenum hcloned).agrees⟩
    | z => exact ⟨(right_rotateZ hclone htenum hcloned).inv, (right_rotateZ hclone htenum hcloned).agrees⟩
    | all | other =>
      unfold onModelRotate
      rw [cloneOnce_of_tenum htenum]
      exact ⟨hclone.getTransformModelData, (hcloneAgrees hmeets).getTransformModelData⟩
  | scale coordinates percentage e =>
    rw [step, ← onModelScale_cloneOnce]
    cases coordinates with
    | x => exact ⟨(right_scaleX hclone htenum hcloned).inv, (right_scaleX hclone htenum hcloned).agrees⟩
    | y => exact ⟨(right_scaleY hclone htenum hcloned).inv, (right_scaleY hclone htenum hcloned).agrees⟩
    | z => exact ⟨(right_scaleZ hclone htenum hcloned).inv, (right_scaleZ hclone htenum hcloned).agrees⟩
    | all => exact ⟨(right_scaleAll hclone htenum hcloned).inv, (right_scaleAll hclone htenum hcloned).agrees⟩
    | other =>
      unfold onModelScale
      rw [cloneOnce_checkFlags htenum]
      exact ⟨hclone.checkFlags, (hcloneAgrees hmeets).congr arrow_checkFlags tempMatrix_checkFlags
        (congrArg _ mesh_checkFlags) (congrArg _ mesh_checkFlags)⟩
  | reset => exact ⟨(right_reset hinv hmeets).inv, (right_reset hinv hmeets).agrees⟩

section Records

variable (f : Vector3 → Vector3) (el : Entry) (g : RoateData → RoateData) (x y z : Bool) (m : Matrix4)

@[simp] theorem arrow_push : (s.push el).arrow = s.arrow ++ [el] := rfl
@[simp] theorem arrow_record : (s.record g).arrow = s.arrow := rfl
@[simp] theorem arrow_turnMesh : (s.turnMesh f).arrow = s.arrow := rfl
@[simp] theorem arrow_turnT : (s.turnT f).arrow = s.arrow := rfl
@[simp] theorem arrow_raise : (s.raise x y z).arrow = s.arrow := rfl
@[simp] theorem arrow_keepT : s.keepT.arrow = s.arrow := rfl
@[simp] theorem arrow_onLocalResetModel : (s.onLocalResetModel standing).arrow = s.arrow := rfl
@[simp] theorem roateData_push : (s.push el).roateData = s.roateData := rfl
@[simp] theorem roateData_record : (s.record g).roateData = g s.roateData := rfl
@[simp] theorem roateData_turnMesh : (s.turnMesh f).roateData = s.roateData := rfl
@[simp] theorem roateData_turnT : (s.turnT f).roateData = s.roateData := rfl
@[simp] theorem roateData_raise : (s.raise x y z).roateData = s.roateData := rfl
@[simp] theorem roateData_keepT : s.keepT.roateData = s.roateData := rfl
@[simp] theorem roateData_onLocalResetModel : (s.onLocalResetModel standing).roateData = s.roateData := rfl

@[simp] theorem arrow_setRotateX : s.setRotateX.arrow = s.arrow := by
  unfold State.setRotateX
  split <;> rfl

@[simp] theorem arrow_setRotateY : s.setRotateY.arrow = s.arrow := by
  unfold State.setRotateY
  split <;> rfl

@[simp] theorem arrow_setRotateZ : s.setRotateZ.arrow = s.arrow := by
  unfold State.setRotateZ
  split <;> rfl

@[simp] theorem roateData_setRotateZ : s.setRotateZ.roateData = s.roateData := by
  unfold State.setRotateZ
  split <;> rfl

@[simp] theorem arrow_onSetModelRotate : (s.onSetModelRotate standing).arrow = s.arrow := by
  simp only [State.onSetModelRotate]
  split_ifs <;> simp

@[simp] theorem roateData_onSetModelRotate : (s.onSetModelRotate standing).roateData = s.roateData := by
  simp only [State.onSetModelRotate]
  split_ifs <;> simp

@[simp] theorem roateData_rotated : (s.rotated m).roateData = s.roateData := by
  unfold State.rotated
  split <;> rfl

@[simp] theorem arrow_rotatedT : s.rotatedT.arrow = s.arrow := by
  unfold State.rotatedT
  split <;> rfl

@[simp] theorem roateData_rotatedT : s.rotatedT.roateData = s.roateData := by
  unfold State.rotatedT
  split <;> rfl

end Records

/-- What a rotation about the x axis records. -/
theorem rotateX_records (standing : Standing) (d : ℝ) : (s.rotateX standing d).arrow = s.arrow ++ [.x] ∧
    (s.rotateX standing d).roateData.y = s.roateData.y ∧ (s.rotateX standing d).roateData.z = s.roateData.z := by
  simp only [State.rotateX]
  split_ifs <;> simp

theorem rotateY_records (standing : Standing) (d : ℝ) : (s.rotateY standing d).arrow = s.arrow ++ [.y] ∧
    (s.rotateY standing d).roateData.x = s.roateData.x ∧ (s.rotateY standing d).roateData.z = s.roateData.z := by
  simp only [State.rotateY]
  split_ifs <;> simp

theorem rotateZ_records (standing : Standing) (d : ℝ) : (s.rotateZ standing d).arrow = s.arrow ++ [.z] ∧
    (s.rotateZ standing d).roateData.x = s.roateData.x := by
  simp only [State.rotateZ]
  split_ifs <;> simp

theorem alone_push {t : State} {el : Entry} (harrow : t.arrow = s.arrow ++ [el]) : Alone t el ↔ Alone s el := by
  simp [Alone, harrow, or_imp]

theorem target_cloneOnce (coordinates : Coordinates) (d : ℝ) :
    target s.cloneOnce coordinates d = target s coordinates d := by
  by_cases htenum : s.tenum = 0
  · rw [State.cloneOnce, if_pos htenum]
    cases coordinates <;> rfl
  · rw [cloneOnce_of_tenum htenum]

/-- A rotation about an axis, from a state in which `_tGroup` may not be there yet. -/
theorem right_rotate (hinv : Inv P s) {coordinates : Coordinates} {d : ℝ}
    (hmeets : Meets s P (.rotate coordinates d)) (hall : coordinates ≠ .all) (hother : coordinates ≠ .other) :
    Right P (onModelRotate standing s coordinates d) (target s coordinates d) s.mesh.scale := by
  have hclone : Inv P s.cloneOnce := hinv.cloneOnce
  have htenum : s.cloneOnce.tenum ≠ 0 := tenum_cloneOnce
  have hcloned := hmeets.cloneOnce hinv.pose.unused
  rw [← onModelRotate_cloneOnce, ← target_cloneOnce, ← mesh_cloneOnce (s := s)]
  cases coordinates with
  | x => exact right_rotateX hclone htenum hcloned
  | y => exact right_rotateY hclone htenum hcloned
  | z => exact right_rotateZ hclone htenum hcloned
  | all => exact absurd rfl hall
  | other => exact absurd rfl hother

theorem turned_congr {data other : RoateData} (hx : data.x = other.x) (hy : data.y = other.y) (hz : data.z = other.z) :
    turned data = turned other := by
  unfold turned turnedZ
  rw [hx, hy, hz]

theorem push_ne {t : State} {el other : Entry} (harrow : t.arrow = s.arrow ++ [el]) (hne : el ≠ other) :
    t.arrow ≠ [other] := by
  intro heq
  rw [heq] at harrow
  have hlast := congrArg List.getLast? harrow
  rw [List.getLast?_concat, List.getLast?_singleton, Option.some.injEq] at hlast
  exact hne hlast.symm

/-- Of two rotations about one axis the first one does not matter. -/
theorem target_again {coordinates : Coordinates} {a b : ℝ}
    (hmeets : Meets (onModelRotate standing s coordinates a) P (.rotate coordinates b)) (hall : coordinates ≠ .all)
    (hother : coordinates ≠ .other) :
    target (onModelRotate standing s coordinates a) coordinates b = target s coordinates b := by
  cases coordinates with
  | x =>
    obtain ⟨harrow, hy, hz⟩ := rotateX_records standing (s := s.cloneOnce) a
    rw [arrow_cloneOnce] at harrow
    rw [roateData_cloneOnce] at hy hz
    have hevery : ((onModelRotate standing s .x a).push .x).every = (s.push .x).every := by
      rw [Bool.eq_iff_iff, every_push, every_push]
      exact alone_push harrow
    have hturned : turned { (onModelRotate standing s .x a).roateData with x := some b } =
        turned { s.roateData with x := some b } := turned_congr rfl hy hz
    rw [target, target, hevery, hturned]
  | y =>
    obtain ⟨harrow, hx, hz⟩ := rotateY_records standing (s := s.cloneOnce) a
    rw [arrow_cloneOnce] at harrow
    rw [roateData_cloneOnce] at hx hz
    have hafter : (onModelRotate standing s .y a).arrow = s.arrow ++ [.y] := harrow
    have halone : Alone (onModelRotate standing s .y a) .y ↔ Alone s .y := alone_push hafter
    have hnotZ : (onModelRotate standing s .y a).arrow ≠ [.z] := push_ne hafter (by decide)
    by_cases h : Alone s .y
    · rw [target, target, if_pos (every_push.mpr (halone.mpr h)), if_pos (every_push.mpr h)]
    · have hmixed : ¬Alone (onModelRotate standing s .y a) .y := mt halone.mp h
      have hturned : turned { (onModelRotate standing s .y a).roateData with y := some b } =
          turned { s.roateData with y := some b } := turned_congr hx rfl hz
      have hsecond : s.arrow ≠ [.z] := by
        obtain ⟨-, hyes, -⟩ | ⟨-, -, ⟨hone, -⟩ | ⟨-, -, hpair, -⟩⟩ := hmeets
        · exact absurd hyes hmixed
        · exact absurd hone hnotZ
        · rintro heq
          rw [hafter, heq] at hpair
          exact hpair rfl
      rw [target, target, if_neg (mt every_push.mp hmixed), if_neg (mt every_push.mp h), if_neg hnotZ, if_neg hsecond,
        hturned]
  | z =>
    obtain ⟨harrow, hx⟩ := rotateZ_records standing (s := s.cloneOnce) a
    rw [arrow_cloneOnce] at harrow
    rw [roateData_cloneOnce] at hx
    have hafter : (onModelRotate standing s .z a).arrow = s.arrow ++ [.z] := harrow
    have halone : Alone (onModelRotate standing s .z a) .z ↔ Alone s .z := alone_push hafter
    have hnotY : (onModelRotate standing s .z a).arrow ≠ [.y] := push_ne hafter (by decide)
    by_cases h : Alone s .z
    · rw [target, target, if_pos (every_push.mpr (halone.mpr h)), if_pos (every_push.mpr h)]
    · have hmixed : ¬Alone (onModelRotate standing s .z a) .z := mt halone.mp h
      have hturned : turned { (onModelRotate standing s .z a).roateData with y := some b, z := some b } =
          turned { s.roateData with y := some b, z := some b } := turned_congr hx rfl rfl
      have hsecond : s.arrow ≠ [.y] := by
        obtain ⟨-, hyes, -⟩ | ⟨-, -, hone, -⟩ | ⟨-, -, -, -, hpair, -⟩ := hmeets
        · exact absurd hyes hmixed
        · exact absurd hone hnotY
        · rintro heq
          rw [hafter, heq] at hpair
          exact hpair rfl
      rw [target, target, if_neg (mt every_push.mp hmixed), if_neg (mt every_push.mp h), if_neg hnotY, if_neg hsecond,
        hturned]
  | all => exact absurd rfl hall
  | other => exact absurd rfl hother

/-- Two rotations about one axis, and the second one alone. -/
theorem exported_again (hinv : Inv P s) {coordinates : Coordinates} {a b : ℝ}
    (ha : Meets s P (.rotate coordinates a))
    (hb : Meets (onModelRotate standing s coordinates a) P (.rotate coordinates b)) :
    exported (onModelRotate standing (onModelRotate standing s coordinates a) coordinates b) =
      exported (onModelRotate standing s coordinates b) := by
  have hsame : coordinates = .all ∨ coordinates = .other → ∀ (t : State) (d : ℝ),
      exported (onModelRotate standing t coordinates d) = exported t := by
    rintro (rfl | rfl) t d <;> exact exported_congr arrow_cloneOnce tempMatrix_cloneOnce
  by_cases hnone : coordinates = .all ∨ coordinates = .other
  · rw [hsame hnone, hsame hnone, hsame hnone]
  · rw [not_or] at hnone
    obtain ⟨hall, hother⟩ := hnone
    have hfirst : Right P (onModelRotate standing s coordinates a) _ _ := right_rotate hinv ha hall hother
    have hsecond : Right P (onModelRotate standing _ coordinates b) _ _ := right_rotate hfirst.inv hb hall hother
    -- the condition of a rotation does not depend on its angle
    have hsingle : Right P (onModelRotate standing s coordinates b) (target s coordinates b) s.mesh.scale :=
      right_rotate hinv (by cases coordinates <;> exact ha) hall hother
    rw [hsecond.exported, hsingle.exported, target_again hb hall hother, hfirst.pose.scale]

theorem inv_initial (P : Exchange) (position : Vector3) : Inv P (initial position) := by
  refine ⟨⟨rfl, twist_zero.symm, rfl, rfl, ?_, ?_, rfl⟩, ⟨rfl, Or.inl ⟨rfl, rfl, Or.inl rfl⟩⟩, fun _ => rfl, ?_⟩
  · exact setFromMatrixScale_compose _ _ _
  · exact setFromMatrixScale_compose _ _ _
  · rintro (_ | _ | _ | _) -
    · exact ⟨rfl, rfl⟩
    · exact ⟨rfl, rfl⟩
    · exact ⟨rfl, rfl⟩
    · trivial

theorem stepsMeet_append {before after : List Call} (h : StepsMeet standing P s (before ++ after)) :
    StepsMeet standing P s before ∧ StepsMeet standing P (run standing s before) after := by
  induction before generalizing s with
  | nil => exact ⟨trivial, h⟩
  | cons call before ih =>
    obtain ⟨hcall, hrest⟩ := h
    obtain ⟨hbefore, hafter⟩ := ih hrest
    exact ⟨⟨hcall, hbefore⟩, hafter⟩

/-- **A run** whose calls meet their conditions. -/
theorem run_agrees {calls : List Call} (hinv : Inv P s) (hagrees : s.tempMatrix ≠ none → Agrees s P)
    (h : StepsMeet standing P s calls) :
    Inv P (run standing s calls) ∧ ((run standing s calls).tempMatrix ≠ none → Agrees (run standing s calls) P) ∧
      (calls ≠ [] → Agrees (run standing s calls) P) := by
  induction calls generalizing s with
  | nil => exact ⟨hinv, hagrees, fun hne => absurd rfl hne⟩
  | cons call calls ih =>
    obtain ⟨hcall, hrest⟩ := h
    obtain ⟨hstep, hstepAgrees⟩ : Inv P (step standing s call) ∧ Agrees (step standing s call) P :=
      step_agrees hinv hagrees hcall
    obtain ⟨hlast, htemp, hne⟩ := ih hstep (fun _ => hstepAgrees) hrest
    refine ⟨hlast, htemp, fun _ => ?_⟩
    cases calls with
    | nil => exact hstepAgrees
    | cons next calls => exact hne (List.cons_ne_nil _ _)

/-- **The exported matrix.**  In a run whose calls all meet their conditions for an exchange `P`, what is exported is
what is shown, in the coordinates that `P` gives; after a reset this is the identity, and of two rotations about one
axis the second one counts. -/
theorem exports_of_stepsMeet (standing : Standing) (position : Vector3) (P : Exchange) {calls : List Call}
    (hne : calls ≠ []) (h : StepsMeet standing P (initial position) calls) :
    Exports standing (initial position) P calls := by
  have hinitial : (initial position).tempMatrix ≠ none → Agrees (initial position) P := fun htemp => absurd rfl htemp
  refine ⟨(run_agrees (inv_initial P position) hinitial h).2.2 hne, fun hlast => ?_, ?_⟩
  · obtain ⟨before, rfl⟩ := List.getLast?_eq_some_iff.mp hlast
    obtain ⟨hbefore, hreset, -⟩ := stepsMeet_append h
    have hinv := (run_agrees (inv_initial P position) hinitial hbefore).1
    have hright : Right P (State.onResetModel _ standing) 0 1 := right_reset hinv hreset
    rw [run, List.foldl_append]
    change exported (State.onResetModel (run standing (initial position) before) standing) = some 1
    rw [hright.exported, tLinear_zero_transpose, tLinear, twist_zero, euler_zero, scaling_one, Matrix.one_mul]
  · rintro before c a b rfl
    obtain ⟨hbefore, ha, hb, -⟩ := stepsMeet_append h
    have hinv := (run_agrees (inv_initial P position) hinitial hbefore).1
    rw [run, run, List.foldl_append, List.foldl_append]
    exact exported_again hinv ha hb

/-- Two rotations about the z axis and a scaling. -/
theorem exports_turn_and_scale : Exports ⟨fun _ => 0, fun _ => 0⟩ (initial 0) ⟨1, 1, Or.inl rfl, Or.inl rfl⟩
    [.rotate .z 30, .rotate .z 90, .scale .all 150 (3 / 2)] := by
  refine exports_of_stepsMeet _ _ _ (List.cons_ne_nil _ _) ⟨Or.inl ⟨rfl, ?_, rfl⟩, Or.inl ⟨rfl, ?_, rfl⟩, ?_, trivial⟩
  · exact fun other hother => absurd hother List.not_mem_nil
  · exact fun other hother => List.mem_singleton.mp hother
  · exact Or.inr (Or.inl rfl)

/-- After a rotation by 90 degrees and a reset the rotation is still handed out. -/
theorem rotation_survives_reset : ¬∀ (standing : Standing) (position : Vector3), ∃ P : Exchange, ∀ calls : List Call,
    calls ≠ [] → Exports standing (initial position) P calls := by
  intro h
  obtain ⟨P, hP⟩ := h ⟨fun _ => 0, fun _ => 0⟩ 0
  have hreset := (hP [.rotate .x 90, .reset] (List.cons_ne_nil _ _)).reset rfl
  have htemp : (run ⟨fun _ => 0, fun _ => 0⟩ (initial 0) [.rotate .x 90, .reset]).tempMatrix =
      some (makeRotationX (degToRad (-90))) := rfl
  rw [exported_every (Or.inl rfl) htemp, linear_makeRotationX, Option.some.injEq] at hreset
  have hentry := congrFun (congrFun hreset 1) 1
  have hangle : degToRad (-90) = -(Real.pi / 2) := by
    unfold degToRad
    ring
  have hcos : rotX (-(Real.pi / 2)) 1 1 = 0 := by simp [rotX]
  rw [hangle, hcos, Matrix.one_apply_eq] at hentry
  exact zero_ne_one hentry

end

end Cxsw.Transform
