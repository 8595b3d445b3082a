import Cxsw.Lib.AxisRotation
import Mathlib.Data.Matrix.Block

/-!
# Cxsw.Viewer.ModelTransform — the exported matrix (`3d-lib/src/managers/InteractionManager.ts`)

`onModelRotate`, `onModelScale` and `onResetModel` move the mesh group that is shown; next to it they keep a second
group `_tGroup`, in the coordinates of the exported file, and in `userData.tempMatrix` the matrix that
`getModelMatrixWorld` hands out.  The numbers are real numbers; the operations of `Object3D` and `Matrix4` are those of
revision 123.

* `Pose`: the two groups stand for one pose, and their matrices tell its scale.
* `conj_aligned`: the poses whose transposed matrix in `_tGroup` is the shown one with the y and z axes exchanged.
* `Outcome`: what a rotation or a scaling leaves, branch by branch.
-/

namespace Cxsw.Transform

open Matrix AxisRotation

noncomputable section

/-- A `Vector3`, and the angles of an `Euler` in the order `XYZ`. -/
@[ext] structure Vector3 where
  x : ℝ
  y : ℝ
  z : ℝ

instance : Zero Vector3 := ⟨⟨0, 0, 0⟩⟩
instance : One Vector3 := ⟨⟨1, 1, 1⟩⟩

abbrev Matrix4 := Matrix (Fin 3 ⊕ Unit) (Fin 3 ⊕ Unit) ℝ

/-- The linear part. -/
def linear (m : Matrix4) : Mat3 := m.toBlocks₁₁

def column (v : Vector3) : Matrix (Fin 3) Unit ℝ := of fun i _ => ![v.x, v.y, v.z] i

def scaling (v : Vector3) : Mat3 := diagonal ![v.x, v.y, v.z]

def euler (r : Vector3) : Mat3 := rotX r.x * rotY r.y * rotZ r.z

def makeScale (x y z : ℝ) : Matrix4 := fromBlocks (scaling ⟨x, y, z⟩) 0 0 1

def makeRotationX (theta : ℝ) : Matrix4 := fromBlocks (rotX theta) 0 0 1

def makeRotationY (theta : ℝ) : Matrix4 := fromBlocks (rotY theta) 0 0 1

def makeRotationZ (theta : ℝ) : Matrix4 := fromBlocks (rotZ theta) 0 0 1

def compose (position rotation scale : Vector3) : Matrix4 :=
  fromBlocks (euler rotation * scaling scale) (column position) 0 1

def setFromMatrixScale (m : Matrix4) : Vector3 :=
  ⟨colLength (linear m) 0, colLength (linear m) 1, colLength (linear m) 2⟩

def setPosition (m : Matrix4) (v : Vector3) : Matrix4 := fromBlocks m.toBlocks₁₁ (column v) m.toBlocks₂₁ m.toBlocks₂₂

def degToRad (degrees : ℝ) : ℝ := degrees * (Real.pi / 180)

structure Object3D where
  position : Vector3
  rotation : Vector3
  scale : Vector3
  matrix : Matrix4

/-- What `updateMatrix` writes, and what every frame shows of an object whose `matrixAutoUpdate` is set. -/
def Object3D.composed (o : Object3D) : Matrix4 := compose o.position o.rotation o.scale

/-- A new `Group`, moved to `position`. -/
def group (position : Vector3) : Object3D := ⟨position, 0, 1, compose position 0 1⟩

/-- What is pushed on `_arrow`. -/
inductive Entry where
  | x
  | y
  | z
  | scaleFlag
  deriving DecidableEq

/-- `_roateData`. -/
structure RoateData where
  x : Option ℝ
  y : Option ℝ
  z : Option ℝ
  flag : Option Bool

/-- `Object.keys(this._roateData).length`. -/
def RoateData.keys (d : RoateData) : ℕ :=
  d.x.isSome.toNat + d.y.isSome.toNat + d.z.isSome.toNat + d.flag.isSome.toNat

/-- The two groups and the fields of the manager.  `tempMatrix` and `meshScaleMatrix` are in the `userData` of the mesh
group, `scaleMatrix` is in that of `_tGroup`.  With `shared` the two groups have one matrix, that of the mesh group. -/
structure State where
  mesh : Object3D
  tGroup : Object3D
  shared : Bool
  tempMatrix : Option Matrix4
  meshScaleMatrix : Option Matrix4
  scaleMatrix : Option Matrix4
  tenum : ℕ
  arrow : List Entry
  roateData : RoateData
  rotateFlagX : Bool
  rotateFlagY : Bool
  rotateFlagZ : Bool

/-- A model that has been loaded. -/
def initial (position : Vector3) : State where
  mesh := group position
  tGroup := group 0
  shared := false
  tempMatrix := none
  meshScaleMatrix := none
  scaleMatrix := none
  tenum := 0
  arrow := []
  roateData := ⟨none, none, none, none⟩
  rotateFlagX := false
  rotateFlagY := false
  rotateFlagZ := false

/-- The heights that the bounding boxes give, after a reset and after a rotation or scaling. -/
structure Standing where
  reset : Object3D → ℝ
  moved : Object3D → ℝ

namespace State

variable (s : State)

/-- `_tGroup.matrix`. -/
def tGroupMatrix : Matrix4 := if s.shared then s.mesh.matrix else s.tGroup.matrix

/-- `_meshGroup.updateMatrix()`, which writes into the matrix that is there; `expandByObject(_meshGroup)` does this too.
-/
def updateMesh : State := { s with mesh.matrix := s.mesh.composed }

/-- `_tGroup.updateMatrix()`. -/
def updateT : State := { s with
  mesh.matrix := if s.shared then s.tGroup.composed else s.mesh.matrix
  tGroup.matrix := if s.shared then s.tGroup.matrix else s.tGroup.composed }

/-- Another matrix for the mesh group; `_tGroup` keeps the one it has. -/
def setMeshMatrix (m : Matrix4) : State := { s with mesh.matrix := m, tGroup.matrix := s.tGroupMatrix, shared := false }

/-- Another matrix for `_tGroup`. -/
def setTMatrix (m : Matrix4) : State := { s with tGroup.matrix := m, shared := false }

/-- The copy of the mesh group that the first rotation or scaling makes; `clone` copies `userData` as JSON. -/
def cloneOnce : State :=
  if s.tenum = 0 then
    { s with tGroup := s.mesh, shared := false, scaleMatrix := s.meshScaleMatrix, tenum := s.tenum + 1 }
  else s

/-- `this._arrow.push(el)`. -/
def push (el : Entry) : State := { s with arrow := s.arrow ++ [el] }

/-- `_roateData` after an assignment to it. -/
def record (f : RoateData → RoateData) : State := { s with roateData := f s.roateData }

/-- `_meshGroup.rotation` after an assignment to it, with `updateMatrix`. -/
def turnMesh (f : Vector3 → Vector3) : State := { s with mesh.rotation := f s.mesh.rotation }.updateMesh

/-- `_tGroup.rotation` after an assignment to it, with `updateMatrix`. -/
def turnT (f : Vector3 → Vector3) : State := { s with tGroup.rotation := f s.tGroup.rotation }.updateT

/-- `_meshGroup.scale` after an assignment to it, with `updateMatrix`. -/
def sizeMesh (f : Vector3 → Vector3) : State := { s with mesh.scale := f s.mesh.scale }.updateMesh

/-- `_tGroup.scale` after an assignment to it, with `updateMatrix`. -/
def sizeT (f : Vector3 → Vector3) : State := { s with tGroup.scale := f s.tGroup.scale }.updateT

/-- The rotation flags, of which the given ones become `true`. -/
def raise (x y z : Bool) : State := { s with
  rotateFlagX := x || s.rotateFlagX
  rotateFlagY := y || s.rotateFlagY
  rotateFlagZ := z || s.rotateFlagZ }

/-- The matrix of `_tGroup` is kept. -/
def keepT : State := { s with tempMatrix := some s.tGroupMatrix }

/-- `this._arrow.every(el => el == this._arrow[0])`. -/
def every : Bool := s.arrow.all fun el => s.arrow.head? = some el

variable (standing : Standing)

/-- `onLocalResetModel`. -/
def onLocalResetModel : State :=
  let s := { s with
    mesh.rotation := 0, tGroup.rotation := 0, rotateFlagX := false, rotateFlagY := false, rotateFlagZ := false }
  let s := { s with mesh.position.y := 0, tGroup.position.y := 0 }.updateMesh
  let y := standing.reset s.mesh
  { s with mesh.position.y := y, tGroup.position.y := y }.updateMesh.updateT

/-- `onResetModel`, which writes `_roateData.x`, `.y` and `.flag` before it makes `_roateData` empty. -/
def onResetModel : State :=
  let s := { s with arrow := [], roateData := ⟨none, none, none, none⟩ }
  let s := { s with mesh.rotation := 0, tGroup.rotation := 0, mesh.scale := 1, tGroup.scale := 1 }
  let s := { s with rotateFlagX := false, rotateFlagY := false, rotateFlagZ := false }
  let s := { s with mesh.position.y := 0, tGroup.position.y := 0 }.updateMesh
  let y := standing.reset s.mesh
  { s with mesh.position.y := y, tGroup.position.y := y }.updateMesh.updateT

/-- The part of `onSetModelRotate` for `_roateData.x`. -/
def setRotateX : State :=
  match s.roateData.x with
  | none => s
  | some x => ((s.turnMesh fun r => { r with x := degToRad x }).turnT fun r => { r with x := degToRad x }).keepT

/-- The part of `onSetModelRotate` for `_roateData.y`. -/
def setRotateY : State :=
  match s.roateData.y with
  | none => s
  | some y => ((s.turnMesh fun r => { r with y := degToRad (-y) }).turnT fun r => { r with z := degToRad (-y) }).keepT

/-- The part of `onSetModelRotate` for `_roateData.z`. -/
def setRotateZ : State :=
  match s.roateData.z with
  | none => s
  | some z =>
    let useDegree := match s.roateData.y with
      | none => z
      | some y => if y = 90 then 100 else y
    ((s.turnMesh fun r => { r with y := degToRad (180 - useDegree) }).turnT fun r =>
      { r with z := degToRad (180 - useDegree) }).keepT

/-- `onSetModelRotate`. -/
def onSetModelRotate : State :=
  let s := s.onLocalResetModel standing
  if s.roateData.flag = some false then s else s.setRotateX.setRotateY.setRotateZ

/-- `tMatrix`, a rotation that has just been made, times `userData.scaleMatrix` of the mesh group. -/
def rotated (tMatrix : Matrix4) : State :=
  match s.meshScaleMatrix with
  | none => { s with tempMatrix := some tMatrix }
  | some scaleMatrix => { s with tempMatrix := some (tMatrix * scaleMatrix) }

/-- `userData.scaleMatrix` of `_tGroup`, which `multiply` changes, times the matrix of `_tGroup`. -/
def rotatedT : State :=
  match s.scaleMatrix with
  | none => s.keepT
  | some scaleMatrix =>
    { s with scaleMatrix := some (scaleMatrix * s.tGroupMatrix), tempMatrix := some (scaleMatrix * s.tGroupMatrix) }

/-- `case 'x'` of `onModelRotate`. -/
def rotateX (useDegree : ℝ) : State :=
  let s := (s.push .x).record fun d => { d with x := some useDegree }
  let flagx := s.every
  let s :=
    if flagx then
      let s := (s.turnMesh fun r => { r with x := degToRad useDegree }).raise false true true
      let s := s.turnT fun r => { r with x := degToRad useDegree }
      s.rotated (makeRotationX (degToRad (-useDegree)))
    else
      let s := s.turnMesh fun r => { r with x := degToRad (-useDegree) }
      let s := s.turnT fun r => { r with x := degToRad (-useDegree) }
      (s.raise false true true).keepT
  if flagx = false ∧ s.roateData.keys = 3 ∨ 2 < s.arrow.length then
    (s.record fun d => { d with flag := some true }).onSetModelRotate standing
  else s

/-- `case 'y'` of `onModelRotate`; `flagx` is `undefined` here. -/
def rotateY (useDegree : ℝ) : State :=
  let s := (s.push .y).record fun d => { d with y := some useDegree }
  if s.every then
    let s := (s.turnMesh fun r => { r with z := degToRad (-useDegree) }).raise true true false
    let s := s.turnT fun r => { r with y := degToRad useDegree }
    s.rotated (makeRotationY (degToRad (-useDegree)))
  else if s.arrow.length = 2 ∧ s.arrow.head? = some Entry.x then
    let s := s.turnMesh fun r => { r with z := degToRad (-useDegree) }
    let s := s.turnT fun r => { r with y := degToRad useDegree }
    s.rotatedT
  else if s.arrow.length = 2 ∧ s.arrow.head? = some Entry.z then
    let s := s.turnMesh fun r => { r with y := degToRad useDegree }
    let s := s.turnT fun r => { r with z := degToRad useDegree }
    s.rotatedT
  else if s.roateData.keys = 3 ∨ 2 < s.arrow.length then
    (s.record fun d => { d with flag := some true }).onSetModelRotate standing
  else s

/-- `case 'z'` of `onModelRotate`; `flagx` is `undefined` here, and the third rotation writes `_roateData.y`. -/
def rotateZ (useDegree : ℝ) : State :=
  let s := (s.push .z).record fun d => { d with z := some useDegree }
  if s.every then
    let s := (s.turnMesh fun r => { r with y := degToRad (-useDegree) }).raise true false true
    let s := s.turnT fun r => { r with z := degToRad (-useDegree) }
    s.rotated (makeRotationZ (degToRad useDegree))
  else if s.arrow.length = 2 ∧ s.arrow.head? = some Entry.x then
    let s := s.turnMesh fun r => { r with y := degToRad useDegree }
    let s := s.turnT fun r => { r with z := degToRad useDegree }
    s.rotatedT
  else if s.arrow.length = 2 ∧ s.arrow.head? = some Entry.y then
    let s := s.turnMesh fun r => { r with z := degToRad (-useDegree) }
    let s := s.turnT fun r => { r with y := degToRad useDegree }
    s.rotatedT
  else if s.roateData.keys = 3 ∨ 2 < s.arrow.length then
    (s.record fun d => { d with y := some useDegree, flag := some true }).onSetModelRotate standing
  else s

/-- The end of `onModelRotate` and of a scaling: the sizes are measured, and the mesh group is put on the plate. -/
def getTransformModelData : State :=
  let s := s.updateMesh
  { s with mesh.position.y := standing.moved s.mesh }

/-- `scaleMatrix`, times the matrix of the mesh group, becomes its matrix, and the scale is read off it. -/
def stretchMesh (scaleMatrix : Matrix4) : State :=
  let s := s.setMeshMatrix (scaleMatrix * s.mesh.matrix)
  { s with mesh.scale := setFromMatrixScale s.mesh.matrix }

/-- The same for `_tGroup`. -/
def stretchT (scaleMatrix : Matrix4) : State :=
  let s := s.setTMatrix (scaleMatrix * s.tGroupMatrix)
  { s with tGroup.scale := setFromMatrixScale s.tGroupMatrix }

def keepTransposed : State := { s with tempMatrix := some s.tGroupMatrixᵀ, scaleMatrix := some s.tGroupMatrixᵀ }

/-- The matrix of `_tGroup` is kept as it is only where nothing has been rotated. -/
def keep : State :=
  if s.arrow.length = 0 then { s with tempMatrix := some s.tGroupMatrix, scaleMatrix := some s.tGroupMatrix }
  else s.keepTransposed

/-- `case 'x'` of `onModelScale`. -/
def scaleX (percentage equalRatioValue : ℝ) : State :=
  let scaleMatrix := makeScale equalRatioValue 1 1
  if s.rotateFlagX then
    ((s.stretchMesh scaleMatrix).updateMesh.stretchT scaleMatrix).updateT.keepTransposed.push .scaleFlag
  else
    ((s.sizeMesh fun v => { v with x := percentage }).sizeT fun v => { v with x := percentage }).keep

/-- `case 'z'` of `onModelScale`. -/
def scaleZ (percentage equalRatioValue : ℝ) : State :=
  let scaleMatrix := makeScale 1 equalRatioValue 1
  if s.rotateFlagY then
    ((s.stretchMesh scaleMatrix).updateMesh.stretchT scaleMatrix).updateT.keepTransposed.push .scaleFlag
  else
    ((s.sizeMesh fun v => { v with y := percentage }).sizeT fun v => { v with y := percentage }).keep

/-- `case 'y'` of `onModelScale`, which does not update the matrix of a rotated mesh group. -/
def scaleY (percentage equalRatioValue : ℝ) : State :=
  let scaleMatrix := makeScale 1 1 equalRatioValue
  if s.rotateFlagZ then
    ((s.stretchMesh scaleMatrix).stretchT scaleMatrix).updateT.keepTransposed.push .scaleFlag
  else
    ((s.sizeMesh fun v => { v with z := percentage }).sizeT fun v => { v with z := percentage }).keep

/-- `case 'all'` of `onModelScale`; where nothing is rotated, `_tGroup` gets the matrix of the mesh group. -/
def scaleAll (equalRatioValue : ℝ) : State :=
  let scaleMatrix := makeScale equalRatioValue equalRatioValue equalRatioValue
  if s.rotateFlagX || s.rotateFlagY || s.rotateFlagZ then
    ((s.stretchMesh scaleMatrix).updateMesh.stretchT scaleMatrix).updateT.keepTransposed.push .scaleFlag
  else
    let s : State := { (s.stretchMesh scaleMatrix).updateMesh with shared := true }
    (s.sizeT fun _ => setFromMatrixScale s.tGroupMatrix).keep

/-- The flags are taken back where the mesh group is not rotated. -/
def checkFlags : State :=
  if s.mesh.rotation.x = 0 ∧ s.mesh.rotation.y = 0 ∧ s.mesh.rotation.z = 0 then
    { s with rotateFlagX := false, rotateFlagY := false, rotateFlagZ := false }
  else s

/-- `getModelMatrixWorld`; `none` where `tempMatrix` is `undefined`, whose `clone` cannot be called. -/
def getModelMatrixWorld : Option (Matrix4 × State) :=
  if s.every || s.arrow.getLast? = some Entry.scaleFlag then
    s.tempMatrix.map fun elementData => (setPosition elementData 0, s.updateT)
  else s.tempMatrix.map fun elementData => ((setPosition elementData 0)ᵀ, s)

end State

/-- The strings that `coordinates` is compared with; `other` is any other string. -/
inductive Coordinates where
  | x
  | y
  | z
  | all
  | other

variable (standing : Standing) (s : State)

/-- `onModelRotate`. -/
def onModelRotate (coordinates : Coordinates) (useDegree : ℝ) : State :=
  let s := s.cloneOnce
  let s := match coordinates with
    | .x => s.rotateX standing useDegree
    | .y => s.rotateY standing useDegree
    | .z => s.rotateZ standing useDegree
    | .all | .other => s
  s.getTransformModelData standing

/-- `onModelScale`. -/
def onModelScale (coordinates : Coordinates) (percentage equalRatioValue : ℝ) : State :=
  let s := s.checkFlags.cloneOnce
  match coordinates with
  | .x => (s.scaleX percentage equalRatioValue).getTransformModelData standing
  | .y => (s.scaleY percentage equalRatioValue).getTransformModelData standing
  | .z => (s.scaleZ percentage equalRatioValue).getTransformModelData standing
  | .all => (s.scaleAll equalRatioValue).getTransformModelData standing
  | .other => s

/-- The calls. -/
inductive Call where
  | rotate (coordinates : Coordinates) (degree : ℝ)
  | scale (coordinates : Coordinates) (percentage equalRatioValue : ℝ)
  | reset

def step : Call → State
  | .rotate coordinates degree => onModelRotate standing s coordinates degree
  | .scale coordinates percentage equalRatioValue => onModelScale standing s coordinates percentage equalRatioValue
  | .reset => s.onResetModel standing

def run (calls : List Call) : State := calls.foldl (step standing) s

/-- The linear part of what `getModelMatrixWorld` returns. -/
def exported : Option Mat3 := s.getModelMatrixWorld.map fun result => linear result.1

/-- The linear part of what is shown. -/
def displayed : Mat3 := linear s.mesh.composed

/-! ### Matrices -/

@[simp] theorem linear_compose (position rotation scale : Vector3) :
    linear (compose position rotation scale) = euler rotation * scaling scale := rfl

@[simp] theorem linear_transpose (m : Matrix4) : linear mᵀ = (linear m)ᵀ := rfl

@[simp] theorem linear_setPosition (m : Matrix4) (v : Vector3) : linear (setPosition m v) = linear m := rfl

theorem linear_mul_compose (m : Matrix4) (position rotation scale : Vector3) :
    linear (m * compose position rotation scale) = linear m * (euler rotation * scaling scale) := by
  conv_lhs => rw [← fromBlocks_toBlocks m, compose, fromBlocks_multiply]
  rw [linear, toBlocks_fromBlocks₁₁, Matrix.mul_zero, add_zero]
  rfl

theorem linear_makeScale_mul (e : ℝ) (m : Matrix4) : linear (makeScale e e e * m) = e • linear m := by
  conv_lhs => rw [← fromBlocks_toBlocks m, makeScale, fromBlocks_multiply]
  rw [linear, toBlocks_fromBlocks₁₁, Matrix.zero_mul, add_zero]
  ext i j
  fin_cases i <;> simp [scaling, linear, Matrix.diagonal_mul]

@[simp] theorem euler_zero : euler 0 = 1 := by
  rw [euler]
  change rotX 0 * rotY 0 * rotZ 0 = 1
  simp

@[simp] theorem scaling_one : scaling 1 = 1 := by
  ext i j
  fin_cases i <;> fin_cases j <;> rfl

theorem scaling_transpose (v : Vector3) : (scaling v)ᵀ = scaling v := diagonal_transpose _

theorem euler_orthogonal (r : Vector3) : (euler r)ᵀ * euler r = 1 :=
  orthogonal_mul (orthogonal_mul (rotX_orthogonal _) (rotY_orthogonal _)) (rotZ_orthogonal _)

def Vector3.abs (v : Vector3) : Vector3 := ⟨|v.x|, |v.y|, |v.z|⟩

def Vector3.smul (e : ℝ) (v : Vector3) : Vector3 := ⟨e * v.x, e * v.y, e * v.z⟩

theorem setFromMatrixScale_compose (position rotation scale : Vector3) :
    setFromMatrixScale (compose position rotation scale) = scale.abs := by
  unfold setFromMatrixScale
  rw [linear_compose, scaling]
  simp only [colLength_mul_diagonal (euler_orthogonal rotation)]
  rfl

theorem setFromMatrixScale_makeScale (e : ℝ) (m : Matrix4) :
    setFromMatrixScale (makeScale e e e * m) = (setFromMatrixScale m).smul |e| := by
  simp only [setFromMatrixScale, linear_makeScale_mul, colLength_smul, Vector3.smul]

/-- The rotation of `_tGroup` that goes with one of the mesh group. -/
def twist (r : Vector3) : Vector3 := ⟨r.x, -r.z, r.y⟩

/-- Poses for which transposing the matrix of `_tGroup` does the exchange `P`: one about the x axis, with equal scales
on the exchanged axes, or one about the others, with equal scales on all axes. -/
def Aligned (P : Exchange) (r scale : Vector3) : Prop :=
  scale.y = scale.z ∧ (r.y = 0 ∧ r.z = 0 ∧ (r.x = 0 ∨ P.y = P.z) ∨
    r.x = 0 ∧ (r.y = 0 ∨ P.y = 1) ∧ (r.z = 0 ∨ P.z = -1) ∧ scale.x = scale.y)

theorem conj_aligned {P : Exchange} {r scale : Vector3} (h : Aligned P r scale) :
    P.conj (euler r * scaling scale) = (euler (twist r) * scaling scale)ᵀ := by
  obtain ⟨hyz, ⟨hy, hz, hx⟩ | ⟨hx, hy, hz, hxy⟩⟩ := h
  · have hconj : P.conj (rotX r.x) = rotX (-r.x) := by
      rw [Exchange.conj_rotX]
      rcases hx with hx | hx
      · rw [hx, mul_zero]
      · rw [hx, P.z_mul_z, one_mul]
    have hscale : scaling scale = diagonal ![scale.x, scale.z, scale.z] := by rw [scaling, hyz]
    calc P.conj (euler r * scaling scale) = rotX (-r.x) * diagonal ![scale.x, scale.z, scale.z] := by
          rw [euler, hy, hz, rotY_zero, rotZ_zero, Matrix.mul_one, Matrix.mul_one, Exchange.conj_mul, hconj, hscale,
            Exchange.conj_diagonal]
      _ = scaling scale * rotX (-r.x) := by rw [hscale, rotX_mul_diagonal]
      _ = (euler (twist r) * scaling scale)ᵀ := by
          rw [transpose_mul, scaling_transpose, euler, twist, hy, hz, neg_zero, rotY_zero, rotZ_zero, Matrix.mul_one,
            Matrix.mul_one, rotX_transpose]
  · have hconjY : P.conj (rotY r.y) = rotZ (-r.y) := by
      rw [Exchange.conj_rotY]
      rcases hy with hy | hy
      · rw [hy, mul_zero]
      · rw [hy, one_mul]
    have hconjZ : P.conj (rotZ r.z) = rotY r.z := by
      rw [Exchange.conj_rotZ]
      rcases hz with hz | hz
      · rw [hz, mul_zero, neg_zero]
      · rw [hz, neg_one_mul, neg_neg]
    have hscale : scaling scale = diagonal ![scale.z, scale.z, scale.z] := by rw [scaling, hxy, hyz]
    calc P.conj (euler r * scaling scale) = rotZ (-r.y) * rotY r.z * diagonal ![scale.z, scale.z, scale.z] := by
          rw [euler, hx, rotX_zero, Matrix.one_mul, Exchange.conj_mul, Exchange.conj_mul, hconjY, hconjZ, hscale,
            Exchange.conj_diagonal]
      _ = scaling scale * (rotZ (-r.y) * rotY r.z) := by rw [mul_diagonal_uniform, hscale]
      _ = (euler (twist r) * scaling scale)ᵀ := by
          rw [transpose_mul, scaling_transpose, euler, twist, hx, rotX_zero, Matrix.one_mul, transpose_mul,
            rotY_transpose, rotZ_transpose, neg_neg]

/-! ### Poses -/

/-- Only `el` has been pushed. -/
def Alone (el : Entry) : Prop := ∀ other ∈ s.arrow, other = el

variable {s} {r size : Vector3}

/-- The two groups stand for one pose, and their matrices tell its scale. -/
structure Pose (s : State) (r size : Vector3) : Prop where
  rotation : s.mesh.rotation = r
  twisted : s.tGroup.rotation = twist r
  scale : s.mesh.scale = size
  tScale : s.tGroup.scale = size
  meshMatrix : setFromMatrixScale s.mesh.matrix = size.abs
  tMatrix : setFromMatrixScale s.tGroupMatrix = size.abs
  unused : s.meshScaleMatrix = none

/-- A pose after a call that has kept `m`, with what has been pushed. -/
structure Outcome (s : State) (r size : Vector3) (m : Mat3) (arrow : List Entry) : Prop extends Pose s r size where
  temp : ∃ kept, s.tempMatrix = some kept ∧ linear kept = m
  arrow : s.arrow = arrow
  tenum : s.tenum ≠ 0

@[simp] theorem tGroupMatrix_updateT : s.updateT.tGroupMatrix = s.tGroup.composed := by
  unfold State.updateT State.tGroupMatrix
  cases s.shared <;> rfl

theorem tGroupMatrix_turnT (f : Vector3 → Vector3) : (s.turnT f).tGroupMatrix = (s.turnT f).tGroup.composed :=
  tGroupMatrix_updateT

theorem Pose.updateMesh (h : Pose s r size) : Pose s.updateMesh r size := by
  have hmesh : setFromMatrixScale s.mesh.composed = size.abs := by
    rw [Object3D.composed, setFromMatrixScale_compose, h.scale]
  refine { h with meshMatrix := hmesh, tMatrix := ?_ }
  have ht := h.tMatrix
  unfold State.tGroupMatrix at ht ⊢
  cases hshared : s.shared with
  | false => simpa [State.updateMesh, hshared] using ht
  | true => simpa [State.updateMesh, hshared] using hmesh

/-- After both updates the matrices tell the scale. -/
theorem Pose.of_updates (rotation : s.mesh.rotation = r) (twisted : s.tGroup.rotation = twist r)
    (hscale : s.mesh.scale = size) (tScale : s.tGroup.scale = size)
    (meshMatrix : setFromMatrixScale s.mesh.matrix = size.abs) (unused : s.meshScaleMatrix = none) :
    Pose s.updateT r size := by
  have ht : setFromMatrixScale s.tGroup.composed = size.abs := by
    rw [Object3D.composed, setFromMatrixScale_compose, tScale]
  refine ⟨rotation, twisted, hscale, tScale, ?_, by rwa [tGroupMatrix_updateT], unused⟩
  unfold State.updateT
  cases hshared : s.shared with
  | false => simpa [hshared] using meshMatrix
  | true => simpa [hshared] using ht

theorem Outcome.getTransformModelData {m : Mat3} {arrow : List Entry}
    (h : Outcome s r size m arrow) : Outcome (s.getTransformModelData standing) r size m arrow :=
  { Pose.updateMesh h.toPose with temp := h.temp, arrow := h.arrow, tenum := h.tenum }

theorem every_push {el : Entry} : (s.push el).every = true ↔ Alone s el := by
  unfold State.every State.push Alone
  cases harrow : s.arrow with
  | nil => simp
  | cons first rest =>
    simp only [List.cons_append, List.head?_cons, Option.some.injEq, List.all_cons, decide_true, Bool.true_and,
      List.all_append, List.all_nil, Bool.and_true, Bool.and_eq_true, List.all_eq_true, decide_eq_true_eq,
      List.forall_mem_cons]
    constructor
    · rintro ⟨hrest, rfl⟩
      exact ⟨rfl, fun other hother => (hrest other hother).symm⟩
    · rintro ⟨rfl, hrest⟩
      exact ⟨fun other hother => (hrest other hother).symm, rfl⟩

/-- The linear part that `_tGroup` has in a pose. -/
def tLinear (r size : Vector3) : Mat3 := euler (twist r) * scaling size

theorem exported_every {m : Matrix4} (hevery : s.every = true ∨ s.arrow.getLast? = some Entry.scaleFlag)
    (htemp : s.tempMatrix = some m) : exported s = some (linear m) := by
  have hif : (s.every || decide (s.arrow.getLast? = some Entry.scaleFlag)) = true := by
    rcases hevery with h | h <;> simp [h]
  rw [exported, State.getModelMatrixWorld, if_pos hif, htemp]
  rfl

theorem exported_transposed {m : Matrix4} (hevery : s.every = false)
    (hlast : s.arrow.getLast? ≠ some Entry.scaleFlag) (htemp : s.tempMatrix = some m) :
    exported s = some (linear m)ᵀ := by
  have hif : ¬(s.every || decide (s.arrow.getLast? = some Entry.scaleFlag)) = true := by simp [hevery, hlast]
  rw [exported, State.getModelMatrixWorld, if_neg hif, htemp]
  rfl

variable {standing}

theorem twist_zero : twist 0 = 0 := by
  change (⟨0, -0, 0⟩ : Vector3) = ⟨0, 0, 0⟩
  rw [neg_zero]

theorem Pose.cloneOnce (h : Pose s r size) (hfresh : s.tenum = 0 → r = 0) :
    Pose s.cloneOnce r size := by
  unfold State.cloneOnce
  split_ifs with htenum
  · refine { h with twisted := ?_, tScale := h.scale, tMatrix := h.meshMatrix }
    change s.mesh.rotation = twist r
    rw [h.rotation, hfresh htenum, twist_zero]
  · exact h

theorem tenum_cloneOnce : s.cloneOnce.tenum ≠ 0 := by
  unfold State.cloneOnce
  split_ifs with htenum
  · exact Nat.succ_ne_zero _
  · exact htenum

theorem rotated_unused (hunused : s.meshScaleMatrix = none) (m : Matrix4) :
    s.rotated m = { s with tempMatrix := some m } := by
  unfold State.rotated
  split
  · rfl
  · next hsome => rw [hunused] at hsome; cases hsome

@[simp] theorem arrow_rotated (m : Matrix4) : (s.rotated m).arrow = s.arrow := by
  unfold State.rotated
  split <;> rfl

theorem Pose.rotated (h : Pose s r size) (htenum : s.tenum ≠ 0) (m : Matrix4) :
    Outcome (s.rotated m) r size (linear m) s.arrow := by
  rw [rotated_unused h.unused]
  exact { h with temp := ⟨m, rfl, rfl⟩, arrow := rfl, tenum := htenum }

theorem Pose.raise (h : Pose s r size) (x y z : Bool) : Pose (s.raise x y z) r size := { h with }

theorem raise_turnT (x y z : Bool) (f : Vector3 → Vector3) : (s.raise x y z).turnT f = (s.turnT f).raise x y z := rfl

/-- Both groups are turned. -/
theorem Pose.turn (h : Pose s r size) {f g : Vector3 → Vector3} {r' : Vector3} (hf : f r = r')
    (hg : g (twist r) = twist r') : Pose ((s.turnMesh f).turnT g) r' size := by
  refine Pose.of_updates (s := { s.turnMesh f with tGroup.rotation := g s.tGroup.rotation }) ?_ ?_ h.scale h.tScale ?_
    h.unused
  · rw [← hf, ← h.rotation]
    rfl
  · rw [← hg, ← h.twisted]
  · rw [← h.scale]
    exact setFromMatrixScale_compose _ _ _

theorem Pose.recorded (h : Pose s r size) (el : Entry) (f : RoateData → RoateData) :
    Pose ((s.push el).record f) r size := { h with }

theorem rotateX_alone (h : Pose s r size) (htenum : s.tenum ≠ 0) (halone : Alone s .x)
    (hlength : s.arrow.length < 2) (hy : r.y = 0) (hz : r.z = 0) (d : ℝ) :
    Outcome (s.rotateX standing d) ⟨degToRad d, 0, 0⟩ size (linear (makeRotationX (degToRad (-d))))
      (s.arrow ++ [.x]) := by
  have hevery : ((s.push .x).record fun data => { data with x := some d }).every = true := every_push.mpr halone
  unfold State.rotateX
  simp only [hevery, if_true, raise_turnT]
  rw [if_neg]
  · refine Pose.rotated (((h.recorded .x _).turn ?_ ?_).raise false true true) htenum _
    · rw [hy, hz]
    · rw [twist, twist, hy, hz]
  · rintro (⟨hfalse, -⟩ | hlong)
    · cases hfalse
    · rw [arrow_rotated] at hlong
      change 2 < (s.arrow ++ [Entry.x]).length at hlong
      rw [List.length_append, List.length_singleton] at hlong
      omega

theorem rotateY_alone (h : Pose s r size) (htenum : s.tenum ≠ 0) (halone : Alone s .y)
    (hx : r.x = 0) (hy : r.y = 0) (d : ℝ) :
    Outcome (s.rotateY standing d) ⟨0, 0, degToRad (-d)⟩ size (linear (makeRotationY (degToRad (-d))))
      (s.arrow ++ [.y]) := by
  have hevery : ((s.push .y).record fun data => { data with y := some d }).every = true := every_push.mpr halone
  unfold State.rotateY
  simp only [hevery, if_true, raise_turnT]
  refine Pose.rotated (((h.recorded .y _).turn ?_ ?_).raise true true false) htenum _
  · rw [hx, hy]
  · rw [twist, twist, hx, hy, degToRad, degToRad, neg_mul, neg_neg]

theorem rotateZ_alone (h : Pose s r size) (htenum : s.tenum ≠ 0) (halone : Alone s .z)
    (hx : r.x = 0) (hz : r.z = 0) (d : ℝ) :
    Outcome (s.rotateZ standing d) ⟨0, degToRad (-d), 0⟩ size (linear (makeRotationZ (degToRad d)))
      (s.arrow ++ [.z]) := by
  have hevery : ((s.push .z).record fun data => { data with z := some d }).every = true := every_push.mpr halone
  unfold State.rotateZ
  simp only [hevery, if_true, raise_turnT]
  refine Pose.rotated (((h.recorded .z _).turn ?_ ?_).raise true false true) htenum _
  · rw [hx, hz]
  · rw [twist, twist, hx, hz]

theorem Pose.onLocalResetModel (h : Pose s r size) :
    Pose (s.onLocalResetModel standing) 0 size := by
  refine Pose.of_updates rfl ?_ h.scale h.tScale ?_ h.unused
  · exact twist_zero.symm
  · rw [← h.scale]
    exact setFromMatrixScale_compose _ _ _

/-- A turn of both groups after which the matrix of `_tGroup` is kept. -/
theorem Pose.turn_keepT (h : Pose s r size) (htenum : s.tenum ≠ 0) {f g : Vector3 → Vector3}
    {r' : Vector3} (hf : f r = r') (hg : g (twist r) = twist r') :
    Outcome ((s.turnMesh f).turnT g).keepT r' size (tLinear r' size) s.arrow := by
  have hpose := h.turn hf hg
  refine { hpose with temp := ⟨_, rfl, ?_⟩, arrow := rfl, tenum := htenum }
  rw [tGroupMatrix_turnT, Object3D.composed, linear_compose, hpose.twisted, hpose.tScale, tLinear]

@[simp] theorem roateData_setRotateX : s.setRotateX.roateData = s.roateData := by
  unfold State.setRotateX
  split <;> rfl

@[simp] theorem roateData_setRotateY : s.setRotateY.roateData = s.roateData := by
  unfold State.setRotateY
  split <;> rfl

theorem Pose.setRotateX (h : Pose s r size) (htenum : s.tenum ≠ 0) {x : ℝ}
    (hx : s.roateData.x = some x) :
    Outcome s.setRotateX { r with x := degToRad x } size (tLinear { r with x := degToRad x } size) s.arrow := by
  unfold State.setRotateX
  simp only [hx]
  exact h.turn_keepT htenum rfl rfl

theorem Pose.setRotateY (h : Pose s r size) (htenum : s.tenum ≠ 0) {y : ℝ}
    (hy : s.roateData.y = some y) :
    Outcome s.setRotateY { r with y := degToRad (-y) } size (tLinear { r with y := degToRad (-y) } size) s.arrow := by
  unfold State.setRotateY
  simp only [hy]
  exact h.turn_keepT htenum rfl rfl

theorem Outcome.setRotateY {arrow : List Entry} (h : Outcome s r size (tLinear r size) arrow) :
    Outcome s.setRotateY { r with y := s.roateData.y.elim r.y fun y => degToRad (-y) } size
      (tLinear { r with y := s.roateData.y.elim r.y fun y => degToRad (-y) } size) arrow := by
  cases hy : s.roateData.y with
  | none =>
    unfold State.setRotateY
    simp only [hy]
    exact h
  | some y => exact h.arrow ▸ h.toPose.setRotateY h.tenum hy

/-- What the rotation about z makes of the angle about the y axis of the shown group. -/
def turnedZ (data : RoateData) (before : ℝ) : ℝ :=
  match data.z with
  | none => before
  | some z => degToRad (180 - match data.y with
    | none => z
    | some y => if y = 90 then 100 else y)

theorem Outcome.setRotateZ {arrow : List Entry} (h : Outcome s r size (tLinear r size) arrow) :
    Outcome s.setRotateZ { r with y := turnedZ s.roateData r.y } size
      (tLinear { r with y := turnedZ s.roateData r.y } size) arrow := by
  unfold State.setRotateZ turnedZ
  cases hz : s.roateData.z with
  | none => exact h
  | some z => exact h.arrow ▸ h.toPose.turn_keepT h.tenum rfl rfl

/-- The rotation that `onSetModelRotate` gives. -/
def turned (data : RoateData) : Vector3 :=
  ⟨data.x.elim 0 degToRad, turnedZ data (data.y.elim 0 fun y => degToRad (-y)), 0⟩

theorem Pose.onSetModelRotate (h : Pose s r size) (htenum : s.tenum ≠ 0)
    (hflag : s.roateData.flag = some true) (hsome : s.roateData.x ≠ none ∨ s.roateData.y ≠ none) :
    Outcome (s.onSetModelRotate standing) (turned s.roateData) size (tLinear (turned s.roateData) size) s.arrow := by
  have hlocal : Pose (s.onLocalResetModel standing) 0 size := h.onLocalResetModel
  have htenum' : (s.onLocalResetModel standing).tenum ≠ 0 := htenum
  have hdata : (s.onLocalResetModel standing).roateData = s.roateData := rfl
  have harrow : (s.onLocalResetModel standing).arrow = s.arrow := rfl
  unfold State.onSetModelRotate
  simp only [hdata, hflag, Option.some.injEq, Bool.true_eq_false, if_false]
  generalize s.onLocalResetModel standing = l at hlocal htenum' hdata harrow
  rw [← hdata, ← harrow]
  rw [← hdata] at hsome
  cases hx : l.roateData.x with
  | none =>
    obtain ⟨y, hy⟩ := Option.ne_none_iff_exists'.mp (hsome.resolve_left (fun hne => hne hx))
    have hX : l.setRotateX = l := by
      unfold State.setRotateX
      simp only [hx]
    have hout := (hlocal.setRotateY htenum' hy).setRotateZ
    rw [roateData_setRotateY] at hout
    rw [hX, turned, hx, hy]
    exact hout
  | some x =>
    have hout := (hlocal.setRotateX htenum' hx).setRotateY.setRotateZ
    rw [roateData_setRotateY, roateData_setRotateX] at hout
    rw [turned, hx]
    exact hout

theorem not_every_push {el : Entry} (h : ¬Alone s el) : (s.push el).every = false := by
  rw [← Bool.not_eq_true, every_push]
  exact h

theorem two_lt_push {el : Entry} (h : 2 ≤ s.arrow.length) : 2 < (s.arrow ++ [el]).length := by
  rw [List.length_append, List.length_singleton]
  omega

theorem rotateX_mixed (h : Pose s r size) (htenum : s.tenum ≠ 0) (hmixed : ¬Alone s .x)
    (hlength : 2 ≤ s.arrow.length) (d : ℝ) :
    Outcome (s.rotateX standing d) (turned { s.roateData with x := some d }) size
      (tLinear (turned { s.roateData with x := some d }) size) (s.arrow ++ [.x]) := by
  have hevery : ((s.push .x).record fun data => { data with x := some d }).every = false := not_every_push hmixed
  have hlong : 2 < (s.arrow ++ [Entry.x]).length := two_lt_push hlength
  unfold State.rotateX
  simp only [hevery, Bool.false_eq_true, if_false]
  rw [if_pos]
  · have hpose := ((h.recorded .x fun data => { data with x := some d }).turn
      (f := fun r => { r with x := degToRad (-d) }) (g := fun r => { r with x := degToRad (-d) }) rfl rfl).raise
      false true true
    exact Pose.onSetModelRotate { hpose with } htenum rfl (Or.inl (Option.some_ne_none d))
  · exact Or.inr hlong

theorem rotateY_mixed (h : Pose s r size) (htenum : s.tenum ≠ 0) (hmixed : ¬Alone s .y)
    (hlength : 2 ≤ s.arrow.length) (d : ℝ) :
    Outcome (s.rotateY standing d) (turned { s.roateData with y := some d }) size
      (tLinear (turned { s.roateData with y := some d }) size) (s.arrow ++ [.y]) := by
  have hevery : ((s.push .y).record fun data => { data with y := some d }).every = false := not_every_push hmixed
  have hlong : 2 < (s.arrow ++ [Entry.y]).length := two_lt_push hlength
  unfold State.rotateY
  simp only [hevery, Bool.false_eq_true, if_false]
  rw [if_neg fun htwo => hlong.ne' htwo.1, if_neg fun htwo => hlong.ne' htwo.1, if_pos]
  · exact Pose.onSetModelRotate { h with } htenum rfl (Or.inr (Option.some_ne_none d))
  · exact Or.inr hlong

theorem rotateZ_mixed (h : Pose s r size) (htenum : s.tenum ≠ 0) (hmixed : ¬Alone s .z)
    (hlength : 2 ≤ s.arrow.length) (d : ℝ) :
    Outcome (s.rotateZ standing d) (turned { s.roateData with y := some d, z := some d }) size
      (tLinear (turned { s.roateData with y := some d, z := some d }) size) (s.arrow ++ [.z]) := by
  have hevery : ((s.push .z).record fun data => { data with z := some d }).every = false := not_every_push hmixed
  have hlong : 2 < (s.arrow ++ [Entry.z]).length := two_lt_push hlength
  unfold State.rotateZ
  simp only [hevery, Bool.false_eq_true, if_false]
  rw [if_neg fun htwo => hlong.ne' htwo.1, if_neg fun htwo => hlong.ne' htwo.1, if_pos]
  · exact Pose.onSetModelRotate { h with } htenum rfl (Or.inr (Option.some_ne_none d))
  · exact Or.inr hlong

/-- A turn of both groups after which the matrix of `_tGroup` is kept, where `scaleMatrix` changes nothing. -/
theorem Pose.turn_rotatedT (h : Pose s r size) (htenum : s.tenum ≠ 0)
    (hone : ∀ m ∈ s.scaleMatrix, linear m = 1) {f g : Vector3 → Vector3} {r' : Vector3} (hf : f r = r')
    (hg : g (twist r) = twist r') :
    Outcome ((s.turnMesh f).turnT g).rotatedT r' size (tLinear r' size) s.arrow := by
  have hkept := h.turn_keepT htenum hf hg
  have hscaleMatrix : ((s.turnMesh f).turnT g).scaleMatrix = s.scaleMatrix := rfl
  obtain ⟨m, hm, hlinear⟩ := hkept.temp
  obtain rfl : ((s.turnMesh f).turnT g).tGroupMatrix = m := Option.some.inj hm
  unfold State.rotatedT
  cases hs : s.scaleMatrix with
  | none =>
    simp only [hscaleMatrix, hs]
    exact hkept
  | some scaleMatrix =>
    simp only [hscaleMatrix, hs]
    refine { h.turn hf hg with temp := ⟨_, rfl, ?_⟩, arrow := rfl, tenum := htenum }
    rw [tGroupMatrix_turnT, Object3D.composed, linear_compose] at hlinear
    rw [tGroupMatrix_turnT, Object3D.composed, linear_mul_compose, hone scaleMatrix hs, Matrix.one_mul, hlinear]

theorem rotateY_second (h : Pose s r size) (htenum : s.tenum ≠ 0) (harrow : s.arrow = [.z])
    (hone : ∀ m ∈ s.scaleMatrix, linear m = 1) (hx : r.x = 0) (hz : r.z = 0) (d : ℝ) :
    Outcome (s.rotateY standing d) ⟨0, degToRad d, 0⟩ size (tLinear ⟨0, degToRad d, 0⟩ size) (s.arrow ++ [.y]) := by
  have hmixed : ¬Alone s .y := by simp [Alone, harrow]
  have hevery : ((s.push .y).record fun data => { data with y := some d }).every = false := not_every_push hmixed
  have hpushed : ((s.push .y).record fun data => { data with y := some d }).arrow = [.z, .y] := by
    change s.arrow ++ [Entry.y] = _
    rw [harrow]
    rfl
  unfold State.rotateY
  simp only [hevery, hpushed, Bool.false_eq_true, if_false]
  rw [if_neg (by simp), if_pos (by simp)]
  refine (h.recorded .y _).turn_rotatedT htenum hone ?_ ?_
  · rw [hx, hz]
  · rw [twist, twist, hx, hz]

theorem rotateZ_second (h : Pose s r size) (htenum : s.tenum ≠ 0) (harrow : s.arrow = [.y])
    (hone : ∀ m ∈ s.scaleMatrix, linear m = 1) (hx : r.x = 0) (hy : r.y = 0) (d : ℝ) :
    Outcome (s.rotateZ standing d) ⟨0, 0, degToRad (-d)⟩ size (tLinear ⟨0, 0, degToRad (-d)⟩ size)
      (s.arrow ++ [.z]) := by
  have hmixed : ¬Alone s .z := by simp [Alone, harrow]
  have hevery : ((s.push .z).record fun data => { data with z := some d }).every = false := not_every_push hmixed
  have hpushed : ((s.push .z).record fun data => { data with z := some d }).arrow = [.y, .z] := by
    change s.arrow ++ [Entry.z] = _
    rw [harrow]
    rfl
  unfold State.rotateZ
  simp only [hevery, hpushed, Bool.false_eq_true, if_false]
  rw [if_neg (by simp), if_pos (by simp)]
  refine (h.recorded .z _).turn_rotatedT htenum hone ?_ ?_
  · rw [hx, hy]
  · rw [twist, twist, hx, hy, degToRad, degToRad, neg_mul, neg_neg]

/-- Both groups get another size. -/
theorem Pose.resize (h : Pose s r size) {f g : Vector3 → Vector3} {size' : Vector3}
    (hf : f size = size') (hg : g size = size') : Pose ((s.sizeMesh f).sizeT g) r size' := by
  have hmesh : f s.mesh.scale = size' := by rw [h.scale, hf]
  refine Pose.of_updates (s := { s.sizeMesh f with tGroup.scale := g s.tGroup.scale }) h.rotation h.twisted hmesh ?_ ?_
    h.unused
  · rw [← hg, ← h.tScale]
  · rw [← hmesh]
    exact setFromMatrixScale_compose _ _ _

/-- A uniform scale as a part of a matrix. -/
theorem smul_abs_abs (e : ℝ) (v : Vector3) : (v.abs.smul |e|).abs = v.abs.smul |e| := by
  simp only [Vector3.abs, Vector3.smul, abs_mul, abs_abs]

theorem Pose.stretch (h : Pose s r size) (e : ℝ) :
    Pose ((s.stretchMesh (makeScale e e e)).updateMesh.stretchT (makeScale e e e)).updateT r (size.abs.smul |e|) := by
  have hmesh : setFromMatrixScale (makeScale e e e * s.mesh.matrix) = size.abs.smul |e| := by
    rw [setFromMatrixScale_makeScale, h.meshMatrix]
  have ht : setFromMatrixScale (makeScale e e e * s.tGroupMatrix) = size.abs.smul |e| := by
    rw [setFromMatrixScale_makeScale, h.tMatrix]
  refine Pose.of_updates h.rotation h.twisted hmesh ht ?_ h.unused
  rw [← hmesh]
  exact setFromMatrixScale_compose _ _ _

theorem Pose.stretch_shared (h : Pose s r size) (e : ℝ) :
    Pose (({ (s.stretchMesh (makeScale e e e)).updateMesh with shared := true } : State).sizeT fun _ =>
      setFromMatrixScale ({ (s.stretchMesh (makeScale e e e)).updateMesh with shared := true } : State).tGroupMatrix)
      r (size.abs.smul |e|) := by
  have hmesh : setFromMatrixScale (makeScale e e e * s.mesh.matrix) = size.abs.smul |e| := by
    rw [setFromMatrixScale_makeScale, h.meshMatrix]
  have ht : setFromMatrixScale (compose s.mesh.position s.mesh.rotation
      (setFromMatrixScale (makeScale e e e * s.mesh.matrix))) = size.abs.smul |e| := by
    rw [setFromMatrixScale_compose, hmesh, smul_abs_abs]
  refine Pose.of_updates h.rotation h.twisted hmesh ht ?_ h.unused
  rw [← hmesh]
  exact setFromMatrixScale_compose _ _ _

theorem tLinear_zero_transpose (size : Vector3) : (tLinear 0 size)ᵀ = tLinear 0 size := by
  rw [tLinear, twist_zero, euler_zero, Matrix.one_mul, scaling_transpose]

theorem Pose.keepTransposed (h : Pose s.updateT r size) (htenum : s.tenum ≠ 0) :
    Outcome s.updateT.keepTransposed r size (tLinear r size)ᵀ s.arrow := by
  refine { h with temp := ⟨_, rfl, ?_⟩, arrow := rfl, tenum := htenum }
  have htwisted : s.tGroup.rotation = twist r := h.twisted
  have hscale : s.tGroup.scale = size := h.tScale
  rw [tGroupMatrix_updateT, linear_transpose, Object3D.composed, linear_compose, htwisted, hscale, tLinear]

theorem Pose.keep (h : Pose s.updateT r size) (htenum : s.tenum ≠ 0)
    (hempty : s.arrow = [] → r = 0) : Outcome s.updateT.keep r size (tLinear r size)ᵀ s.arrow := by
  unfold State.keep
  split_ifs with hlength
  · have harrow : s.arrow = [] := List.length_eq_zero_iff.mp hlength
    have hkept := h.keepTransposed htenum
    obtain ⟨m, hm, hlinear⟩ := hkept.temp
    obtain rfl : s.updateT.tGroupMatrixᵀ = m := Option.some.inj hm
    refine { h with temp := ⟨_, rfl, ?_⟩, arrow := rfl, tenum := htenum }
    rw [linear_transpose] at hlinear
    rw [Matrix.transpose_injective hlinear, hempty harrow, tLinear_zero_transpose]
  · exact h.keepTransposed htenum

theorem Pose.resize_keep (h : Pose s r size) (htenum : s.tenum ≠ 0) (hempty : s.arrow = [] → r = 0)
    {f g : Vector3 → Vector3} {size' : Vector3} (hf : f size = size') (hg : g size = size') :
    Outcome ((s.sizeMesh f).sizeT g).keep r size' (tLinear r size')ᵀ s.arrow :=
  Pose.keep (s := { s.sizeMesh f with tGroup.scale := g s.tGroup.scale }) (h.resize hf hg) htenum hempty

theorem scaleX_plain (h : Pose s r size) (htenum : s.tenum ≠ 0) (hflag : s.rotateFlagX = false)
    (hempty : s.arrow = [] → r = 0) (percentage e : ℝ) :
    Outcome (s.scaleX percentage e) r { size with x := percentage } (tLinear r { size with x := percentage })ᵀ
      s.arrow := by
  unfold State.scaleX
  simp only [hflag, Bool.false_eq_true, if_false]
  exact h.resize_keep htenum hempty rfl rfl

theorem scaleY_plain (h : Pose s r size) (htenum : s.tenum ≠ 0) (hflag : s.rotateFlagZ = false)
    (hempty : s.arrow = [] → r = 0) (percentage e : ℝ) :
    Outcome (s.scaleY percentage e) r { size with z := percentage } (tLinear r { size with z := percentage })ᵀ
      s.arrow := by
  unfold State.scaleY
  simp only [hflag, Bool.false_eq_true, if_false]
  exact h.resize_keep htenum hempty rfl rfl

theorem scaleZ_plain (h : Pose s r size) (htenum : s.tenum ≠ 0) (hflag : s.rotateFlagY = false)
    (hempty : s.arrow = [] → r = 0) (percentage e : ℝ) :
    Outcome (s.scaleZ percentage e) r { size with y := percentage } (tLinear r { size with y := percentage })ᵀ
      s.arrow := by
  unfold State.scaleZ
  simp only [hflag, Bool.false_eq_true, if_false]
  exact h.resize_keep htenum hempty rfl rfl

/-- Where a rotation flag is set, the scaling is pushed. -/
theorem scaleAll_outcome (h : Pose s r size) (htenum : s.tenum ≠ 0) (hempty : s.arrow = [] → r = 0)
    (e : ℝ) :
    Outcome (s.scaleAll e) r (size.abs.smul |e|) (tLinear r (size.abs.smul |e|))ᵀ
      (s.arrow ++ if s.rotateFlagX || s.rotateFlagY || s.rotateFlagZ then [.scaleFlag] else []) := by
  unfold State.scaleAll
  split_ifs with hflag
  · have hkept := (h.stretch e).keepTransposed htenum
    exact { hkept with arrow := congrArg (· ++ [Entry.scaleFlag]) hkept.arrow }
  · rw [List.append_nil]
    exact Pose.keep (h.stretch_shared e) htenum hempty

end

end Cxsw.Transform
