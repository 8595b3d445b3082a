import Cxsw.Lib.JsArray
import Cxsw.Lib.Run

/-!
# Cxsw.Viewer.CameraManager — the cameras of a scene (`3d-lib/src/managers/CameraManager.ts`)

The manager keeps references to cameras, whose names do not change; `userData.isActive` is a field of the camera itself.
`removeCamera` asks `getCamera` for the place of a camera through a parameter, which JavaScript passes by value: the
place never comes back, and no camera is ever taken out.

* `Inv`: the names differ, and one camera is active.
* `camera_run_iff`: the runs of calls in which this stays so and every call does what its comment says.
-/

namespace Cxsw.Camera

open Js

variable {Ref Name : Type*} [DecidableEq Ref] [DecidableEq Name]

/-- `_cameraArray`, and `userData.isActive` of all cameras. -/
structure CameraManager (Ref : Type*) where
  cameraArray : List Ref
  isActive : Ref → Bool

namespace CameraManager

variable (name : Ref → Name) (m : CameraManager Ref)

/-- `getCamera`, whose parameter `findIndex` is a variable of its own. -/
def getCamera (n : Name) (findIndex : Option ℤ) : Option Ref :=
  find (fun camera => name camera = n) m.cameraArray (findIndex.getD (-1))

omit [DecidableEq Ref] in
/-- `getActiveCamera`. -/
def getActiveCamera : Option Ref := find m.isActive m.cameraArray (-1)

/-- `setCameraActive`. -/
def setCameraActive (n : Name) : CameraManager Ref :=
  match m.getCamera name n (some (-1)) with
  | none => m
  | some targetCamera =>
    if m.isActive targetCamera then m
    else
      let isActive := match m.getActiveCamera with
        | some activeCamera => Function.update m.isActive activeCamera false
        | none => m.isActive
      { m with isActive := Function.update isActive targetCamera true }

/-- `removeCamera`; what `getCamera` assigns to its parameter is not seen here. -/
def removeCamera (n : Name) : CameraManager Ref × Option Ref :=
  let findIndex : ℤ := -1
  let _camera := m.getCamera name n (some findIndex)
  if findIndex = -1 then (m, none)
  else if m.cameraArray.length = 1 then (m, none)
  else
    let (removeItemArray, cameraArray) := splice m.cameraArray findIndex 1
    let removed : CameraManager Ref := { m with cameraArray }
    match removeItemArray[0]? with
    | none => (removed, none)
    | some removeItem =>
      if m.isActive removeItem then
        ((cameraArray[0]?).elim removed fun first => removed.setCameraActive name (name first), some removeItem)
      else (removed, some removeItem)

/-- `addCamera`. -/
def addCamera (camera : Ref) (isActive : Option Bool) : CameraManager Ref :=
  let isActive := isActive.getD false
  let m := (m.removeCamera name (name camera)).1
  let m : CameraManager Ref := { m with cameraArray := m.cameraArray ++ [camera] }
  if isActive then m.setCameraActive name (name camera) else m

end CameraManager

/-- The calls. -/
inductive Op (Ref Name : Type*) where
  | addCamera (camera : Ref) (isActive : Option Bool)
  | removeCamera (name : Name)
  | setCameraActive (name : Name)

variable (name : Ref → Name)

def step (m : CameraManager Ref) : Op Ref Name → CameraManager Ref
  | .addCamera camera isActive => m.addCamera name camera isActive
  | .removeCamera n => (m.removeCamera name n).1
  | .setCameraActive n => m.setCameraActive name n

omit [DecidableEq Ref] [DecidableEq Name] in
/-- The names differ, and one camera is active. -/
structure Inv (m : CameraManager Ref) : Prop where
  names : (m.cameraArray.map name).Nodup
  active : ∃! camera, camera ∈ m.cameraArray ∧ m.isActive camera = true

/-- What a call owes: an added camera takes the place of the one of its name, and a removed one is gone unless it is the
only one. -/
def Does (before after : List Ref) : Op Ref Name → Prop
  | .addCamera camera _ => ∀ c, c ∈ after ↔ c = camera ∨ c ∈ before ∧ name c ≠ name camera
  | .removeCamera n => after = if before.length = 1 then before else before.filter fun c => name c ≠ n
  | .setCameraActive _ => True

/-- After a call the names differ, there is a camera, one is active, and the call has done what it owes. -/
structure Kept (m : CameraManager Ref) (op : Op Ref Name) : Prop where
  names : ((step name m op).cameraArray.map name).Nodup
  nonempty : (step name m op).cameraArray ≠ []
  active : ∃! camera, camera ∈ (step name m op).cameraArray ∧ (step name m op).isActive camera = true
  does : Does name m.cameraArray (step name m op).cameraArray op

/-- A new name, for a camera that is not active yet; and a name that is not there, or the only one. -/
def Ok (m : CameraManager Ref) : Op Ref Name → Prop
  | .addCamera camera _ => name camera ∉ m.cameraArray.map name ∧ m.isActive camera = false
  | .removeCamera n => n ∉ m.cameraArray.map name ∨ m.cameraArray.length = 1
  | .setCameraActive _ => True

instance (m : CameraManager Ref) : (op : Op Ref Name) → Decidable (Ok name m op)
  | .addCamera _ _ => inferInstanceAs (Decidable (_ ∧ _))
  | .removeCamera _ => inferInstanceAs (Decidable (_ ∨ _))
  | .setCameraActive _ => isTrue trivial

variable {name} {m : CameraManager Ref}

omit [DecidableEq Ref] [DecidableEq Name] in
theorem Inv.nonempty (h : Inv name m) : m.cameraArray ≠ [] := by
  obtain ⟨camera, ⟨hmem, -⟩, -⟩ := h.active
  exact List.ne_nil_of_mem hmem

theorem removeCamera_fst (n : Name) : (m.removeCamera name n).1 = m := by
  unfold CameraManager.removeCamera
  simp

omit [DecidableEq Ref] in
theorem getCamera_eq (n : Name) : m.getCamera name n (some (-1)) = lookup name m.cameraArray n :=
  find_eq _ _

omit [DecidableEq Ref] in
theorem getActiveCamera_eq : m.getActiveCamera = m.cameraArray.find? m.isActive := find_eq _ _

omit [DecidableEq Ref] [DecidableEq Name] in
theorem Inv.getActiveCamera (h : Inv name m) {camera : Ref} (hmem : camera ∈ m.cameraArray)
    (hactive : m.isActive camera = true) : m.getActiveCamera = some camera := by
  rw [getActiveCamera_eq]
  cases hfind : m.cameraArray.find? m.isActive with
  | none => exact absurd hactive (by simpa using List.find?_eq_none.mp hfind camera hmem)
  | some c =>
    rw [h.active.unique ⟨List.mem_of_find?_eq_some hfind, List.find?_some hfind⟩ ⟨hmem, hactive⟩]

/-- Activity goes over to another camera. -/
theorem Inv.setCameraActive (h : Inv name m) (n : Name) :
    (m.setCameraActive name n).cameraArray = m.cameraArray ∧ Inv name (m.setCameraActive name n) := by
  unfold CameraManager.setCameraActive
  rw [getCamera_eq]
  cases htarget : lookup name m.cameraArray n with
  | none => exact ⟨rfl, h⟩
  | some targetCamera =>
    dsimp only
    split
    · exact ⟨rfl, h⟩
    · next hnot =>
      obtain ⟨activeCamera, ⟨hmem, hactive⟩, -⟩ := id h.active
      rw [h.getActiveCamera hmem hactive]
      refine ⟨rfl, h.names, targetCamera, ⟨lookup_mem name htarget, Function.update_self _ _ _⟩, ?_⟩
      rintro c ⟨hc, hcactive⟩
      dsimp only at hcactive
      by_contra hne
      rw [Function.update_of_ne hne] at hcactive
      rcases eq_or_ne c activeCamera with rfl | hother
      · rw [Function.update_self] at hcactive
        cases hcactive
      · rw [Function.update_of_ne hother] at hcactive
        exact hother (h.active.unique ⟨hc, hcactive⟩ ⟨hmem, hactive⟩)

omit [DecidableEq Ref] [DecidableEq Name] in
/-- A camera is appended that is not active and has a new name. -/
theorem Inv.append (h : Inv name m) {camera : Ref} (hname : name camera ∉ m.cameraArray.map name)
    (hactive : m.isActive camera = false) : Inv name { m with cameraArray := m.cameraArray ++ [camera] } where
  names := by
    rw [List.map_append, List.map_singleton]
    exact h.names.append (List.nodup_singleton _) (List.disjoint_singleton.mpr hname)
  active := by
    obtain ⟨a, ⟨hmem, ha⟩, hunique⟩ := h.active
    refine ⟨a, ⟨List.mem_append_left _ hmem, ha⟩, ?_⟩
    rintro c ⟨hc, hcactive⟩
    rcases List.mem_append.mp hc with hc | hc
    · exact hunique c ⟨hc, hcactive⟩
    · obtain rfl := List.mem_singleton.mp hc
      exact absurd hcactive (by simp [hactive])

theorem addCamera_cameraArray (camera : Ref) (isActive : Option Bool) :
    (m.addCamera name camera isActive).cameraArray = m.cameraArray ++ [camera] := by
  unfold CameraManager.addCamera
  rw [removeCamera_fst]
  dsimp only
  split
  · unfold CameraManager.setCameraActive
    split
    · rfl
    · split <;> rfl
  · rfl

omit [DecidableEq Ref] [DecidableEq Name] in
theorem mem_append_iff_does {camera : Ref} (hname : name camera ∉ m.cameraArray.map name) (c : Ref) :
    c ∈ m.cameraArray ++ [camera] ↔ c = camera ∨ c ∈ m.cameraArray ∧ name c ≠ name camera := by
  rw [List.mem_append, List.mem_singleton, or_comm]
  refine or_congr_right ⟨fun hc => ⟨hc, fun heq => hname ?_⟩, fun hc => hc.1⟩
  rw [← heq]
  exact List.mem_map_of_mem hc

/-- A new camera that is not active. -/
theorem Inv.addCamera (h : Inv name m) {camera : Ref} (hname : name camera ∉ m.cameraArray.map name)
    (hactive : m.isActive camera = false) (isActive : Option Bool) :
    Inv name (m.addCamera name camera isActive) := by
  have happend := h.append hname hactive
  unfold CameraManager.addCamera
  rw [removeCamera_fst]
  dsimp only
  split
  · exact (happend.setCameraActive (name camera)).2
  · exact happend

/-- A new camera that says it is active stays so, next to the one that is. -/
theorem addCamera_active {camera : Ref} (hname : name camera ∉ m.cameraArray.map name)
    (hactive : m.isActive camera = true) (isActive : Option Bool) :
    (m.addCamera name camera isActive).isActive = m.isActive := by
  unfold CameraManager.addCamera
  rw [removeCamera_fst]
  dsimp only
  split
  · have hnone : lookup name m.cameraArray (name camera) = none :=
      (lookup_eq_none name).mpr fun a ha heq => hname (heq ▸ List.mem_map_of_mem ha)
    unfold CameraManager.setCameraActive
    rw [getCamera_eq, lookup_append, hnone, Option.none_or, if_pos rfl]
    dsimp only
    rw [if_pos hactive]
  · rfl

theorem Inv.addCamera_kept_iff (h : Inv name m) (camera : Ref) (isActive : Option Bool) :
    Kept name m (.addCamera camera isActive) ↔ Ok name m (.addCamera camera isActive) := by
  constructor
  · intro hkept
    have hnames := hkept.names
    have hunique := hkept.active
    simp only [step, addCamera_cameraArray, List.map_append, List.map_singleton] at hnames hunique
    have hname : name camera ∉ m.cameraArray.map name := fun hmem =>
      (List.disjoint_of_nodup_append hnames) hmem (List.mem_singleton_self _)
    refine ⟨hname, ?_⟩
    by_contra hactive
    rw [Bool.not_eq_false] at hactive
    rw [addCamera_active hname hactive] at hunique
    -- the one that was active, and the new one
    obtain ⟨a, ⟨hmem, ha⟩, -⟩ := h.active
    have heq := hunique.unique ⟨List.mem_append_left _ hmem, ha⟩
      ⟨List.mem_append_right _ (List.mem_singleton_self camera), hactive⟩
    exact hname (heq ▸ List.mem_map_of_mem hmem)
  · rintro ⟨hname, hactive⟩
    have hinv := h.addCamera hname hactive isActive
    refine ⟨hinv.names, hinv.nonempty, hinv.active, fun c => ?_⟩
    simp only [step, addCamera_cameraArray]
    exact mem_append_iff_does hname c

theorem Inv.removeCamera_kept_iff (h : Inv name m) (n : Name) :
    Kept name m (.removeCamera n) ↔ Ok name m (.removeCamera n) := by
  have hdoes : Does name m.cameraArray m.cameraArray (.removeCamera n) ↔ Ok name m (.removeCamera n) := by
    simp only [Does, Ok]
    split
    · next hone => exact iff_of_true rfl (Or.inr hone)
    · next hmore =>
      rw [or_iff_left hmore, eq_comm, List.filter_eq_self, List.mem_map]
      simp
  constructor
  · intro hkept
    have hthis := hkept.does
    simp only [step, removeCamera_fst] at hthis
    exact hdoes.mp hthis
  · intro hok
    have hstep : step name m (.removeCamera n) = m := removeCamera_fst n
    refine ⟨?_, ?_, ?_, ?_⟩
    · rw [hstep]
      exact h.names
    · rw [hstep]
      exact h.nonempty
    · rw [hstep]
      exact h.active
    · rw [hstep]
      exact hdoes.mpr hok

/-- **Step lemma**: a call does what it owes exactly on the condition, and then the invariant stays. -/
theorem Inv.step (h : Inv name m) (op : Op Ref Name) :
    (Kept name m op ↔ Ok name m op) ∧ (Ok name m op → Inv name (step name m op)) := by
  have hinv (hkept : Kept name m op) : Inv name (Camera.step name m op) := ⟨hkept.names, hkept.active⟩
  cases op with
  | addCamera camera isActive =>
    have hiff := h.addCamera_kept_iff camera isActive
    exact ⟨hiff, fun hok => hinv (hiff.mpr hok)⟩
  | removeCamera n =>
    have hiff := h.removeCamera_kept_iff n
    exact ⟨hiff, fun hok => hinv (hiff.mpr hok)⟩
  | setCameraActive n =>
    obtain ⟨-, hnext⟩ := h.setCameraActive n
    exact ⟨iff_of_true ⟨hnext.names, hnext.nonempty, hnext.active, trivial⟩ trivial, fun _ => hnext⟩

/-- **Every run** from a manager with one active camera: all calls do what they owe, and leave the names different and
one camera active, exactly when each adds a new name or removes none. -/
theorem camera_run_iff (h : Inv name m) (ops : List (Op Ref Name)) :
    AllSteps (step name) (Kept name) m ops ↔ AllSteps (step name) (Ok name) m ops :=
  allSteps_iff_of_invariant (fun _ op hinv => hinv.step op) h ops

/-- A manager with one camera, which is active; a camera is its name here. -/
def oneCamera : CameraManager ℕ where
  cameraArray := [0]
  isActive c := c == 0

theorem inv_oneCamera : Inv id oneCamera := by
  refine ⟨by decide, 0, by decide, ?_⟩
  rintro c ⟨hc, -⟩
  exact List.mem_singleton.mp hc

theorem three_cameras_kept :
    AllSteps (step id) (Kept id) oneCamera
      [.addCamera 1 none, .addCamera 2 (some true), .setCameraActive 1, .removeCamera 3] :=
  (camera_run_iff inv_oneCamera _).mpr (by decide)

/-- The second camera is added, and removed again. -/
theorem removed_camera_stays :
    ¬ AllSteps (step id) (Kept id) oneCamera [.addCamera 1 none, .removeCamera 1] := by
  rw [allSteps_iff_of_invariant (fun _ op hinv => hinv.step op) inv_oneCamera]
  decide

end Cxsw.Camera
