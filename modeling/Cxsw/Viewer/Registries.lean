import Cxsw.Lib.JsArray
import Cxsw.Lib.Run

/-!
# Cxsw.Viewer.Registries — scenes, data sets and interactions (`3d-lib/src/managers`)

`Scene3DManager` and `DataManager` keep their objects by name, `InteractionManager` by type, each in an array of its own
with a search loop of its own.  The first two look for the place of an object through the parameter `findIndex` of a
getter, and so does `removeInteraction`; the place does not come back.

* `Bindings`: the finite map that the three stand for, with what an operation on it does and returns.
* `scene_refines_iff`, `data_refines_iff`, `interaction_refines_iff`: the calls at which the array behaves as the map.
* `registries_run_iff`: the runs of calls in which the three do.

`clearStl` disposes of the data sets as well as of the array; the objects are not part of the model.
-/

namespace Cxsw.Registry

open Js

variable {α κ : Type*} [DecidableEq κ] (key : α → κ)

/-- The finite map: what every key is bound to. -/
abbrev Bindings (κ α : Type*) := κ → Option α

/-- The calls on the map: `add` binds the key of its object, to the newest object or, where the first one stays, only if
it is free. -/
inductive MapOp (κ α : Type*) where
  | addNewest (a : α)
  | addFirst (a : α)
  | remove (k : κ)
  | get (k : κ)

/-- What a call makes of the map, and returns. -/
def MapOp.apply (m : Bindings κ α) : MapOp κ α → Bindings κ α × Option α
  | .addNewest a => (Function.update m (key a) (some a), none)
  | .addFirst a => (if (m (key a)).isSome then m else Function.update m (key a) (some a), none)
  | .remove k => (Function.update m k none, m k)
  | .get k => (m, m k)

/-- A call leaves the array as the map, and returns what the map returns. -/
structure Refines (before : List α) (after : List α × Option α) (op : MapOp κ α) : Prop where
  content : lookup key after.1 = (op.apply key (lookup key before)).1
  result : after.2 = (op.apply key (lookup key before)).2

/-! ## Scenes -/

/-- `getScene3D`, whose parameter `findIndex` is a variable of its own. -/
def getScene3D (scene3DArray : List α) (name : κ) (findIndex : Option ℤ) : Option α :=
  find (fun scene => key scene = name) scene3DArray (findIndex.getD (-1))

/-- `removeScene3D`; what `getScene3D` assigns to its parameter is not seen here. -/
def removeScene3D (scene3DArray : List α) (name : κ) : List α × Option α :=
  let findIndex : ℤ := -1
  let _scene := getScene3D key scene3DArray name (some findIndex)
  if findIndex = -1 then (scene3DArray, none)
  else
    let (removeItemArray, rest) := splice scene3DArray 1 findIndex
    (rest, removeItemArray[0]?)

/-- `addScene3D`. -/
def addScene3D (scene3DArray : List α) (scene : α) : List α :=
  (removeScene3D key scene3DArray (key scene)).1 ++ [scene]

/-- `getActiveScene3D`, which empties the array at a scene of the name. -/
def getActiveScene3D (scene3DArray : List α) (name : κ) : List α × Option α :=
  (if scene3DArray.any fun scene => key scene = name then [] else scene3DArray, none)

/-- The calls on the scenes. -/
inductive SceneOp (κ α : Type*) where
  | addScene3D (scene : α)
  | removeScene3D (name : κ)
  | getScene3D (name : κ) (findIndex : Option ℤ)
  | getActiveScene3D (name : κ)

/-- A call, with what it returns. -/
def sceneCall (scene3DArray : List α) : SceneOp κ α → List α × Option α
  | .addScene3D scene => (addScene3D key scene3DArray scene, none)
  | .removeScene3D name => removeScene3D key scene3DArray name
  | .getScene3D name findIndex => (scene3DArray, getScene3D key scene3DArray name findIndex)
  | .getActiveScene3D name => getActiveScene3D key scene3DArray name

def sceneStep (scene3DArray : List α) (op : SceneOp κ α) : List α := (sceneCall key scene3DArray op).1

/-- What the map does at a call. -/
def SceneOp.toMap : SceneOp κ α → MapOp κ α
  | .addScene3D scene => .addNewest scene
  | .removeScene3D name => .remove name
  | .getScene3D name _ => .get name
  | .getActiveScene3D name => .get name

/-- The name is free, or that of the same scene; there is nothing to remove; the name is bound, or the place that was
given is none of the array; there is no scene of the name. -/
def SceneOk (scene3DArray : List α) : SceneOp κ α → Prop
  | .addScene3D scene =>
    lookup key scene3DArray (key scene) = none ∨ lookup key scene3DArray (key scene) = some scene
  | .removeScene3D name => lookup key scene3DArray name = none
  | .getScene3D name findIndex =>
    lookup key scene3DArray name ≠ none ∨ at? scene3DArray (findIndex.getD (-1)) = none
  | .getActiveScene3D name => lookup key scene3DArray name = none

/-! ## Data sets -/

/-- `clearStl`. -/
def clearStl (_stlDataColArray : List α) : List α := []

/-- `getStlDataCollection`, which clears the array first and sets its parameter itself. -/
def getStlDataCollection (stlDataColArray : List α) (name : κ) (_findIndex : Option ℤ) : List α × Option α :=
  let stlDataColArray := clearStl stlDataColArray
  (stlDataColArray, find (fun item => key item = name) stlDataColArray (-1))

/-- `addMaxDataCollection`. -/
def addMaxDataCollection (stlDataColArray : List α) (dataCollection : α) : List α :=
  let findIndex : ℤ := -1
  let stlDataColArray := (getStlDataCollection key stlDataColArray (key dataCollection) (some findIndex)).1
  if findIndex = -1 then stlDataColArray ++ [dataCollection]
  else (splice stlDataColArray findIndex 1).2 ++ [dataCollection]

/-- The calls on the data sets. -/
inductive DataOp (κ α : Type*) where
  | addMaxDataCollection (dataCollection : α)
  | getStlDataCollection (name : κ) (findIndex : Option ℤ)

def dataCall (stlDataColArray : List α) : DataOp κ α → List α × Option α
  | .addMaxDataCollection dataCollection => (addMaxDataCollection key stlDataColArray dataCollection, none)
  | .getStlDataCollection name findIndex => getStlDataCollection key stlDataColArray name findIndex

def dataStep (stlDataColArray : List α) (op : DataOp κ α) : List α := (dataCall key stlDataColArray op).1

def DataOp.toMap : DataOp κ α → MapOp κ α
  | .addMaxDataCollection dataCollection => .addNewest dataCollection
  | .getStlDataCollection name _ => .get name

/-- No other name is bound; nothing is bound. -/
def DataOk (stlDataColArray : List α) : DataOp κ α → Prop
  | .addMaxDataCollection dataCollection => ∀ item ∈ stlDataColArray, key item = key dataCollection
  | .getStlDataCollection _ _ => stlDataColArray = []

/-! ## Interactions -/

/-- `hasInteraction`. -/
def hasInteraction (interactionArray : List α) (type : κ) : Bool := interactionArray.any fun item => key item = type

/-- `addInteraction`. -/
def addInteraction (interactionArray : List α) (control : α) : List α :=
  if hasInteraction key interactionArray (key control) then interactionArray else interactionArray ++ [control]

/-- `getInteraction`, which sets its parameter itself. -/
def getInteraction (interactionArray : List α) (type : κ) (_findIndex : Option ℤ) : Option α :=
  find (fun item => key item = type) interactionArray (-1)

/-- `removeInteraction`; what `getInteraction` assigns to its parameter is not seen here. -/
def removeInteraction (interactionArray : List α) (type : κ) : List α × Option α :=
  let findIndex : ℤ := -1
  let _control := getInteraction key interactionArray type (some findIndex)
  if findIndex = -1 then (interactionArray, none)
  else
    let (removeItemArray, rest) := splice interactionArray findIndex 1
    (rest, removeItemArray[0]?)

/-- The calls on the interactions. -/
inductive InteractionOp (κ α : Type*) where
  | addInteraction (control : α)
  | removeInteraction (type : κ)
  | getInteraction (type : κ) (findIndex : Option ℤ)

def interactionCall (interactionArray : List α) : InteractionOp κ α → List α × Option α
  | .addInteraction control => (addInteraction key interactionArray control, none)
  | .removeInteraction type => removeInteraction key interactionArray type
  | .getInteraction type findIndex => (interactionArray, getInteraction key interactionArray type findIndex)

def interactionStep (interactionArray : List α) (op : InteractionOp κ α) : List α :=
  (interactionCall key interactionArray op).1

def InteractionOp.toMap : InteractionOp κ α → MapOp κ α
  | .addInteraction control => .addFirst control
  | .removeInteraction type => .remove type
  | .getInteraction type _ => .get type

/-- There is nothing to remove. -/
def InteractionOk (interactionArray : List α) : InteractionOp κ α → Prop
  | .removeInteraction type => lookup key interactionArray type = none
  | _ => True

/-! ## The refinement -/

section Refinement

variable {key}

theorem lookup_append_eq_update_iff (array : List α) (a : α) :
    lookup key (array ++ [a]) = Function.update (lookup key array) (key a) (some a) ↔
      lookup key array (key a) = none ∨ lookup key array (key a) = some a := by
  constructor
  · intro h
    have hkey := congrFun h (key a)
    rw [lookup_append, if_pos rfl, Function.update_self] at hkey
    cases hlookup : lookup key array (key a) with
    | none => exact Or.inl rfl
    | some b =>
      rw [hlookup, Option.some_or] at hkey
      exact Or.inr hkey
  · intro h
    funext k
    rw [lookup_append]
    rcases eq_or_ne k (key a) with rfl | hne
    · rw [Function.update_self, if_pos rfl]
      rcases h with h | h <;> rw [h] <;> rfl
    · rw [Function.update_of_ne hne, if_neg hne.symm, Option.or_none]

theorem refines_remove_iff (array : List α) (k : κ) :
    Refines key array (array, none) (.remove k) ↔ lookup key array k = none := by
  constructor
  · intro h
    exact h.result.symm
  · intro h
    refine ⟨?_, h.symm⟩
    funext k'
    simp only [MapOp.apply]
    rcases eq_or_ne k' k with rfl | hne
    · rw [Function.update_self, h]
    · rw [Function.update_of_ne hne]

theorem scene_refines_iff (scene3DArray : List α) (op : SceneOp κ α) :
    Refines key scene3DArray (sceneCall key scene3DArray op) op.toMap ↔ SceneOk key scene3DArray op := by
  cases op with
  | addScene3D scene =>
    have hcontent : lookup key (scene3DArray ++ [scene]) =
        Function.update (lookup key scene3DArray) (key scene) (some scene) ↔ _ :=
      lookup_append_eq_update_iff scene3DArray scene
    exact ⟨fun h => hcontent.mp h.content, fun h => ⟨hcontent.mpr h, rfl⟩⟩
  | removeScene3D name => exact refines_remove_iff scene3DArray name
  | getScene3D name findIndex =>
    have hresult : getScene3D key scene3DArray name findIndex =
        (lookup key scene3DArray name).or (at? scene3DArray (findIndex.getD (-1))) := find_start _ _ _
    constructor
    · intro h
      have hget := h.result
      simp only [sceneCall, SceneOp.toMap, MapOp.apply, hresult] at hget
      by_cases hnone : lookup key scene3DArray name = none
      · rw [hnone, Option.none_or] at hget
        exact Or.inr hget
      · exact Or.inl hnone
    · intro h
      refine ⟨rfl, hresult.trans ?_⟩
      rcases h with h | h
      · exact Option.or_of_isSome (Option.isSome_iff_ne_none.mpr h)
      · rw [h]
        exact Option.or_none
  | getActiveScene3D name =>
    constructor
    · intro h
      exact h.result.symm
    · intro h
      have hany : (scene3DArray.any fun scene => key scene = name) = false := by
        rw [List.any_eq_false]
        exact fun a ha => by simpa using (lookup_eq_none key).mp h a ha
      refine ⟨?_, h.symm⟩
      simp only [sceneCall, getActiveScene3D, hany, SceneOp.toMap, MapOp.apply]
      rfl

/-- The array is empty after a get, and holds one data set after an add. -/
theorem data_refines_iff (stlDataColArray : List α) (op : DataOp κ α) :
    Refines key stlDataColArray (dataCall key stlDataColArray op) op.toMap ↔ DataOk key stlDataColArray op := by
  cases op with
  | addMaxDataCollection dataCollection =>
    have hcall : dataCall key stlDataColArray (.addMaxDataCollection dataCollection) = ([dataCollection], none) := rfl
    rw [hcall]
    constructor
    · intro h item hmem
      by_contra hne
      have hkey := congrFun h.content (key item)
      simp only [DataOp.toMap, MapOp.apply, Function.update_of_ne hne] at hkey
      have hnone : lookup key [dataCollection] (key item) = none :=
        (lookup_eq_none key).mpr fun a ha => by rw [List.mem_singleton.mp ha]; exact Ne.symm hne
      rw [hnone] at hkey
      exact (lookup_eq_none key).mp hkey.symm item hmem rfl
    · intro h
      refine ⟨?_, rfl⟩
      funext k
      have hsingle := lookup_append key [] dataCollection k
      rw [List.nil_append, lookup_nil, Option.none_or] at hsingle
      simp only [DataOp.toMap, MapOp.apply, hsingle]
      rcases eq_or_ne k (key dataCollection) with rfl | hne
      · rw [Function.update_self, if_pos rfl]
      · rw [Function.update_of_ne hne, if_neg hne.symm, eq_comm, lookup_eq_none]
        exact fun item hmem heq => hne (heq.symm.trans (h item hmem))
  | getStlDataCollection name findIndex =>
    constructor
    · intro h
      by_contra hne
      obtain ⟨item, hmem⟩ := List.exists_mem_of_ne_nil _ hne
      have hkey := congrFun h.content (key item)
      exact (lookup_eq_none key).mp hkey.symm item hmem rfl
    · intro h
      rw [show stlDataColArray = [] from h]
      exact ⟨rfl, rfl⟩

theorem hasInteraction_eq (interactionArray : List α) (type : κ) :
    hasInteraction key interactionArray type = (lookup key interactionArray type).isSome := by
  rw [Bool.eq_iff_iff]
  simp [hasInteraction, lookup]

theorem interaction_refines_iff (interactionArray : List α) (op : InteractionOp κ α) :
    Refines key interactionArray (interactionCall key interactionArray op) op.toMap ↔
      InteractionOk key interactionArray op := by
  cases op with
  | addInteraction control =>
    refine iff_of_true ⟨?_, rfl⟩ trivial
    simp only [interactionCall, addInteraction, InteractionOp.toMap, MapOp.apply, hasInteraction_eq]
    split
    · rfl
    · next hnot =>
      exact (lookup_append_eq_update_iff interactionArray control).mpr (Or.inl (by simpa using hnot))
  | removeInteraction type => exact refines_remove_iff interactionArray type
  | getInteraction type findIndex => exact iff_of_true ⟨rfl, find_eq _ _⟩ trivial

/-- **Every run** of calls on the three, from any content: the arrays behave as finite maps exactly when no call adds a
scene under a name of another or a data set next to one of another name, removes what is there, reads a data set or asks
for an active scene that is there, or reads a scene that is not there at a place that is. -/
theorem registries_run_iff (key : α → κ) :
    (∀ (scene3DArray : List α) (ops : List (SceneOp κ α)),
      AllSteps (sceneStep key) (fun s op => Refines key s (sceneCall key s op) op.toMap) scene3DArray ops ↔
        AllSteps (sceneStep key) (SceneOk key) scene3DArray ops) ∧
    (∀ (stlDataColArray : List α) (ops : List (DataOp κ α)),
      AllSteps (dataStep key) (fun s op => Refines key s (dataCall key s op) op.toMap) stlDataColArray ops ↔
        AllSteps (dataStep key) (DataOk key) stlDataColArray ops) ∧
    (∀ (interactionArray : List α) (ops : List (InteractionOp κ α)),
      AllSteps (interactionStep key) (fun s op => Refines key s (interactionCall key s op) op.toMap)
          interactionArray ops ↔
        AllSteps (interactionStep key) (InteractionOk key) interactionArray ops) :=
  ⟨allSteps_congr scene_refines_iff, allSteps_congr data_refines_iff, allSteps_congr interaction_refines_iff⟩

/-- A scene is added and removed again; the second of two data sets is added; an interaction is added and removed. -/
theorem added_objects_stay_or_go :
    ¬ AllSteps (sceneStep id) (fun s op => Refines id s (sceneCall id s op) op.toMap) []
        [SceneOp.addScene3D 0, .removeScene3D 0] ∧
      ¬ AllSteps (dataStep id) (fun s op => Refines id s (dataCall id s op) op.toMap) []
        [DataOp.addMaxDataCollection 0, .addMaxDataCollection 1] ∧
      ¬ AllSteps (interactionStep id) (fun s op => Refines id s (interactionCall id s op) op.toMap) []
        [InteractionOp.addInteraction 0, .removeInteraction 0] := by
  refine ⟨?_, ?_, ?_⟩
  · rw [allSteps_congr scene_refines_iff]
    rintro ⟨-, h, -⟩
    exact absurd (show lookup id [0] 0 = none from h) (by decide)
  · rw [allSteps_congr data_refines_iff]
    rintro ⟨-, h, -⟩
    exact absurd (h 0 (List.mem_singleton_self 0)) (by decide)
  · rw [allSteps_congr interaction_refines_iff]
    rintro ⟨-, h, -⟩
    exact absurd (show lookup id [0] 0 = none from h) (by decide)

end Refinement

end Cxsw.Registry
