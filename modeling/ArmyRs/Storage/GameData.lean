import ArmyRs.Foundation.Transition

/-!
# Versioned game data

The data of a player is one Redis hash: a version, the field that stores
whatever has no field of its own, and further fields that a model loads when
they are first read.  `GameData.update` raises the version of the model in
memory and lets a Redis script write the model's fields when that version is
larger than the stored one.

`World` runs any number of models against the hash.  Besides what the program
keeps, it records where data comes from: every commit has a number, and every
model, and every field loaded into it, carries the number of the commit it was
read from or last written by.
-/

namespace ArmyRs
namespace Storage
namespace GameData

open Foundation

/-- The Redis hash of one player. -/
structure Blob (Field Data : Type*) where
  version : Nat
  model : Data
  fields : Field → Option Data

/-- A model in memory, with the fields loaded so far. -/
structure Model (Field Data : Type*) where
  version : Nat
  model : Data
  fields : Field → Option Data

/-- What a call answered. -/
inductive Reply
  | nil
  | success
  | raised
  deriving DecidableEq, Repr

section

variable {Field Data : Type*}

/-- `GameData.read`: the preloaded fields of the hash. -/
def read (blob : Blob Field Data) : Model Field Data :=
  ⟨blob.version, blob.model, fun _ => none⟩

/-- `hmset` of `breakdown_dump`: fields that are not loaded keep their stored
value. -/
def hmset (blob : Blob Field Data) (m : Model Field Data) : Blob Field Data where
  version := m.version
  model := m.model
  fields := fun field => (m.fields field).orElse fun _ => blob.fields field

/-- `UPDATE_BLOB`: writes only over a stored hash with a smaller version. -/
def updateBlob (blob : Option (Blob Field Data)) (m : Model Field Data) :
    Option (Blob Field Data) :=
  match blob with
  | none => none
  | some stored => if stored.version < m.version then some (hmset stored m) else none

end

/-- What happens to the call of the update script. -/
inductive Script
  | runs
  /-- The call fails before the script is run. -/
  | fails
  /-- The script is run and its answer is lost. -/
  | answerLost
  deriving DecidableEq, Repr

/-- The circumstances of one `GameData.update`. -/
structure Attempt where
  /-- `validate_model` accepts the model. -/
  valid : Bool := true
  /-- The game data lock of the fiber has timed out. -/
  lockTimedOut : Bool := false
  script : Script := .runs
  deriving DecidableEq, Repr

/-- A model held by some server, with the origin of its data. -/
structure Handle (Field Data : Type*) where
  model : Model Field Data
  /-- `put_to_db` has compared versions and goes on to the update. -/
  checked : Bool
  reply : Reply
  /-- The commit the model was read from or last written by. -/
  base : Nat
  /-- The commit each loaded field comes from. -/
  sources : Field → Nat
  /-- Failed attempts since then. -/
  failures : Nat

/-- The origin of what a commit wrote: the commit its model came from, the
commits its loaded fields came from, and the latest commit before it. -/
structure Write (Field : Type*) where
  base : Nat
  sources : Field → Option Nat
  latest : Nat

/-- The stored hash, the number of commits, the models in memory and the origin
of everything committed. -/
structure World (κ Field Data : Type*) where
  blob : Option (Blob Field Data)
  commits : Nat
  handles : κ → Option (Handle Field Data)
  history : List (Write Field)

/-- What the servers do. -/
inductive Event (κ Field Data : Type*)
  /-- `GameData.read` into handle `k`. -/
  | read (k : κ)
  /-- A field of the model is read for the first time. -/
  | loadField (k : κ) (field : Field)
  /-- The program changes the model. -/
  | edit (k : κ) (model : Data) (fields : Field → Data → Data)
  /-- The version check at the start of `put_to_db`. -/
  | putToDb (k : κ)
  /-- `GameData.update`, called directly or by `put_to_db`. -/
  | update (k : κ) (attempt : Attempt)

section

variable {κ Field Data : Type*} [DecidableEq κ] [DecidableEq Field]

def World.setHandle (w : World κ Field Data) (k : κ) (h : Handle Field Data) :
    World κ Field Data :=
  { w with handles := Function.update w.handles k (some h) }

/-- A freshly read model. -/
def freshHandle (w : World κ Field Data) (stored : Blob Field Data) : Handle Field Data where
  model := read stored
  checked := false
  reply := .success
  base := w.commits
  sources := fun _ => 0
  failures := 0

/-- `load_field`: a field is fetched once; a missing one stays unloaded. -/
def loadField (w : World κ Field Data) (h : Handle Field Data) (field : Field) :
    Handle Field Data :=
  match h.model.fields field with
  | some _ => h
  | none =>
      match w.blob.bind fun stored => stored.fields field with
      | none => h
      | some value =>
          { h with
            model := { h.model with fields := Function.update h.model.fields field (some value) }
            sources := Function.update h.sources field w.commits }

/-- The origin of what `h` would write now. -/
def originOf (w : World κ Field Data) (h : Handle Field Data) : Write Field where
  base := h.base
  sources := fun field => (h.model.fields field).map fun _ => h.sources field
  latest := w.commits

/-- The version of the model is raised before the script is called, and nothing
lowers it when the call does not succeed. -/
def update (w : World κ Field Data) (k : κ) (h : Handle Field Data) (attempt : Attempt) :
    World κ Field Data :=
  if attempt.valid = false then w.setHandle k { h with checked := false, reply := .nil }
  else if attempt.lockTimedOut then w.setHandle k { h with checked := false, reply := .raised }
  else
    let m := { h.model with version := h.model.version + 1 }
    let failed := { h with model := m, checked := false, reply := .raised,
                           failures := h.failures + 1 }
    match attempt.script with
    | .fails => w.setHandle k failed
    | _ =>
        match updateBlob w.blob m with
        | none => w.setHandle k failed
        | some stored =>
            { w with
              blob := some stored
              commits := w.commits + 1
              history := w.history ++ [originOf w h] }.setHandle k
              { model := m, checked := false
                reply := if attempt.script = Script.runs then .success else .raised
                base := w.commits + 1, sources := fun _ => w.commits + 1, failures := 0 }

/-- `put_to_db` reads the stored version first; a deleted record or a newer
version ends it with an error. -/
def putToDb (w : World κ Field Data) (k : κ) (h : Handle Field Data) : World κ Field Data :=
  match w.blob with
  | none => w.setHandle k { h with checked := false, reply := .raised }
  | some stored =>
      if h.model.version < stored.version then
        w.setHandle k { h with checked := false, reply := .raised }
      else w.setHandle k { h with checked := true }

def step (w : World κ Field Data) : Event κ Field Data → Option (World κ Field Data)
  | .read k => w.blob.map fun stored => w.setHandle k (freshHandle w stored)
  | .loadField k field => (w.handles k).map fun h => w.setHandle k (loadField w h field)
  | .edit k model fields =>
      (w.handles k).map fun h => w.setHandle k
        { h with model := { h.model with
            model := model
            fields := fun field => (h.model.fields field).map (fields field) } }
  | .putToDb k => (w.handles k).map fun h => putToDb w k h
  | .update k attempt => (w.handles k).map fun h => update w k h attempt

/-- A stored hash and no model in memory. -/
def initial (blob : Option (Blob Field Data)) : World κ Field Data :=
  ⟨blob, 0, fun _ => none, []⟩

end

/-- Everything committed was derived from the latest commit before it. -/
def Derived {κ Field Data : Type*} (w : World κ Field Data) : Prop :=
  ∀ write ∈ w.history, write.base = write.latest ∧
    ∀ field source, write.sources field = some source → source = write.latest

/-- An attempt after a failed one is only made when nobody has committed since
the model was read or last written. -/
def NoStaleRetry {κ Field Data : Type*} (w : World κ Field Data) :
    Event κ Field Data → Prop
  | .update k _ => ∀ h, w.handles k = some h → h.failures = 0 ∨ h.base = w.commits
  | _ => True

instance {κ Field Data : Type*} (w : World κ Field Data) (event : Event κ Field Data) :
    Decidable (NoStaleRetry w event) :=
  match event with
  | .update k _ =>
      match hk : w.handles k with
      | none => isTrue fun h hh => by rw [hk] at hh; cases hh
      | some h =>
          decidable_of_iff (h.failures = 0 ∨ h.base = w.commits)
            ⟨fun hok g hg => by rw [hk] at hg; cases hg; exact hok, fun hok => hok h hk⟩
  | .read _ => isTrue trivial
  | .loadField _ _ => isTrue trivial
  | .edit _ _ _ => isTrue trivial
  | .putToDb _ => isTrue trivial

end GameData
end Storage
end ArmyRs
