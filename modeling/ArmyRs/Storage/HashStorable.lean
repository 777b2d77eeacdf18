import Mathlib.Data.List.AList
import ArmyRs.Storage.GameData

/-!
# Models with fields of their own in the hash

A `HashStorable` dumps each field that was declared with `hash_field` into a field of
the Redis hash; the rest of its attributes goes into the default field.  A model that
is read has none of these fields yet: its accessors load one when it is first read.

`breakdown_dump` skips fields that are `nil` or hold their default.  It takes them for
fields that were not loaded, so that the hash keeps what it held for them
(`readBack_iff`).
-/

namespace ArmyRs
namespace Storage
namespace HashStorable

/-- What MessagePack packs. -/
inductive Data
  | nil
  | bool (b : Bool)
  | int (n : Int)
  | str (s : String)
  | array (items : List Data)
  | map (entries : List (String × Data))

/-- `to_hash` is defined for hashes and for `nil`. -/
def Data.hasToHash : Data → Bool
  | .nil | .map _ => true
  | _ => false

/-- Neither `nil` nor empty. -/
def Data.filled : Data → Bool
  | .nil | .array [] | .map [] => false
  | _ => true

/-- The value of an attribute.  The empty Hash is `hash []`, and the empty Array `array []`. -/
inductive Value (Obj : Type*)
  | nil
  | data (d : Data) (filled : d.filled = true)
  | hash (entries : List (String × Obj))
  | array (items : List Obj)
  | object (o : Obj)

/-- How an attribute was declared; `base` is the class given for a dynamic one. -/
inductive FieldKind (Cls : Type*)
  | plain
  | object (cls : Cls)
  | hash (cls : Cls)
  | array (cls : Cls)
  | dynamicObject (base : Cls)
  | dynamicHash (base : Cls)
  | dynamicArray (base : Cls)
  deriving DecidableEq, Repr

inductive Shape
  | hash
  | array
  | object
  deriving DecidableEq, Repr

/-- What `json_get_type` answers: the type with its class, and the default. -/
structure JsonType (Cls Obj : Type*) where
  typed : Option (Shape × Cls)
  default : Value Obj

/-- `json_get_type`.  Where it should look among the dynamic hashes it looks among the dynamic
objects. -/
def FieldKind.jsonType {Cls : Type*} (Obj : Type*) : FieldKind Cls → JsonType Cls Obj
  | .hash cls | .dynamicObject cls => ⟨some (.hash, cls), .hash []⟩
  | .array cls | .dynamicArray cls => ⟨some (.array, cls), .array []⟩
  | .object cls => ⟨some (.object, cls), .nil⟩
  | .dynamicHash _ | .plain => ⟨none, .nil⟩

/-- `dump_hash` and `load_hash`: MessagePack, compressed when it is long. -/
structure Codec (Raw : Type*) where
  dump : Data → Raw
  load : Raw → Data
  load_dump : ∀ d, load (dump d) = d

/-- A class that includes `HashStorable`, with the classes of its objects. -/
structure StoredClass (Cls Obj : Type*) where
  /-- The names given to `hash_field`. -/
  fields : AList fun _ : String => FieldKind Cls
  /-- The value that a new model has. -/
  initial : String → Value Obj
  /-- `to_hash` -/
  toHash : Obj → Data
  /-- `from_hash!` of a new object, unless it raises. -/
  fromHash : Cls → Data → Option Obj

/-- A model in memory.  A model that `create` has made reads its fields back from itself, as if
they were loaded. -/
structure Model (Obj : Type*) where
  version : Nat
  /-- What the default field stores. -/
  attributes : Data
  ivar : String → Value Obj
  loaded : String → Bool

section

variable {Cls Obj Raw : Type*}

/-- `@field == nil or @field == default` -/
def Value.unset (value default : Value Obj) : Bool :=
  match value, default with
  | .nil, _ => true
  | .hash [], .hash [] => true
  | .array [], .array [] => true
  | _, _ => false

/-- Neither `nil` nor `false`. -/
def Value.truthy : Value Obj → Bool
  | .nil | .data (.bool false) _ => false
  | _ => true

/-- The hash of each object. -/
def StoredClass.hashOf (cls : StoredClass Cls Obj) (entries : List (String × Obj)) : Data :=
  .map (entries.map fun entry => (entry.1, cls.toHash entry.2))

/-- What MessagePack packs of a value; objects are packed as their hash. -/
def StoredClass.packed (cls : StoredClass Cls Obj) : Value Obj → Data
  | .nil => .nil
  | .data d _ => d
  | .hash entries => cls.hashOf entries
  | .array items => .array (items.map cls.toHash)
  | .object o => cls.toHash o

/-- The value of what was unpacked. -/
def Value.ofData (d : Data) : Value Obj :=
  if h : d.filled = true then .data d h
  else match d with
    | .map _ => .hash []
    | .array _ => .array []
    | _ => .nil

/-- What `breakdown_dump` dumps of a value; it is taken to raise when the value is not of the
type. -/
def StoredClass.encode (cls : StoredClass Cls Obj) :
    Option (Shape × Cls) → Value Obj → Option Data
  | none, value => some (cls.packed value)
  | some (.hash, _), .hash entries => some (cls.hashOf entries)
  | some (.hash, _), .array [] => some (.map [])
  | some (.hash, _), .data (.map entries) _ =>
      if entries.all fun entry => entry.2.hasToHash then some (.map entries) else none
  | some (.array, _), .array items => some (.array (items.map cls.toHash))
  | some (.array, _), .hash [] => some (.array [])
  | some (.array, _), .data (.array items) _ =>
      if items.all Data.hasToHash then some (.array items) else none
  | some (.object, _), .object o => some (cls.toHash o)
  | some (.object, _), .hash entries => some (cls.hashOf entries)
  | some (.object, _), .data d _ => if d.hasToHash then some d else none
  | some _, _ => none

/-- What `load_field` makes of the data, unless it raises. -/
def StoredClass.decode (cls : StoredClass Cls Obj) :
    Option (Shape × Cls) → Data → Option (Value Obj)
  | none, d => some (.ofData d)
  | some (.hash, c), .map entries =>
      (entries.mapM fun entry => (cls.fromHash c entry.2).map fun o => (entry.1, o)).map .hash
  | some (.array, c), .array items => (items.mapM (cls.fromHash c)).map .array
  | some (.object, c), d => (cls.fromHash c d).map .object
  | some _, _ => none

/-- `load_field`, unless it raises. -/
def loadField (cls : StoredClass Cls Obj) (codec : Codec Raw) (blob : GameData.Blob String Raw)
    (field : String) (kind : FieldKind Cls) : Option (Value Obj) :=
  match blob.fields field with
  | none => some .nil
  | some raw => cls.decode (kind.jsonType Obj).typed (codec.load raw)

/-- The accessor of a field, unless it raises. -/
def Model.get (cls : StoredClass Cls Obj) (codec : Codec Raw) (blob : GameData.Blob String Raw)
    (m : Model Obj) (field : String) (kind : FieldKind Cls) : Option (Value Obj) :=
  if (m.ivar field).unset (kind.jsonType Obj).default && !m.loaded field then
    (loadField cls codec blob field kind).map fun value =>
      if value.truthy then value else m.ivar field
  else some (m.ivar field)

/-- What is dumped for a field; nothing when it has no value or was not loaded. -/
def Model.dumpField (cls : StoredClass Cls Obj) (codec : Codec Raw) (m : Model Obj)
    (entry : Σ _ : String, FieldKind Cls) : Option (Option Raw) :=
  if (m.ivar entry.1).unset (entry.2.jsonType Obj).default then some none
  else (cls.encode (entry.2.jsonType Obj).typed (m.ivar entry.1)).map fun d => some (codec.dump d)

/-- The loop of `breakdown_dump`, unless it raises. -/
def Model.breakdownDump (cls : StoredClass Cls Obj) (codec : Codec Raw) (m : Model Obj) :
    List (Σ _ : String, FieldKind Cls) → Option (List (String × Raw))
  | [] => some []
  | entry :: rest => do
      let raw ← m.dumpField cls codec entry
      let more ← m.breakdownDump cls codec rest
      return raw.toList.map (fun raw => (entry.1, raw)) ++ more

/-- `hmset` -/
def hmset (fields : String → Option Raw) (writes : List (String × Raw)) : String → Option Raw :=
  writes.foldl (fun fields write => Function.update fields write.1 (some write.2)) fields

/-- `GameData.update`, unless it raises. -/
def update (cls : StoredClass Cls Obj) (codec : Codec Raw) (blob : GameData.Blob String Raw)
    (m : Model Obj) : Option (GameData.Blob String Raw) :=
  let raised := { m with version := m.version + 1 }
  (raised.breakdownDump cls codec cls.fields.entries).bind fun writes =>
    if blob.version < raised.version then
      some ⟨raised.version, codec.dump raised.attributes, hmset blob.fields writes⟩
    else none

/-- `GameData.read` -/
def read (cls : StoredClass Cls Obj) (codec : Codec Raw) (blob : GameData.Blob String Raw) :
    Model Obj :=
  ⟨blob.version, codec.load blob.model, cls.initial, fun _ => false⟩

/-! ## Writing -/

variable {cls : StoredClass Cls Obj} {codec : Codec Raw} {blob blob' : GameData.Blob String Raw}
  {m : Model Obj} {field : String} {kind : FieldKind Cls}

theorem hmset_append (fields : String → Option Raw) (writes more : List (String × Raw)) :
    hmset fields (writes ++ more) = hmset (hmset fields writes) more :=
  List.foldl_append

/-- A write of one field, or none. -/
theorem hmset_toList (fields : String → Option Raw) (raw : Option Raw) (name other : String) :
    hmset fields (raw.toList.map fun raw => (name, raw)) other =
      if other = name then raw.or (fields name) else fields other := by
  cases raw with
  | none =>
      by_cases h : other = name
      · simp [hmset, h]
      · simp [hmset, h]
  | some raw =>
      by_cases h : other = name
      · simp [hmset, h]
      · simp [hmset, h]

/-- After the loop a field holds what was dumped for it, or what it held before. -/
theorem hmset_breakdownDump {entries : List (Σ _ : String, FieldKind Cls)}
    (hnodup : entries.NodupKeys) {writes : List (String × Raw)}
    (hdump : m.breakdownDump cls codec entries = some writes) (fields : String → Option Raw) :
    (∀ name ∉ entries.keys, hmset fields writes name = fields name) ∧
      ∀ entry ∈ entries, ∃ raw, m.dumpField cls codec entry = some raw ∧
        hmset fields writes entry.1 = raw.or (fields entry.1) := by
  induction entries generalizing writes fields with
  | nil =>
      cases hdump
      exact ⟨fun _ _ => rfl, fun entry h => absurd h List.not_mem_nil⟩
  | cons entry rest ih =>
      rw [List.nodupKeys_cons] at hnodup
      simp only [Model.breakdownDump, Option.bind_eq_bind, Option.bind_eq_some_iff] at hdump
      obtain ⟨raw, hraw, more, hmore, hwrites⟩ := hdump
      obtain rfl := Option.some.inj hwrites
      obtain ⟨hother, hfield⟩ :=
        ih hnodup.2 hmore (hmset fields (raw.toList.map fun raw => (entry.1, raw)))
      refine ⟨fun name hname => ?_, fun e he => ?_⟩
      · rw [List.keys_cons, List.mem_cons, not_or] at hname
        rw [hmset_append, hother name hname.2, hmset_toList, if_neg hname.1]
      · rcases List.mem_cons.mp he with rfl | hrest
        · -- no later entry writes the field again
          refine ⟨raw, hraw, ?_⟩
          rw [hmset_append, hother _ hnodup.1, hmset_toList, if_pos rfl]
        · obtain ⟨raw', hraw', hset⟩ := hfield e hrest
          refine ⟨raw', hraw', ?_⟩
          have hne : e.1 ≠ entry.1 := by
            intro heq
            exact hnodup.1 (heq ▸ List.mem_keys_of_mem hrest)
          rw [hmset_append, hset, hmset_toList, if_neg hne]

/-- What an update that does not raise leaves in a field. -/
theorem fields_update (hupdate : update cls codec blob m = some blob')
    (hkind : cls.fields.lookup field = some kind) :
    ∃ raw, m.dumpField cls codec ⟨field, kind⟩ = some raw ∧
      blob'.fields field = raw.or (blob.fields field) := by
  obtain ⟨writes, hdump, hwrite⟩ := Option.bind_eq_some_iff.mp hupdate
  rw [Option.ite_none_right_eq_some] at hwrite
  obtain ⟨-, hblob⟩ := hwrite
  obtain rfl := Option.some.inj hblob
  exact (hmset_breakdownDump cls.fields.nodupKeys hdump blob.fields).2 ⟨field, kind⟩
    (AList.mem_lookup_iff.mp hkind)

/-! ## Reading back -/

/-- A value that its dump is loaded as. -/
def Survives (cls : StoredClass Cls Obj) (kind : FieldKind Cls) (value : Value Obj) : Prop :=
  value.truthy = true ∧ ∃ d, cls.encode (kind.jsonType Obj).typed value = some d ∧
    cls.decode (kind.jsonType Obj).typed d = some value

/-- When a field is the same after it was read back. -/
structure Kept (cls : StoredClass Cls Obj) (codec : Codec Raw) (blob : GameData.Blob String Raw)
    (m : Model Obj) (field : String) (kind : FieldKind Cls) : Prop where
  /-- A value that is dumped survives. -/
  dumped : (m.ivar field).unset (kind.jsonType Obj).default = false →
    Survives cls kind (m.ivar field)
  /-- A value that is skipped is the one that the hash holds, if the model has not loaded it. -/
  held : (m.ivar field).unset (kind.jsonType Obj).default = true → m.loaded field = true →
    ∃ value, loadField cls codec blob field kind = some value ∧
      (value.truthy = true → value = m.ivar field)
  /-- Where the hash holds nothing, a new model has the value. -/
  initial : (m.ivar field).unset (kind.jsonType Obj).default = true →
    ∀ value, loadField cls codec blob field kind = some value → value.truthy = false →
      cls.initial field = m.ivar field

/-- A new model that has a value of its own never reads the field. -/
def OwnInitial (cls : StoredClass Cls Obj) (field : String) (kind : FieldKind Cls) : Prop :=
  (cls.initial field).unset (kind.jsonType Obj).default = false

theorem loadField_congr {other : GameData.Blob String Raw}
    (h : other.fields field = blob.fields field) :
    loadField cls codec other field kind = loadField cls codec blob field kind := by
  unfold loadField
  rw [h]

theorem get_read_of_ownInitial (hown : OwnInitial cls field kind) :
    (read cls codec blob').get cls codec blob' field kind = some (cls.initial field) := by
  unfold OwnInitial at hown
  simp [Model.get, read, hown]

theorem get_read (hown : ¬ OwnInitial cls field kind) :
    (read cls codec blob').get cls codec blob' field kind =
      (loadField cls codec blob' field kind).map fun value =>
        if value.truthy then value else cls.initial field := by
  unfold OwnInitial at hown
  rw [Bool.not_eq_false] at hown
  simp [Model.get, read, hown]

/-- A field that is dumped is read back when it survives. -/
theorem same_of_dumped (hupdate : update cls codec blob m = some blob')
    (hkind : cls.fields.lookup field = some kind) (hown : ¬ OwnInitial cls field kind)
    (hset : (m.ivar field).unset (kind.jsonType Obj).default = false) :
    (read cls codec blob').get cls codec blob' field kind = m.get cls codec blob field kind ↔
      Survives cls kind (m.ivar field) := by
  obtain ⟨raw, hraw, hfield⟩ := fields_update hupdate hkind
  simp only [Model.dumpField, hset, Bool.false_eq_true, if_false, Option.map_eq_some_iff] at hraw
  obtain ⟨d, hencode, rfl⟩ := hraw
  have hload : loadField cls codec blob' field kind = cls.decode (kind.jsonType Obj).typed d := by
    simp [loadField, hfield, codec.load_dump]
  have hget : m.get cls codec blob field kind = some (m.ivar field) := by simp [Model.get, hset]
  rw [get_read hown, hload, hget, Option.map_eq_some_iff]
  constructor
  · rintro ⟨value, hdecode, heq⟩
    cases htruthy : value.truthy with
    | true =>
        simp only [htruthy, if_true] at heq
        subst heq
        exact ⟨htruthy, d, hencode, hdecode⟩
    | false =>
        -- the initial value is one that would not have been dumped
        simp only [htruthy, Bool.false_eq_true, if_false] at heq
        rw [OwnInitial, heq] at hown
        exact absurd hset hown
  · rintro ⟨htruthy, d', hencode', hdecode⟩
    obtain rfl := Option.some.inj (hencode.symm.trans hencode')
    exact ⟨m.ivar field, hdecode, by simp [htruthy]⟩

theorem get_of_loaded (hloaded : m.loaded field = true) :
    m.get cls codec blob field kind = some (m.ivar field) := by
  simp [Model.get, hloaded]

theorem get_of_unloaded (hskip : (m.ivar field).unset (kind.jsonType Obj).default = true)
    (hloaded : m.loaded field = false) :
    m.get cls codec blob field kind = (loadField cls codec blob field kind).map fun value =>
      if value.truthy then value else m.ivar field := by
  simp [Model.get, hskip, hloaded]

/-- A field that was set back is read back when the hash holds nothing else for it. -/
theorem same_of_loaded (hskip : (m.ivar field).unset (kind.jsonType Obj).default = true)
    (hloaded : m.loaded field = true) :
    ((loadField cls codec blob field kind).map fun value =>
        if value.truthy then value else cls.initial field) = some (m.ivar field) ↔
      Kept cls codec blob m field kind := by
  rw [Option.map_eq_some_iff]
  constructor
  · rintro ⟨value, hvalue, heq⟩
    constructor
    · intro hset
      rw [hskip] at hset
      cases hset
    · exact fun _ _ => ⟨value, hvalue, fun htruthy => by rwa [if_pos htruthy] at heq⟩
    · intro _ other hother hfalsy
      obtain rfl := Option.some.inj (hvalue.symm.trans hother)
      rwa [hfalsy, if_neg Bool.false_ne_true] at heq
  · intro kept
    obtain ⟨value, hvalue, hsame⟩ := kept.held hskip hloaded
    refine ⟨value, hvalue, ?_⟩
    cases htruthy : value.truthy with
    | true => exact hsame htruthy
    | false => exact kept.initial hskip value hvalue htruthy

/-- A field that was not loaded is read back as the hash holds it. -/
theorem same_of_unloaded (hskip : (m.ivar field).unset (kind.jsonType Obj).default = true)
    (hloaded : m.loaded field = false) :
    ((loadField cls codec blob field kind).map fun value =>
        if value.truthy then value else cls.initial field) =
      ((loadField cls codec blob field kind).map fun value =>
        if value.truthy then value else m.ivar field) ↔
      Kept cls codec blob m field kind := by
  constructor
  · intro hsame
    constructor
    · intro hset
      rw [hskip] at hset
      cases hset
    · intro _ h
      rw [hloaded] at h
      cases h
    · intro _ value hvalue hfalsy
      simpa [hvalue, hfalsy] using hsame
  · intro kept
    refine Option.map_congr fun value hvalue => ?_
    cases htruthy : value.truthy with
    | true => rfl
    | false => simpa using kept.initial hskip value hvalue htruthy

/-- A field that is skipped is read back when the hash holds nothing else for it. -/
theorem same_of_skipped (hupdate : update cls codec blob m = some blob')
    (hkind : cls.fields.lookup field = some kind) (hown : ¬ OwnInitial cls field kind)
    (hskip : (m.ivar field).unset (kind.jsonType Obj).default = true) :
    (read cls codec blob').get cls codec blob' field kind = m.get cls codec blob field kind ↔
      Kept cls codec blob m field kind := by
  obtain ⟨raw, hraw, hfield⟩ := fields_update hupdate hkind
  simp only [Model.dumpField, hskip, if_true, Option.some.injEq] at hraw
  subst hraw
  have hload : loadField cls codec blob' field kind = loadField cls codec blob field kind :=
    loadField_congr hfield
  rw [get_read hown, hload]
  cases hloaded : m.loaded field with
  | true =>
      rw [get_of_loaded hloaded]
      exact same_of_loaded hskip hloaded
  | false =>
      rw [get_of_unloaded hskip hloaded]
      exact same_of_unloaded hskip hloaded

/-- A model that was updated and is read back has the same value in every stored field
exactly when every value that is dumped survives, and the hash holds nothing for a value
that is skipped, or that value; a class that gives a field a value of its own always
reads back that one. -/
theorem readBack_iff (hupdate : update cls codec blob m = some blob') :
    (∀ field kind, cls.fields.lookup field = some kind →
        (read cls codec blob').get cls codec blob' field kind = m.get cls codec blob field kind) ↔
      ∀ field kind, cls.fields.lookup field = some kind →
        (OwnInitial cls field kind → m.get cls codec blob field kind = some (cls.initial field)) ∧
        (¬ OwnInitial cls field kind → Kept cls codec blob m field kind) := by
  have hfield : ∀ field kind, cls.fields.lookup field = some kind →
      ((read cls codec blob').get cls codec blob' field kind = m.get cls codec blob field kind ↔
        (OwnInitial cls field kind → m.get cls codec blob field kind = some (cls.initial field)) ∧
        (¬ OwnInitial cls field kind → Kept cls codec blob m field kind)) := by
    intro field kind hkind
    by_cases hown : OwnInitial cls field kind
    · rw [get_read_of_ownInitial hown]
      exact ⟨fun h => ⟨fun _ => h.symm, fun hnot => absurd hown hnot⟩, fun h => (h.1 hown).symm⟩
    · have hiff : (read cls codec blob').get cls codec blob' field kind =
          m.get cls codec blob field kind ↔ Kept cls codec blob m field kind := by
        cases hset : (m.ivar field).unset (kind.jsonType Obj).default with
        | true => exact same_of_skipped hupdate hkind hown hset
        | false =>
            rw [same_of_dumped hupdate hkind hown hset]
            refine ⟨fun survives => ⟨fun _ => survives, fun h => ?_, fun h => ?_⟩,
              fun kept => kept.dumped hset⟩
            · rw [hset] at h
              cases h
            · rw [hset] at h
              cases h
      rw [hiff]
      exact ⟨fun kept => ⟨fun h => absurd h hown, fun _ => kept⟩, fun h => h.2 hown⟩
  constructor
  · exact fun h field kind hkind => (hfield field kind hkind).mp (h field kind hkind)
  · exact fun h field kind hkind => (hfield field kind hkind).mpr (h field kind hkind)

/-! ## Which values survive -/

theorem mapM_map_eq_some_iff {A B : Type*} {f : A → B} {g : B → Option A} {xs : List A} :
    (xs.map f).mapM g = some xs ↔ ∀ x ∈ xs, g (f x) = some x := by
  induction xs with
  | nil => simp
  | cons x rest ih =>
      simp only [List.map_cons, List.mapM_cons, Option.bind_eq_bind, Option.bind_eq_some_iff,
        List.forall_mem_cons, Option.pure_def, Option.some.injEq, List.cons.injEq]
      constructor
      · rintro ⟨y, hy, ys, hys, rfl, rfl⟩
        exact ⟨hy, ih.mp hys⟩
      · rintro ⟨hx, hrest⟩
        exact ⟨x, hx, rest, ih.mpr hrest, rfl, rfl⟩

/-- A Hash of objects survives when its objects do. -/
theorem survives_hash_iff {c : Cls} {entries : List (String × Obj)} :
    Survives cls (.hash c) (.hash entries) ↔
      ∀ entry ∈ entries, cls.fromHash c (cls.toHash entry.2) = some entry.2 := by
  have hentries : cls.decode (some (.hash, c)) (cls.hashOf entries) = some (.hash entries) ↔
      ∀ entry ∈ entries, cls.fromHash c (cls.toHash entry.2) = some entry.2 := by
    simp only [StoredClass.decode, StoredClass.hashOf, Option.map_eq_some_iff, Value.hash.injEq,
      exists_eq_right, mapM_map_eq_some_iff]
    refine forall₂_congr fun entry _ => ?_
    constructor
    · rintro ⟨o, ho, heq⟩
      rw [ho, ← heq]
    · exact fun h => ⟨entry.2, h, rfl⟩
  rw [← hentries]
  constructor
  · rintro ⟨-, d, hencode, hdecode⟩
    obtain rfl := Option.some.inj hencode
    exact hdecode
  · exact fun h => ⟨rfl, _, rfl, h⟩

/-- Plain data survives unless it is `false`. -/
theorem survives_plain_iff {d : Data} (filled : d.filled = true) :
    Survives cls .plain (.data d filled) ↔ d ≠ .bool false := by
  constructor
  · rintro ⟨htruthy, -⟩ rfl
    cases htruthy
  · intro hfalse
    have htruthy : (Value.data d filled : Value Obj).truthy = true := by
      unfold Value.truthy
      split
      · next h => cases h
      · next h => exact absurd (Value.data.inj h) hfalse
      · rfl
    have hdata : (Value.ofData d : Value Obj) = .data d filled := dif_pos filled
    exact ⟨htruthy, d, rfl, congrArg some hdata⟩

/-- The objects of a dynamic Hash are read back as their hashes. -/
theorem not_survives_dynamicHash {base : Cls} {entry : String × Obj} {rest : List (String × Obj)} :
    ¬ Survives cls (.dynamicHash base) (.hash (entry :: rest)) := by
  rintro ⟨-, d, hencode, hdecode⟩
  obtain rfl := Option.some.inj hencode
  cases hdecode

/-- A dynamic object cannot be dumped, since its type is taken to be a Hash. -/
theorem update_dynamicObject {base : Cls} {o : Obj}
    (hkind : cls.fields.lookup field = some (.dynamicObject base))
    (hvalue : m.ivar field = .object o) : update cls codec blob m = none := by
  cases hupdate : update cls codec blob m with
  | none => rfl
  | some blob' =>
      obtain ⟨raw, hraw, -⟩ := fields_update hupdate hkind
      simp [Model.dumpField, hvalue, FieldKind.jsonType, Value.unset, StoredClass.encode] at hraw

end

/-! ## The instances of a player -/

def plainCodec : Codec Data := ⟨id, id, fun _ => rfl⟩

/-- The class of the game data, with the level for an instance. -/
def gameDataModel : StoredClass Unit Nat where
  fields := AList.singleton "instances" (.hash ())
  initial _ := .nil
  toHash level := .map [("level", .int level)]
  fromHash _ d := match d with
    | .map [("level", .int level)] => some level.toNat
    | _ => none

def storedInstances : GameData.Blob String Data :=
  ⟨3, .map [], fun _ => some (.map [("001", .map [("level", .int 7)])])⟩

/-- A model whose instances were loaded, and then replaced. -/
def changedModel (instances : List (String × Nat)) : Model Nat :=
  ⟨3, .map [], fun _ => .hash instances, fun _ => true⟩

/-- What an update of it stores. -/
def updatedBlob (instances : List (String × Nat)) : GameData.Blob String Data :=
  (update gameDataModel plainCodec storedInstances (changedModel instances)).getD storedInstances

/-- One instance is replaced by another. -/
theorem readBack_changedModel :
    (∀ field kind, gameDataModel.fields.lookup field = some kind →
        (read gameDataModel plainCodec (updatedBlob [("002", 1)])).get gameDataModel plainCodec
            (updatedBlob [("002", 1)]) field kind =
          (changedModel [("002", 1)]).get gameDataModel plainCodec storedInstances field kind) ↔
      ∀ field kind, gameDataModel.fields.lookup field = some kind →
        (OwnInitial gameDataModel field kind →
          (changedModel [("002", 1)]).get gameDataModel plainCodec storedInstances field kind =
            some (gameDataModel.initial field)) ∧
        (¬ OwnInitial gameDataModel field kind →
          Kept gameDataModel plainCodec storedInstances (changedModel [("002", 1)]) field kind) :=
  readBack_iff rfl

/-- All instances are taken out, and the old one is read back. -/
theorem not_readBack_changedModel :
    ¬ ∀ field kind, gameDataModel.fields.lookup field = some kind →
      (read gameDataModel plainCodec (updatedBlob [])).get gameDataModel plainCodec
          (updatedBlob []) field kind =
        (changedModel []).get gameDataModel plainCodec storedInstances field kind := by
  intro hsame
  have hread : (read gameDataModel plainCodec (updatedBlob [])).get gameDataModel plainCodec
      (updatedBlob []) "instances" (.hash ()) = some (.hash [("001", 7)]) := by
    have hload : gameDataModel.decode (some (.hash, ()))
        (.map [("001", .map [("level", .int 7)])]) = some (.hash [("001", 7)]) := by
      simp [StoredClass.decode, gameDataModel]
    have hown : ¬ OwnInitial gameDataModel "instances" (.hash ()) := by
      simp [OwnInitial, gameDataModel, FieldKind.jsonType, Value.unset]
    rw [get_read hown]
    change (gameDataModel.decode (some (.hash, ()))
      (.map [("001", .map [("level", .int 7)])])).map _ = _
    rw [hload]
    rfl
  have hvalue : (changedModel []).get gameDataModel plainCodec storedInstances "instances"
      (.hash ()) = some (.hash []) := rfl
  have hequal := hsame "instances" (.hash ()) rfl
  rw [hread, hvalue] at hequal
  cases hequal

end HashStorable
end Storage
end ArmyRs
