import ArmyRs.Storage.RedisHash
import ArmyRs.Foundation.Transition

/-!
# Versions of a Redis hash

A script writes only with versions that are larger than the stored ones.  Calls
that have read the same version ask for the same one, so after the first of them
has written the version is too large for the others, and it never becomes
smaller.

This needs that nothing but the scripts for an hkey sets its version.  The hkeys
and the version fields share one hash, and an hkey may end like a version field;
`Apart` excludes this for the hkeys in use.  In every run over such hkeys each
step either leaves the hash alone or is the write of a call whose fields nobody
has written since it has read them (`serial_of_run`).
-/

namespace ArmyRs
namespace Storage
namespace RedisHash

open Foundation

/-! ## What a step may write -/

/-- No hkey is the version field of another one. -/
def Apart (keys : Set String) : Prop :=
  ∀ k ∈ keys, ∀ other ∈ keys, k ≠ versionKey other

section

variable {ι Data : Type*}

/-- Calls are started for these hkeys only. -/
def Uses (keys : Set String) : World ι Data → Event ι Data → Prop
  | _, .start _ op => ∀ k ∈ op.hkeys, k ∈ keys
  | _, _ => True

/-- The stored version of an hkey. -/
def World.version (config : Config Data) (w : World ι Data) (k : String) : ℚ :=
  oldVersion config.readings (w.hash (versionKey k))

/-- The event is the script of the call and has written: the versions increase,
and what it replaces is what the call has read, with no write in between. -/
structure Writes (config : Config Data) (w : World ι Data) (event : Event ι Data)
    (w' : World ι Data) (c : ι) (call : Call Data) : Prop where
  event : event = .script c
  before : w.calls c = some call
  after : w'.calls c = some { call with stage := .unlocking, outcome := .written }
  writes : w'.writes = w.writes ++ [call.op.hkeys]
  increases : ∀ k ∈ call.op.hkeys, w.version config k < w'.version config k
  alone : ∀ k ∈ call.op.hkeys, ∀ hkeys ∈ w.writes.drop call.since, k ∉ hkeys
  unchanged : ∀ k ∈ call.op.hkeys,
    w.hash k = call.read k ∧ w.hash (versionKey k) = call.read (versionKey k)
  frame : ∀ field, field ∉ call.op.hkeys → (∀ k ∈ call.op.hkeys, field ≠ versionKey k) →
    w'.hash field = w.hash field

/-- Nothing is written, and no call has newly succeeded. -/
structure Keeps (w w' : World ι Data) : Prop where
  hash : w'.hash = w.hash
  writes : w'.writes = w.writes
  outcome : ∀ c call', w'.calls c = some call' → call'.outcome = .written →
    ∃ call, w.calls c = some call ∧ call.outcome = .written

/-- A step that writes at most as one call, on top of what this call has read. -/
def Serial (config : Config Data) (w : World ι Data) (event : Event ι Data)
    (w' : World ι Data) : Prop :=
  Keeps w w' ∨ ∃ c call, Writes config w event w' c call

end

/-! ## Scripts -/

section

variable {Data : Type*} {readings : Readings Data} {hash hash' : Hash Data}
  {entries : List (String × Value Data)} {field : String}

theorem hmset_append (hash : Hash Data) (entries others : List (String × Value Data)) :
    hash.hmset (entries ++ others) = (hash.hmset entries).hmset others :=
  List.foldl_append

theorem hmset_of_notMem (hash : Hash Data) (h : field ∉ entries.map Prod.fst) :
    hash.hmset entries field = hash field := by
  induction entries generalizing hash with
  | nil => rfl
  | cons entry entries ih =>
      rw [List.map_cons, List.mem_cons, not_or] at h
      show Hash.hmset (Function.update hash entry.1 (some entry.2)) entries field = hash field
      rw [ih _ h.2, Function.update_of_ne h.1]

/-- A field that is set to one value only. -/
theorem hmset_of_mem (hash : Hash Data) {value : Value Data} (h : field ∈ entries.map Prod.fst)
    (hvalue : ∀ entry ∈ entries, entry.1 = field → entry.2 = value) :
    hash.hmset entries field = some value := by
  induction entries generalizing hash with
  | nil => cases h
  | cons entry entries ih =>
      show Hash.hmset (Function.update hash entry.1 (some entry.2)) entries field = some value
      by_cases hlater : field ∈ entries.map Prod.fst
      · exact ih _ hlater fun later hmem => hvalue later (List.mem_cons_of_mem _ hmem)
      · have hfirst : entry.1 = field := by
          rw [List.map_cons, List.mem_cons] at h
          exact (h.resolve_right hlater).symm
        rw [hmset_of_notMem _ hlater, ← hfirst, Function.update_self,
          hvalue entry List.mem_cons_self hfirst]

theorem versionKey_injective : Function.Injective versionKey :=
  fun _ _ h => (String.append_left_inj _).mp h

/-- What the three scripts have in common: every version they come with is larger
than the stored one and takes its place, and the other fields stay. -/
structure Checked (readings : Readings Data) (call : Call Data) (hash hash' : Hash Data) :
    Prop where
  newer : ∀ k ∈ call.op.hkeys, oldVersion readings (hash (versionKey k)) <
    newVersion readings (call.read (versionKey k))
  stored : ∀ k ∈ call.op.hkeys, versionKey k ∉ call.op.hkeys →
    hash' (versionKey k) = some (.number (newVersion readings (call.read (versionKey k))))
  frame : ∀ field, field ∉ call.op.hkeys → (∀ k ∈ call.op.hkeys, field ≠ versionKey k) →
    hash' field = hash field

theorem checked_hset {call : Call Data} {hkey : String} {val : Data} (hop : call.op = .hset hkey)
    (h : hsetScript readings hash hkey val (newVersion readings (call.read (versionKey hkey))) =
      some hash') : Checked readings call hash hash' := by
  unfold hsetScript at h
  split at h
  · next hnewer =>
    cases h
    constructor
    · intro k hk
      rw [hop, Op.hkeys, List.mem_singleton] at hk
      rw [hk]
      exact hnewer
    · intro k hk _
      rw [hop, Op.hkeys, List.mem_singleton] at hk
      rw [hk]
      show Function.update (Function.update hash hkey _) (versionKey hkey) _ (versionKey hkey) = _
      rw [Function.update_self]
    · intro field hfield hversion
      rw [hop] at hfield hversion
      apply hmset_of_notMem
      rintro (hmem : field ∈ [hkey, versionKey hkey])
      rcases List.mem_cons.mp hmem with rfl | hmem
      · exact hfield List.mem_cons_self
      · exact hversion hkey List.mem_cons_self (List.mem_singleton.mp hmem)
  · cases h

theorem checked_hdel {call : Call Data} {hkey : String} (hop : call.op = .hdel hkey)
    (h : hdelScript readings hash hkey (newVersion readings (call.read (versionKey hkey))) =
      some hash') : Checked readings call hash hash' := by
  unfold hdelScript at h
  split at h
  · next hnewer =>
    cases h
    constructor
    · intro k hk
      rw [hop, Op.hkeys, List.mem_singleton] at hk
      rw [hk]
      exact hnewer
    · intro k hk hapart
      rw [hop, Op.hkeys, List.mem_singleton] at hk hapart
      rw [hk] at hapart ⊢
      rw [Function.update_of_ne hapart]
      show Function.update hash (versionKey hkey) _ (versionKey hkey) = _
      rw [Function.update_self]
    · intro field hfield hversion
      rw [hop, Op.hkeys, List.mem_singleton] at hfield
      rw [hop] at hversion
      rw [Function.update_of_ne hfield]
      apply hmset_of_notMem
      rintro (hmem : field ∈ [versionKey hkey])
      exact hversion hkey List.mem_cons_self (List.mem_singleton.mp hmem)
  · cases h

/-- The data come after the versions, so a version stays unless its field is an
hkey too. -/
theorem checked_hmset {call : Call Data} {hkeys : List String} {vals : List Data}
    (hop : call.op = .hmset hkeys)
    (h : hmsetScript readings hash
      (hkeys.map fun k => (versionKey k, newVersion readings (call.read (versionKey k))))
      (hkeys.zip vals) = some hash') : Checked readings call hash hash' := by
  have hdata : ∀ field, field ∉ hkeys → field ∉
      ((hkeys.zip vals).map fun entry => (entry.1, (Value.data entry.2))).map Prod.fst := by
    intro field hfield hmem
    simp only [List.map_map, List.mem_map, Function.comp_apply] at hmem
    obtain ⟨entry, hentry, rfl⟩ := hmem
    exact hfield (List.of_mem_zip hentry).1
  unfold hmsetScript at h
  split at h
  · next hnewer =>
    cases h
    rw [List.all_eq_true] at hnewer
    constructor
    · intro k hk
      rw [hop] at hk
      have hentry := hnewer (versionKey k, newVersion readings (call.read (versionKey k)))
        (List.mem_map.mpr ⟨k, hk, rfl⟩)
      exact of_decide_eq_true hentry
    · intro k hk hapart
      rw [hop] at hk hapart
      rw [hmset_append, hmset_of_notMem _ (hdata _ hapart)]
      apply hmset_of_mem
      · simp only [List.map_map, List.mem_map, Function.comp_apply]
        exact ⟨k, hk, rfl⟩
      · -- equal version fields come with equal versions
        intro entry hentry hfield
        simp only [List.map_map, List.mem_map, Function.comp_apply] at hentry
        obtain ⟨other, -, rfl⟩ := hentry
        dsimp only at hfield ⊢
        rw [hfield]
    · intro field hfield hversion
      rw [hop] at hfield hversion
      rw [hmset_append, hmset_of_notMem _ (hdata _ hfield)]
      apply hmset_of_notMem
      simp only [List.map_map, List.mem_map, Function.comp_apply, not_exists, not_and]
      exact fun k hk heq => hversion k hk heq.symm
  · cases h

theorem checked_of_runScript {call : Call Data} {vals : List Data}
    (h : runScript readings hash call vals = some hash') : Checked readings call hash hash' := by
  unfold runScript at h
  cases hop : call.op with
  | hset hkey =>
      cases vals with
      | nil =>
          rw [hop] at h
          cases h
      | cons val vals =>
          rw [hop] at h
          exact checked_hset hop h
  | hmset hkeys =>
      rw [hop] at h
      exact checked_hmset hop h
  | hdel hkey =>
      rw [hop] at h
      exact checked_hdel hop h

end

/-! ## Steps -/

section

variable {ι Data : Type*} {config : Config Data} {keys : Set String}
  {w w' : World ι Data} {event : Event ι Data} {c : ι} {call call' : Call Data}

/-- The call has just read the fields. -/
def Fresh (w : World ι Data) (call : Call Data) : Prop :=
  call.read = w.hash ∧ call.since = w.writes.length

/-- A call that starts, or one that goes on with what it has read or with what it
reads now. -/
def From (w : World ι Data) (event : Event ι Data) (c : ι) (call' : Call Data) : Prop :=
  event = .start c call'.op ∧ Fresh w call' ∧ call'.outcome = .pending ∨
  ∃ call, w.calls c = some call ∧ call'.op = call.op ∧
    (call'.outcome = .written → call.outcome = .written) ∧
    (call'.read = call.read ∧ call'.since = call.since ∨ Fresh w call')

/-- A step that writes nothing. -/
structure Moves (w : World ι Data) (event : Event ι Data) (w' : World ι Data) : Prop where
  hash : w'.hash = w.hash
  writes : w'.writes = w.writes
  calls : ∀ c call', w'.calls c = some call' → From w event c call'

theorem From.refl (hcall : w.calls c = some call) : From w event c call :=
  .inr ⟨call, hcall, rfl, id, .inl ⟨rfl, rfl⟩⟩

theorem moves_of_calls (hhash : w'.hash = w.hash) (hwrites : w'.writes = w.writes)
    (hcalls : w'.calls = w.calls) : Moves w event w' := by
  refine ⟨hhash, hwrites, fun c call' hcall' => .refl ?_⟩
  rw [← hcall', hcalls]

variable [DecidableEq ι]

theorem moves_of_update (hhash : w'.hash = w.hash) (hwrites : w'.writes = w.writes)
    (hcalls : w'.calls = Function.update w.calls c (some call')) (hfrom : From w event c call') :
    Moves w event w' := by
  refine ⟨hhash, hwrites, ?_⟩
  intro d call'' hcall''
  rw [hcalls] at hcall''
  by_cases hd : d = c
  · subst hd
    rw [Function.update_self] at hcall''
    cases hcall''
    exact hfrom
  · rw [Function.update_of_ne hd] at hcall''
    exact .refl hcall''

/-- Going on with the same fields. -/
theorem moves_setCall (hcall : w.calls c = some call) (hop : call'.op = call.op)
    (hread : call'.read = call.read ∧ call'.since = call.since ∨ Fresh w call')
    (houtcome : call'.outcome = .written → call.outcome = .written) :
    Moves w event (w.setCall c call') :=
  moves_of_update rfl rfl rfl (.inr ⟨call, hcall, hop, houtcome, hread⟩)

theorem moves_checkLock (hcall : w.calls c = some call) (hop : call'.op = call.op)
    (hread : call'.read = call.read ∧ call'.since = call.since ∨ Fresh w call')
    (houtcome : call'.outcome = .written → call.outcome = .written) (vals : List Data) :
    Moves w event (checkLock config w c call' vals) := by
  unfold checkLock
  dsimp only
  split
  · exact moves_setCall hcall hop hread nofun
  · exact moves_setCall hcall hop hread houtcome

theorem moves_tryLock (hcall : w.calls c = some call) {try_ : Nat}
    (h : tryLock config w c call try_ = some w') : Moves w event w' := by
  unfold tryLock at h
  obtain ⟨result, -, rfl⟩ := Option.map_eq_some_iff.mp h
  cases result.2 with
  | trying try_ => exact moves_of_update rfl rfl rfl (.inr ⟨call, hcall, rfl, id, .inl ⟨rfl, rfl⟩⟩)
  | acquired => exact moves_of_update rfl rfl rfl (.inr ⟨call, hcall, rfl, id, .inl ⟨rfl, rfl⟩⟩)
  | raised => exact moves_of_update rfl rfl rfl (.inr ⟨call, hcall, rfl, nofun, .inl ⟨rfl, rfl⟩⟩)

theorem moves_read (hcall : w.calls c = some call) : Moves w event (read config w c call) := by
  unfold read
  dsimp only
  split
  · exact moves_setCall hcall rfl (.inr ⟨rfl, rfl⟩) id
  · split
    · exact moves_setCall hcall rfl (.inr ⟨rfl, rfl⟩) nofun
    · split
      · exact moves_setCall hcall rfl (.inr ⟨rfl, rfl⟩) id
      · exact moves_setCall hcall rfl (.inr ⟨rfl, rfl⟩) nofun
  · apply moves_checkLock hcall
    · rfl
    · exact .inr ⟨rfl, rfl⟩
    · exact id

theorem moves_finishBlock (hcall : w.calls c = some call) {vals : Option (List Data)}
    (h : finishBlock config w c call vals = some w') : Moves w event w' := by
  unfold finishBlock at h
  split at h
  · cases h
    exact moves_setCall hcall rfl (.inl ⟨rfl, rfl⟩) nofun
  · split at h
    · split at h
      · cases h
        exact moves_setCall hcall rfl (.inl ⟨rfl, rfl⟩) nofun
      · cases h
        exact moves_checkLock hcall rfl (.inl ⟨rfl, rfl⟩) id _
      · cases h
    · split at h
      · cases h
        exact moves_setCall hcall rfl (.inl ⟨rfl, rfl⟩) id
      · cases h
        exact moves_setCall hcall rfl (.inl ⟨rfl, rfl⟩) nofun
    · cases h

/-- A script that does not write leaves the block only. -/
theorem script_cases (config : Config Data) (hcall : w.calls c = some call) (vals : List Data) :
    Moves w event (script config w c call vals) ∨
    ∃ hash, runScript config.readings w.hash call vals = some hash ∧
      script config w c call vals =
        leave { w with hash := hash, writes := w.writes ++ [call.op.hkeys] } c call .written := by
  unfold script
  split
  · exact .inl (moves_setCall hcall rfl (.inl ⟨rfl, rfl⟩) nofun)
  · split
    · left
      apply moves_setCall hcall
      · rfl
      · exact .inl ⟨rfl, rfl⟩
      · cases call.op <;> exact nofun
    · next hash hrun => exact .inr ⟨hash, hrun, rfl⟩

/-- What a step can do to the hash: nothing, or what a script writes. -/
theorem step_cases (h : step config w event = some w') :
    Moves w event w' ∨
    ∃ c call vals hash, event = .script c ∧ w.calls c = some call ∧
      runScript config.readings w.hash call vals = some hash ∧
      w' = leave { w with hash := hash, writes := w.writes ++ [call.op.hkeys] } c call
        .written := by
  cases event with
  | tick elapsed =>
      cases h
      exact .inl (moves_of_calls rfl rfl rfl)
  | start c op =>
      simp only [step] at h
      split at h
      · cases h
        exact .inl (moves_of_update rfl rfl rfl (.inl ⟨rfl, ⟨rfl, rfl⟩, rfl⟩))
      · cases h
  | trylock c =>
      simp only [step] at h
      split at h
      · next call hcall =>
        split at h
        · exact .inl (moves_tryLock hcall h)
        · cases h
      · cases h
  | read c =>
      simp only [step] at h
      split at h
      · next call hcall =>
        split at h
        · cases h
          exact .inl (moves_read hcall)
        · cases h
      · cases h
  | finishBlock c vals =>
      simp only [step] at h
      split at h
      · next call hcall =>
        split at h
        · exact .inl (moves_finishBlock hcall h)
        · cases h
      · cases h
  | script c =>
      simp only [step] at h
      split at h
      · next call hcall =>
        split at h
        · next vals _ =>
          cases h
          rcases script_cases config hcall vals with hmoves | ⟨hash, hrun, hwritten⟩
          · exact .inl hmoves
          · exact .inr ⟨c, call, vals, hash, rfl, hcall, hrun, hwritten⟩
        · cases h
      · cases h
  | unlock c =>
      simp only [step] at h
      split at h
      · next call hcall =>
        split at h
        · cases h
          left
          exact moves_of_update rfl rfl rfl (.inr ⟨call, hcall, rfl, id, .inl ⟨rfl, rfl⟩⟩)
        · cases h
      · cases h

end

/-! ## The invariant -/

section

variable {ι Data : Type*} {config : Config Data} {keys : Set String}
  {w w' : World ι Data} {event : Event ι Data} {c : ι} {call call' : Call Data} {k : String}

/-- Nobody has written the hkey since the call has read it. -/
structure Untouched (w : World ι Data) (call : Call Data) (k : String) : Prop where
  data : w.hash k = call.read k
  version : w.hash (versionKey k) = call.read (versionKey k)
  alone : ∀ hkeys ∈ w.writes.drop call.since, k ∉ hkeys

/-- What a call has read is as it was, or the stored version has reached the one
that the call asks for. -/
structure Based (keys : Set String) (config : Config Data) (w : World ι Data)
    (call : Call Data) : Prop where
  keys : ∀ k ∈ call.op.hkeys, k ∈ keys
  since : call.since ≤ w.writes.length
  current : ∀ k ∈ call.op.hkeys, Untouched w call k ∨
    newVersion config.readings (call.read (versionKey k)) ≤ w.version config k

/-- What every run over these hkeys keeps. -/
def Good (keys : Set String) (config : Config Data) (w : World ι Data) : Prop :=
  ∀ c call, w.calls c = some call → Based keys config w call

/-- Only the hkeys and the reading of a call matter. -/
theorem Based.congr (based : Based keys config w call) (hop : call'.op = call.op)
    (hread : call'.read = call.read) (hsince : call'.since = call.since) :
    Based keys config w call' := by
  constructor
  · rw [hop]
    exact based.keys
  · rw [hsince]
    exact based.since
  · intro k hk
    rw [hop] at hk
    rw [hread]
    rcases based.current k hk with huntouched | hreached
    · left
      constructor
      · rw [hread]
        exact huntouched.data
      · rw [hread]
        exact huntouched.version
      · rw [hsince]
        exact huntouched.alone
    · exact .inr hreached

/-- Steps that write nothing. -/
theorem Based.moves (based : Based keys config w call) (hhash : w'.hash = w.hash)
    (hwrites : w'.writes = w.writes) : Based keys config w' call := by
  constructor
  · exact based.keys
  · rw [hwrites]
    exact based.since
  · intro k hk
    unfold World.version
    rw [hhash]
    rcases based.current k hk with huntouched | hreached
    · left
      constructor
      · rw [hhash]
        exact huntouched.data
      · rw [hhash]
        exact huntouched.version
      · rw [hwrites]
        exact huntouched.alone
    · exact .inr hreached

/-- A call that reads now has read what is there. -/
theorem based_of_fresh (hkeys : ∀ k ∈ call.op.hkeys, k ∈ keys) (hfresh : Fresh w call) :
    Based keys config w call := by
  obtain ⟨hread, hsince⟩ := hfresh
  constructor
  · exact hkeys
  · exact hsince.le
  · intro k _
    left
    constructor
    · rw [hread]
    · rw [hread]
    · rw [hsince, List.drop_length]
      exact fun hkeys hmem => absurd hmem List.not_mem_nil

theorem Good.moves (good : Good keys config w) (huses : Uses keys w event)
    (moves : Moves w event w') : Good keys config w' := by
  intro c call' hcall'
  have hbased : Based keys config w call' := by
    rcases moves.calls c call' hcall' with ⟨hevent, hfresh, -⟩ | ⟨call, hcall, hop, -, hread⟩
    · rw [hevent] at huses
      exact based_of_fresh huses hfresh
    · have based := good c call hcall
      rcases hread with ⟨hread, hsince⟩ | hfresh
      · exact based.congr hop hread hsince
      · have hkeys := based.keys
        rw [← hop] at hkeys
        exact based_of_fresh hkeys hfresh
  exact hbased.moves moves.hash moves.writes

/-- A step that writes nothing makes no call succeed. -/
theorem Moves.keeps (moves : Moves w event w') : Keeps w w' := by
  refine ⟨moves.hash, moves.writes, ?_⟩
  intro c call' hcall' hwritten
  rcases moves.calls c call' hcall' with ⟨-, -, hpending⟩ | ⟨call, hcall, -, houtcome, -⟩
  · rw [hpending] at hwritten
    cases hwritten
  · exact ⟨call, hcall, houtcome hwritten⟩

/-! ## Writing -/

variable {hash : Hash Data}

/-- A version that has reached that of the call is too large for its script. -/
theorem untouched_of_newer (based : Based keys config w call)
    (checked : Checked config.readings call w.hash hash) (hk : k ∈ call.op.hkeys) :
    Untouched w call k := by
  rcases based.current k hk with huntouched | hreached
  · exact huntouched
  · exact absurd (checked.newer k hk) (not_lt.mpr hreached)

variable [DecidableEq ι]

/-- The state after the script of a call has written. -/
def World.wrote (w : World ι Data) (c : ι) (call : Call Data) (hash : Hash Data) : World ι Data :=
  leave { w with hash := hash, writes := w.writes ++ [call.op.hkeys] } c call .written

/-- A written hkey has the version of the call. -/
theorem version_wrote_eq (hapart : Apart keys) (based : Based keys config w call)
    (checked : Checked config.readings call w.hash hash) (hk : k ∈ call.op.hkeys) :
    (w.wrote c call hash).version config k =
      newVersion config.readings (call.read (versionKey k)) := by
  have hfield : versionKey k ∉ call.op.hkeys :=
    fun hmem => hapart _ (based.keys _ hmem) k (based.keys k hk) rfl
  show oldVersion config.readings (hash (versionKey k)) = _
  rw [checked.stored k hk hfield]
  rfl

/-- The version of a written hkey increases. -/
theorem version_wrote_lt (hapart : Apart keys) (based : Based keys config w call)
    (checked : Checked config.readings call w.hash hash) (hk : k ∈ call.op.hkeys) :
    w.version config k < (w.wrote c call hash).version config k := by
  rw [version_wrote_eq hapart based checked hk]
  exact checked.newer k hk

omit [DecidableEq ι] in
/-- Another hkey keeps its fields. -/
theorem Checked.other (checked : Checked config.readings call w.hash hash) (hapart : Apart keys)
    (hkeys : ∀ k ∈ call.op.hkeys, k ∈ keys) (hk : k ∈ keys) (hother : k ∉ call.op.hkeys) :
    hash k = w.hash k ∧ hash (versionKey k) = w.hash (versionKey k) := by
  constructor
  · exact checked.frame k hother fun other hmem => hapart k hk other (hkeys other hmem)
  · apply checked.frame
    · exact fun hmem => hapart _ (hkeys _ hmem) k hk rfl
    · intro other hmem heq
      rw [versionKey_injective heq] at hother
      exact hother hmem

theorem writes_wrote (hapart : Apart keys) (good : Good keys config w)
    (hcall : w.calls c = some call) (checked : Checked config.readings call w.hash hash) :
    Writes config w (.script c) (w.wrote c call hash) c call := by
  have based := good c call hcall
  constructor
  · rfl
  · exact hcall
  · exact Function.update_self c _ w.calls
  · rfl
  · exact fun k hk => version_wrote_lt hapart based checked hk
  · exact fun k hk => (untouched_of_newer based checked hk).alone
  · intro k hk
    have huntouched := untouched_of_newer based checked hk
    exact ⟨huntouched.data, huntouched.version⟩
  · exact checked.frame

/-- A call that has read a written hkey is behind now, any other is not touched. -/
theorem Based.wrote (other : Based keys config w call') (hapart : Apart keys)
    (based : Based keys config w call) (checked : Checked config.readings call w.hash hash) :
    Based keys config (w.wrote c call hash) call' := by
  constructor
  · exact other.keys
  · show call'.since ≤ (w.writes ++ [call.op.hkeys]).length
    rw [List.length_append]
    exact Nat.le_add_right_of_le other.since
  · intro k hk
    by_cases hmem : k ∈ call.op.hkeys
    · right
      rcases other.current k hk with huntouched | hreached
      · -- both calls have read the version that is replaced
        have hsame := (untouched_of_newer based checked hmem).version
        rw [version_wrote_eq hapart based checked hmem, ← huntouched.version, ← hsame]
      · exact hreached.trans (version_wrote_lt hapart based checked hmem).le
    · obtain ⟨hdata, hversion⟩ := checked.other hapart based.keys (other.keys k hk) hmem
      rcases other.current k hk with huntouched | hreached
      · left
        constructor
        · exact hdata.trans huntouched.data
        · exact hversion.trans huntouched.version
        · intro hkeys hwritten
          replace hwritten : hkeys ∈ (w.writes ++ [call.op.hkeys]).drop call'.since := hwritten
          rw [List.drop_append_of_le_length other.since, List.mem_append,
            List.mem_singleton] at hwritten
          rcases hwritten with hearlier | rfl
          · exact huntouched.alone hkeys hearlier
          · exact hmem
      · right
        show _ ≤ oldVersion config.readings (hash (versionKey k))
        rw [hversion]
        exact hreached

theorem Good.wrote (good : Good keys config w) (hapart : Apart keys)
    (hcall : w.calls c = some call) (checked : Checked config.readings call w.hash hash) :
    Good keys config (w.wrote c call hash) := by
  have based := good c call hcall
  intro d call' hcall'
  by_cases hd : d = c
  · subst hd
    have hafter : (w.wrote d call hash).calls d = _ := Function.update_self d _ w.calls
    rw [hafter] at hcall'
    cases hcall'
    exact (based.wrote hapart based checked).congr rfl rfl rfl
  · have hsame : (w.wrote c call hash).calls d = w.calls d := Function.update_of_ne hd _ _
    rw [hsame] at hcall'
    exact (good d call' hcall').wrote hapart based checked

/-! ## Runs -/

theorem good_step (hapart : Apart keys) (good : Good keys config w) (huses : Uses keys w event)
    (hstep : step config w event = some w') : Good keys config w' := by
  rcases step_cases hstep with moves | ⟨c, call, vals, hash, rfl, hcall, hrun, rfl⟩
  · exact good.moves huses moves
  · exact good.wrote hapart hcall (checked_of_runScript hrun)

theorem good_run (hapart : Apart keys) {lockKeys : String → Option Nat} {clock : Nat}
    {events : List (Event ι Data)}
    (hrun : Run (step config) (Uses keys) (initial lockKeys clock hash) events w) :
    Good keys config w :=
  hrun.invariant nofun fun _ _ _ good huses hstep => good_step hapart good huses hstep

/-- In every run over hkeys that are no version fields, a step writes at most as
one call, whose fields nobody has written since it has read them, and increases
their versions. -/
theorem serial_of_run (hapart : Apart keys) {lockKeys : String → Option Nat} {clock : Nat}
    {events : List (Event ι Data)}
    (hrun : Run (step config) (Uses keys) (initial lockKeys clock hash) events w)
    (huses : Uses keys w event) (hstep : step config w event = some w') :
    Serial config w event w' := by
  have good := good_run hapart hrun
  rcases step_cases hstep with moves | ⟨c, call, vals, hash, rfl, hcall, hrun, rfl⟩
  · exact .inl moves.keeps
  · exact .inr ⟨c, call, writes_wrote hapart good hcall (checked_of_runScript hrun)⟩

end

/-! ## Two runs -/

/-- Dumped objects that do not read as numbers. -/
def sample (globals : Bool) : Config String :=
  { key := "h", readings := ⟨fun _ => 0, fun _ => none⟩, globals := globals }

def empty : World (Fin 4) String := initial (fun _ => none) 0 fun _ => none

/-- A call that nobody disturbs. -/
def whole (c : Fin 4) (op : Op) (vals : List String) : List (Event (Fin 4) String) :=
  [.start c op, .trylock c, .read c, .finishBlock c (some vals), .script c, .unlock c]

instance {ι Data : Type*} (keys : Set String) [DecidablePred (· ∈ keys)] (w : World ι Data)
    (event : Event ι Data) : Decidable (Uses keys w event) := by
  cases event <;> unfold Uses <;> infer_instance

def letters : Set String := {k | k ∈ ["a", "b"]}

instance memLettersDecidable : DecidablePred (· ∈ letters) :=
  fun k => inferInstanceAs (Decidable (k ∈ ["a", "b"]))

/-- `hmset_with_lock` and `hset_with_lock` have read the same version. -/
def overlapping : List (Event (Fin 4) String) :=
  whole 0 (.hset "a") ["x"] ++ whole 1 (.hset "b") ["y"] ++
    [.start 2 (.hmset ["a", "b"]), .trylock 2, .read 2, .start 3 (.hset "a"), .trylock 3,
      .read 3, .finishBlock 2 (some ["x2", "y2"]), .finishBlock 3 (some ["x3"]), .script 2]

def overlappingEnd : World (Fin 4) String :=
  (exec (step (sample true)) (Uses letters) empty overlapping).getD empty

/-- The script of the second one is refused. -/
theorem serial_overlapping :
    Serial (sample true) overlappingEnd (.script 3)
      ((step (sample true) overlappingEnd (.script 3)).getD empty) := by
  have hrun : Run (step (sample true)) (Uses letters) empty overlapping overlappingEnd :=
    run_exec_getD _ (by decide +kernel)
  have hapart : Apart letters := by
    intro k hk other hother
    simp only [letters, Set.mem_ofPred_eq, List.mem_cons, List.not_mem_nil, or_false] at hk hother
    rcases hk with rfl | rfl <;> rcases hother with rfl | rfl <;> decide +kernel
  exact serial_of_run hapart hrun (by decide) (eq_some_getD empty (by decide +kernel))

/-- The first call stands in front of its script with version 2 when a third one
stores an object in the place of the version.  The lock expires, and the fourth
call starts again from version 1. -/
def clash : List (Event (Fin 4) String) :=
  whole 0 (.hset "a") ["x"] ++
    [.start 1 (.hset "a"), .trylock 1, .read 1, .finishBlock 1 (some ["w"])] ++
    whole 2 (.hset (versionKey "a")) ["y"] ++
    [.tick 10400000, .start 3 (.hset "a"), .trylock 3, .trylock 3, .trylock 3, .read 3,
      .finishBlock 3 (some ["z"]), .script 3, .unlock 3]

def clashEnd : World (Fin 4) String :=
  (exec (step (sample false)) free empty clash).getD empty

/-- An hkey that ends like a version field makes a script pass that has not seen
the last write. -/
theorem not_serial_clash :
    ¬ ∀ (events : List (Event (Fin 4) String)) (w w' : World (Fin 4) String)
        (event : Event (Fin 4) String), Run (step (sample false)) free empty events w →
      step (sample false) w event = some w' → Serial (sample false) w event w' := by
  intro h
  have hrun : Run (step (sample false)) free empty clash clashEnd :=
    run_exec_getD _ (by decide +kernel)
  have hstep := eq_some_getD empty
    (show (step (sample false) clashEnd (.script 1)).isSome = true by decide +kernel)
  rcases h _ _ _ _ hrun hstep with keeps | ⟨c, call, writes⟩
  · exact absurd keeps.writes (by decide +kernel)
  · obtain rfl : 1 = c := by
      injection writes.event
    have hop : (clashEnd.calls 1).map Call.op = some (.hset "a") := by decide +kernel
    have hsince : (clashEnd.calls 1).map Call.since = some 1 := by decide +kernel
    have hwrites : clashEnd.writes = [["a"], [versionKey "a"], ["a"]] := by decide +kernel
    rw [writes.before, Option.map_some, Option.some_inj] at hop hsince
    have halone := writes.alone "a"
    rw [hop, hsince, hwrites] at halone
    exact halone List.mem_cons_self ["a"] (by decide +kernel) List.mem_cons_self

end RedisHash
end Storage
end ArmyRs
