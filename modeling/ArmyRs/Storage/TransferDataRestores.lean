import ArmyRs.Storage.TransferData

/-!
# Restored records

`redis.set` of `to_db` replaces whatever the key holds by the tag.  An update
that was committed after the dump is gone then; the script of `from_db`, which
replaces the tag only, shows how it is avoided on the way back.

`Careful` says when a step does no harm: the tag replaces a record only when the
row is the dump of it, and while the tag is there the row stays, and is what
`from_db` restores.  In a run of such steps the last committed record is never
lost (`restores_of_run`).
-/

namespace ArmyRs
namespace Storage
namespace TransferData

open Foundation

variable {ι ρ Field Data Raw : Type*}

/-- The last committed record is in Redis, or the tag is and MySQL has it. -/
def World.Retained (config : Config Field Data Raw) (w : World ι ρ Field Data Raw) : Prop :=
  ∃ blob, w.latest = some blob ∧
    (w.redis = some (.hash blob) ∨
      restorable w.redis = true ∧
        ∃ row ∈ w.row, config.codec.restore row.v = some (.hash blob))

/-- When the next command of a `to_db` does no harm to a record. -/
def CarefulToDb (config : Config Field Data Raw) (w : World ι ρ Field Data Raw) :
    Option (Stage Raw) → Prop
  | some (.update val) =>
      restorable w.redis = true → w.row.map Row.v = some (config.codec.kept val)
  | some (.set _) => restorable w.redis = true ∨ w.row.map Row.v = w.redis.map config.codec.dump
  | _ => True

/-- When the next command of a `from_db` does no harm. -/
def CarefulFromDb (w : World ι ρ Field Data Raw) : Option (FromDb Raw) → Prop
  | some (.restore val) => restorable w.redis = true → w.row.map Row.v = some val
  | _ => True

/-- A step that does no harm to a record. -/
def Careful (config : Config Field Data Raw) (w : World ι ρ Field Data Raw) :
    Event ι ρ Field Data → Prop
  | .toDb c => CarefulToDb config w ((w.toDbs c).map ToDb.stage)
  | .fromDb r => CarefulFromDb w (w.fromDbs r)
  | _ => True

instance [DecidableEq Raw] (config : Config Field Data Raw) (w : World ι ρ Field Data Raw)
    (stage : Option (Stage Raw)) : Decidable (CarefulToDb config w stage) := by
  rcases stage with _ | stage
  · exact .isTrue trivial
  · cases stage <;> unfold CarefulToDb <;> infer_instance

instance [DecidableEq Raw] (w : World ι ρ Field Data Raw) (call : Option (FromDb Raw)) :
    Decidable (CarefulFromDb w call) := by
  rcases call with _ | call
  · exact .isTrue trivial
  · cases call <;> unfold CarefulFromDb <;> infer_instance

instance [DecidableEq Raw] (config : Config Field Data Raw) (w : World ι ρ Field Data Raw)
    (event : Event ι ρ Field Data) : Decidable (Careful config w event) := by
  cases event <;> unfold Careful <;> infer_instance

/-- The commands of a `from_db` that nobody disturbs. -/
def World.readBack (w : World ι ρ Field Data Raw) (r : ρ) : List (Event ι ρ Field Data) :=
  if restorable w.redis then [.startFromDb r, .fromDb r, .fromDb r, .fromDb r]
  else [.startFromDb r, .fromDb r]

/-- A later `from_db` leaves the last committed record in Redis. -/
def Restores [DecidableEq ι] [DecidableEq ρ] [DecidableEq Raw] (config : Config Field Data Raw)
    (w : World ι ρ Field Data Raw) (r : ρ) : Prop :=
  ∃ w' blob, exec (step config) free w (w.readBack r) = some w' ∧
    w.latest = some blob ∧ w'.latest = some blob ∧ w'.redis = some (.hash blob)

/-! ## Steps -/

section

variable {config : Config Field Data Raw} {w w' : World ι ρ Field Data Raw}

theorem restorable_iff {redis : Option (Value Field Data)} :
    restorable redis = true ↔ redis = some (.string backupTag) := by
  constructor
  · intro h
    unfold restorable at h
    split at h
    · rw [beq_iff_eq.mp h]
    · cases h
  · rintro rfl
    rfl

/-- Only the record, the row and the last commit matter. -/
theorem World.Retained.congr (retained : w.Retained config) (hredis : w'.redis = w.redis)
    (hrow : w'.row = w.row) (hlatest : w'.latest = w.latest) : w'.Retained config := by
  unfold World.Retained
  rw [hredis, hrow, hlatest]
  exact retained

/-- A committed update is the new record. -/
theorem retained_update (retained : w.Retained config) (m : GameData.Model Field Data) :
    (update w m).Retained config := by
  unfold update
  split
  · split
    · next blob _ => exact ⟨blob, rfl, .inl rfl⟩
    · exact retained
  · exact retained

/-- A row may be written as long as the record is in Redis, or when it is the
same again. -/
theorem World.Retained.write (retained : w.Retained config)
    (hsame : restorable w.redis = true → w'.row.map Row.v = w.row.map Row.v)
    (hredis : w'.redis = w.redis) (hlatest : w'.latest = w.latest) : w'.Retained config := by
  obtain ⟨blob, hblob, hhash | ⟨htag, old, hold, hrestore⟩⟩ := retained
  · exact ⟨blob, hlatest.trans hblob, .inl (hredis.trans hhash)⟩
  · refine ⟨blob, hlatest.trans hblob, .inr ⟨?_, ?_⟩⟩
    · rw [hredis]
      exact htag
    · have hv := hsame htag
      rw [Option.mem_def.mp hold, Option.map_some] at hv
      obtain ⟨new, hnew, heq⟩ := Option.map_eq_some_iff.mp hv
      refine ⟨new, hnew, ?_⟩
      rw [heq]
      exact hrestore

section

variable [DecidableEq ι]

theorem retained_tryLock (retained : w.Retained config) {c : ι} {try_ : Nat}
    (h : tryLock config w c try_ = some w') : w'.Retained config := by
  unfold tryLock at h
  obtain ⟨result, -, rfl⟩ := Option.map_eq_some_iff.mp h
  cases result.2 with
  | trying try_ => exact retained.congr rfl rfl rfl
  | acquired => exact retained.congr rfl rfl rfl
  | raised => exact retained.congr rfl rfl rfl

/-- The tag takes the place of a record that the row is a dump of. -/
theorem retained_set (retained : w.Retained config) (c : ι)
    (hcareful : restorable w.redis = true ∨ w.row.map Row.v = w.redis.map config.codec.dump) :
    ({ w with redis := some (.string backupTag) }.setToDb c ⟨.unlocking, 1⟩).Retained config := by
  obtain ⟨blob, hblob, hhash | ⟨htag, hrow⟩⟩ := retained
  · have hdump : w.row.map Row.v = some (config.codec.dump (.hash blob)) := by
      rw [hhash] at hcareful
      exact hcareful.resolve_left Bool.false_ne_true
    obtain ⟨row, hrow, hv⟩ := Option.map_eq_some_iff.mp hdump
    refine ⟨blob, hblob, .inr ⟨rfl, row, hrow, ?_⟩⟩
    rw [hv]
    exact config.codec.restore_dump (.hash blob)
  · exact ⟨blob, hblob, .inr ⟨rfl, hrow⟩⟩

/-- The other way round, when a text that is restored is the dump of what comes
out: any other row loses the record. -/
theorem retained_set_iff (retained : w.Retained config) (c : ι)
    (hdump : ∀ raw value, config.codec.restore raw = some value →
      raw = config.codec.dump value) :
    ({ w with redis := some (.string backupTag) }.setToDb c ⟨.unlocking, 1⟩).Retained config ↔
      restorable w.redis = true ∨ w.row.map Row.v = w.redis.map config.codec.dump := by
  constructor
  · rintro ⟨blob, hblob, hhash | ⟨-, row, hrow, hrestore⟩⟩
    · cases hhash
    · replace hblob : w.latest = some blob := hblob
      replace hrow : w.row = some row := hrow
      obtain ⟨blob', hblob', hhash | ⟨htag, -⟩⟩ := retained
      · right
        rw [hblob] at hblob'
        cases hblob'
        rw [hhash, hrow, Option.map_some, Option.map_some, hdump row.v _ hrestore]
      · exact .inl htag
  · exact retained_set retained c

end

end

/-! ## Runs -/

section

variable [DecidableEq ι] [DecidableEq ρ] [DecidableEq Raw] {config : Config Field Data Raw}
  {w w' : World ι ρ Field Data Raw} {event : Event ι ρ Field Data}

omit [DecidableEq ρ] in
theorem retained_toDb (retained : w.Retained config) {c : ι} {call : ToDb Raw}
    (hcall : w.toDbs c = some call) (hcareful : Careful config w (.toDb c))
    (h : toDb config w c call = some w') : w'.Retained config := by
  replace hcareful : CarefulToDb config w ((w.toDbs c).map ToDb.stage) := hcareful
  rw [hcall, Option.map_some] at hcareful
  unfold toDb at h
  split at h
  · exact retained_tryLock retained h
  · split at h
    · cases h
      exact retained.congr rfl rfl rfl
    · cases h
      exact retained.congr rfl rfl rfl
  · split at h
    · cases h
      exact retained.congr rfl rfl rfl
    · cases h
      exact retained.congr rfl rfl rfl
  · split at h
    · split at h
      · cases h
        exact retained.congr rfl rfl rfl
      · cases h
        exact retained.congr rfl rfl rfl
    · cases h
      exact retained.congr rfl rfl rfl
  · next val hstage =>
    cases h
    rw [hstage] at hcareful
    apply retained.write
    · intro htag
      have hsame := hcareful htag
      obtain ⟨row, hrow, -⟩ := Option.map_eq_some_iff.mp hsame
      show (w.row.map fun row : Row Raw => { row with v := config.codec.kept val }).map Row.v = _
      rw [hsame, hrow]
      rfl
    · rfl
    · rfl
  · next val hstage =>
    split at h
    · cases h
      exact retained.congr rfl rfl rfl
    · next hnone =>
      cases h
      apply retained.write
      · -- while the tag is there, the row is
        intro htag
        obtain ⟨blob, -, hhash | ⟨-, row, hrow, -⟩⟩ := retained
        · rw [hhash] at htag
          cases htag
        · rw [Option.mem_def, hnone] at hrow
          cases hrow
      · rfl
      · rfl
  · split at h
    · cases h
      exact retained.congr rfl rfl rfl
    · cases h
      exact retained.congr rfl rfl rfl
  · next val hstage =>
    cases h
    rw [hstage] at hcareful
    exact retained_set retained c hcareful
  · cases h
    exact retained.congr rfl rfl rfl
  · cases h

omit [DecidableEq ρ] [DecidableEq Raw] in
theorem retained_raiseToDb (retained : w.Retained config) {c : ι} {call : ToDb Raw}
    (h : raiseToDb w c call = some w') : w'.Retained config := by
  unfold raiseToDb at h
  split at h
  · cases h
  · cases h
    exact retained.congr rfl rfl rfl
  · cases h
    exact retained.congr rfl rfl rfl
  · cases h
    exact retained.congr rfl rfl rfl

omit [DecidableEq ι] [DecidableEq Raw] in
/-- The row is restored as it was when the tag was set. -/
theorem retained_fromDb (retained : w.Retained config) {r : ρ} {call : FromDb Raw}
    (hcall : w.fromDbs r = some call) (hcareful : Careful config w (.fromDb r))
    (h : fromDb config w r call = some w') : w'.Retained config := by
  replace hcareful : CarefulFromDb w (w.fromDbs r) := hcareful
  rw [hcall] at hcareful
  unfold fromDb at h
  split at h
  · split at h
    · cases h
      exact retained.congr rfl rfl rfl
    · cases h
      exact retained.congr rfl rfl rfl
  · split at h
    · cases h
      exact retained.congr rfl rfl rfl
    · cases h
      exact retained.congr rfl rfl rfl
  · next val =>
    split at h
    · next htag =>
      obtain ⟨blob, hblob, hhash | ⟨-, row, hrow, hrestore⟩⟩ := retained
      · rw [hhash] at htag
        cases htag
      · have hval := hcareful htag
        rw [Option.mem_def.mp hrow, Option.map_some, Option.some_inj] at hval
        rw [← hval, hrestore] at h
        cases h
        exact ⟨blob, hblob, .inl rfl⟩
    · cases h
      exact retained.congr rfl rfl rfl
  · cases h

/-- No careful step loses the last committed record. -/
theorem retained_step (retained : w.Retained config) (hcareful : Careful config w event)
    (hstep : step config w event = some w') : w'.Retained config := by
  cases event with
  | tick elapsed =>
      cases hstep
      exact retained.congr rfl rfl rfl
  | startToDb c =>
      simp only [step] at hstep
      split at hstep
      · cases hstep
        exact retained.congr rfl rfl rfl
      · cases hstep
  | toDb c =>
      obtain ⟨call, hcall, htoDb⟩ := Option.bind_eq_some_iff.mp hstep
      exact retained_toDb retained hcall hcareful htoDb
  | raiseToDb c =>
      obtain ⟨call, -, hraise⟩ := Option.bind_eq_some_iff.mp hstep
      exact retained_raiseToDb retained hraise
  | startFromDb r =>
      simp only [step] at hstep
      split at hstep
      · cases hstep
        exact retained.congr rfl rfl rfl
      · cases hstep
  | fromDb r =>
      obtain ⟨call, hcall, hfromDb⟩ := Option.bind_eq_some_iff.mp hstep
      exact retained_fromDb retained hcall hcareful hfromDb
  | update m =>
      cases hstep
      exact retained_update retained m

/-- Whatever is retained comes back. -/
theorem World.Retained.restores (retained : w.Retained config) {r : ρ}
    (hr : w.fromDbs r = none) : Restores config w r := by
  obtain ⟨blob, hblob, hhash | ⟨htag, row, hrow, hrestore⟩⟩ := retained
  · have hfalse : restorable w.redis = false := by
      rw [hhash]
      rfl
    refine ⟨(w.setFromDb r .get).setFromDb r (.done 0), blob, ?_, hblob, hblob, hhash⟩
    simp [World.readBack, exec, free, step, fromDb, World.setFromDb, hfalse, hr]
  · rw [Option.mem_def] at hrow
    refine ⟨{ ((w.setFromDb r .get).setFromDb r .select).setFromDb r (.restore row.v) with
      redis := some (.hash blob) }.setFromDb r (.done 1), blob, ?_, hblob, hblob, rfl⟩
    simp [World.readBack, exec, free, step, fromDb, World.setFromDb, htag, hr, hrow, hrestore]

theorem retained_run {lockKey : Option Nat} {clock : Nat} {blob : GameData.Blob Field Data}
    {row : Option (Row Raw)} {events : List (Event ι ρ Field Data)}
    (hrun : Run (step config) (Careful config) (initial lockKey clock blob row) events w) :
    w.Retained config :=
  hrun.invariant ⟨blob, rfl, .inl rfl⟩
    fun _ _ _ retained hcareful hstep => retained_step retained hcareful hstep

/-- After any run of careful steps, a later restore leaves the last committed
record in Redis. -/
theorem restores_of_run {lockKey : Option Nat} {clock : Nat} {blob : GameData.Blob Field Data}
    {row : Option (Row Raw)} {events : List (Event ι ρ Field Data)}
    (hrun : Run (step config) (Careful config) (initial lockKey clock blob row) events w)
    {r : ρ} (hr : w.fromDbs r = none) : Restores config w r :=
  (retained_run hrun).restores hr

end

/-! ## Two transfers -/

/-- A record without further fields, dumped as its version and its data. -/
def sample : Config Empty String (Nat × String ⊕ String) where
  key := "p:1:1"
  codec :=
    { dump := fun value =>
        match value with
        | .hash blob => .inl (blob.version, blob.model)
        | .string raw => .inr raw
      restore := fun raw =>
        match raw with
        | .inl (version, model) => some (.hash ⟨version, model, nofun⟩)
        | .inr raw => some (.string raw)
      kept := id
      restore_dump := by
        rintro (blob | raw)
        · obtain ⟨version, model, fields⟩ := blob
          have hfields : fields = nofun := funext nofun
          rw [hfields]
        · rfl }

def start : World (Fin 2) (Fin 2) Empty String (Nat × String ⊕ String) :=
  initial none 0 ⟨1, "one", nofun⟩ none

def toDbs (c : Fin 2) (n : Nat) : List (Event (Fin 2) (Fin 2) Empty String) :=
  List.replicate n (.toDb c)

/-- An update before the dump, and one that comes when the tag is set. -/
def careful : List (Event (Fin 2) (Fin 2) Empty String) :=
  .startToDb 0 :: toDbs 0 2 ++ [.update ⟨2, "two", nofun⟩] ++ toDbs 0 5 ++
    [.update ⟨3, "three", nofun⟩, .toDb 0]

def carefulEnd : World (Fin 2) (Fin 2) Empty String (Nat × String ⊕ String) :=
  (exec (step sample) (Careful sample) start careful).getD start

theorem restores_careful : Restores sample carefulEnd 0 := by
  have hrun : Run (step sample) (Careful sample) start careful carefulEnd :=
    run_exec_getD _ (by decide +kernel)
  exact restores_of_run hrun (Option.isNone_iff_eq_none.mp (by decide +kernel))

/-- An update that is committed between the dump and the tag. -/
def careless : List (Event (Fin 2) (Fin 2) Empty String) :=
  .startToDb 0 :: toDbs 0 6 ++ [.update ⟨2, "two", nofun⟩, .toDb 0]

def carelessEnd : World (Fin 2) (Fin 2) Empty String (Nat × String ⊕ String) :=
  (exec (step sample) free start careless).getD start

def Value.version {Field Data : Type*} : Value Field Data → Option Nat
  | .hash blob => some blob.version
  | .string _ => none

/-- The update is lost. -/
theorem not_restores_careless :
    ¬ ∀ (events : List (Event (Fin 2) (Fin 2) Empty String))
        (w : World (Fin 2) (Fin 2) Empty String (Nat × String ⊕ String)),
      Run (step sample) free start events w → ∀ r, w.fromDbs r = none → Restores sample w r := by
  intro h
  have hrun : Run (step sample) free start careless carelessEnd :=
    run_exec_getD _ (by decide +kernel)
  obtain ⟨w', blob, hexec, hlatest, -, hredis⟩ :=
    h _ _ hrun 0 (Option.isNone_iff_eq_none.mp (by decide +kernel))
  have hcommitted : carelessEnd.latest.map GameData.Blob.version = some 2 := by decide +kernel
  have hrestored : (exec (step sample) free carelessEnd (carelessEnd.readBack 0)).map
      (fun w => w.redis.bind Value.version) = some (some 1) := by decide +kernel
  rw [hlatest] at hcommitted
  rw [hexec, Option.map_some, hredis] at hrestored
  cases hcommitted.symm.trans (Option.some_inj.mp hrestored)

end TransferData
end Storage
end ArmyRs
