import ArmyRs.Storage.CachedGameDataWriter

/-!
# Put backs that fail

`put_back` runs `put_to_db` in `ensure_cache_deleted`, which rescues its errors and
deletes the cache in any case.  The caller of a `put_back` that failed renews the lock of
the item, and at shutdown the items that are still cached are reported as unsaved; but
the item is gone, with the only copy of its changes.

A Redis command of `_delete_cache` can raise as well.  Then the item is not deleted
(`kept_iff_deletionRaised`).
-/

namespace ArmyRs
namespace Storage
namespace CachedGameData

open Foundation GameData RedisLock

/-- The command of `_delete_cache` that raises. -/
inductive DeletionError
  /-- It comes before `clear`, and the instance keeps its lock. -/
  | beforeClear
  /-- The `del` of `clear`, which may have deleted the key. -/
  | inClear (deleted : Bool)
  deriving DecidableEq, Repr

/-- The events of the cache, and errors in `_delete_cache`. -/
inductive PutBackEvent (Server Field Data : Type*)
  | cache (event : Event Server Field Data)
  | deletionRaised (a : Server) (error : DeletionError)

variable {Server Field Data : Type*} [DecidableEq Server]

/-- What `_delete_cache` has done to the lock when it raises. -/
def afterError (w : World Server Field Data) (i : Server × Nat) :
    DeletionError → World Server Field Data
  | .beforeClear => w
  | .inClear deleted =>
      let cleared := w.lock.setInstance i { w.lock.instances i with lockAcquireTime := none }
      { w with lock := if deleted then { cleared with key := none } else cleared }

/-- An error in `_delete_cache` leaves the item in the cache and ends the call.  Redis commands
are only sent while the lock is valid. -/
def putBackStep (options : Options) (empty : Model Field Data) (w : World Server Field Data) :
    PutBackEvent Server Field Data → Option (World Server Field Data)
  | .cache event => step options empty w event
  | .deletionRaised a error =>
      atStage w a (.deleting false) fun call =>
        if call.cached && w.valid options a call.lock then
          some ((afterError w (a, call.lock) error).endCall a call)
        else none

/-- `put_to_db` raises or answers with `nil` in this step of a `put_back`. -/
def WriteFails (w : World Server Field Data) (call : Call Field Data) :
    Event Server Field Data → Prop
  | .finishBlock _ raised => call.stage = .block ∧ raised = true
  | .putRead _ =>
      call.stage = .putRead false ∧
        ∀ stored, w.stored = some stored → call.model.version < stored.version
  | .putWrite _ attempt =>
      call.stage = .putWrite false ∧
        (attempt.valid = true → attempt.lockTimedOut = false → attempt.script = .runs →
          updateBlob w.stored { call.model with version := call.model.version + 1 } = none)
  | _ => False

/-- The rest of the call of a server, up to the step in which it returns or raises. -/
structure Returns (options : Options) (empty : Model Field Data) (a : Server)
    (w : World Server Field Data) (events : List (PutBackEvent Server Field Data))
    (w' : World Server Field Data) : Prop where
  run : Run (putBackStep options empty) (fun w _ => (w.nodes a).call ≠ none) w events w'
  ended : (w'.nodes a).call = none

/-- The model is in the cache of the server, whatever its version. -/
def KeptIn (w : World Server Field Data) (a : Server) (m : Model Field Data) : Prop :=
  ∃ item, (w.nodes a).item = some item ∧ item.model.model = m.model ∧ item.model.fields = m.fields

section

variable {options : Options} {empty : Model Field Data} {w w' w₁ w₂ : World Server Field Data}
  {a : Server} {call : Call Field Data} {event : Event Server Field Data}
  {putBackEvent : PutBackEvent Server Field Data}

theorem endCall_item :
    ((w.endCall a call).nodes a).item =
      if call.cached then some ⟨call.lock, call.model⟩ else none := by
  simp [World.endCall, World.setNode]

theorem putRaised_call :
    ((putRaised w a call false).nodes a).call = some { call with stage := .deleting false } := by
  simp [putRaised, setCall_call]

/-- An error in the deletion does to no other server anything, and ends the call. -/
theorem deletionRaised_cases {error : DeletionError}
    (hstep : putBackStep options empty w (.deletionRaised a error) = some w') :
    ∃ call, (w.nodes a).call = some call ∧ call.stage = .deleting false ∧ call.cached = true ∧
      (w'.nodes a).call = none ∧ (w'.nodes a).item = some ⟨call.lock, call.model⟩ ∧
      ∀ b, b ≠ a → w'.nodes b = w.nodes b := by
  obtain ⟨call, hcall, hstage, hdelete⟩ := atStage_eq_some hstep
  rw [Option.ite_none_right_eq_some, Bool.and_eq_true] at hdelete
  obtain ⟨⟨hcached, -⟩, hend⟩ := hdelete
  obtain rfl := Option.some.inj hend
  have hnodes : (afterError w (a, call.lock) error).nodes = w.nodes := by
    cases error with
    | beforeClear => rfl
    | inClear deleted => rfl
  refine ⟨call, hcall, hstage, hcached, endCall_call, ?_, fun b hb => ?_⟩
  · rw [endCall_item, if_pos hcached]
  · rw [← congrFun hnodes b]
    exact setNode_of_ne fun h => hb (Option.some.inj h).symm

/-! ## After the write has failed -/

/-- A `put_back` whose write fails goes on to delete the cache, with the changes in hand. -/
theorem deleting_of_writeFails (hcall : (w.nodes a).call = some call)
    (hkind : call.kind = .putBack true) (hserver : event.server = some a)
    (hstep : step options empty w event = some w') (hfails : WriteFails w call event) :
    ∃ m : Model Field Data, m.model = call.model.model ∧ m.fields = call.model.fields ∧
      (w'.nodes a).call = some { call with model := m, stage := .deleting false } := by
  cases event with
  | finishBlock b raised =>
      cases hserver
      obtain ⟨hstage, rfl⟩ := hfails
      simp only [step, atStage, hcall, hstage, if_true, Option.some.injEq] at hstep
      subst hstep
      refine ⟨call.model, rfl, rfl, ?_⟩
      simp [finishBlock, hkind, setCall_call]
  | putRead b =>
      cases hserver
      obtain ⟨hstage, hfails⟩ := hfails
      simp only [step, hcall, hstage, Option.some.injEq] at hstep
      subst hstep
      refine ⟨call.model, rfl, rfl, ?_⟩
      unfold putRead
      split
      · exact putRaised_call
      · next stored hstored =>
        rw [if_pos (hfails stored hstored)]
        exact putRaised_call
  | putWrite b attempt =>
      cases hserver
      obtain ⟨hstage, hfails⟩ := hfails
      simp only [step, hcall, hstage, Option.some.injEq] at hstep
      subst hstep
      unfold putWrite
      split
      · exact ⟨call.model, rfl, rfl, setCall_call⟩
      · next hvalid =>
        split
        · exact ⟨call.model, rfl, rfl, putRaised_call⟩
        · next htimedOut =>
          -- the version was raised before the script was called
          refine ⟨{ call.model with version := call.model.version + 1 }, rfl, rfl, ?_⟩
          simp only
          split
          · exact putRaised_call
          · split
            · exact putRaised_call
            · next stored hstored =>
              split
              · next hruns =>
                have hnone := hfails (by simpa using hvalid) (by simpa using htimedOut) hruns
                rw [hstored] at hnone
                cases hnone
              · exact putRaised_call
  | _ => exact hfails.elim

/-- Where a `put_back` deletes the cache, it can do nothing else. -/
theorem step_of_deleting (hcall : (w.nodes a).call = some call)
    (hstage : call.stage = .deleting false) (hserver : event.server = some a)
    (hstep : step options empty w event = some w') :
    (w'.nodes a).call = some { call with cached := false, stage := .afterBlock } := by
  cases event with
  | tick elapsed => cases hserver
  | deleteCache b =>
      cases hserver
      simp only [step, hcall, hstage, Option.some.injEq] at hstep
      subst hstep
      exact setCall_call
  | _ =>
      cases hserver
      simp [step, atStage, hcall, hstage] at hstep

/-- The stages after the deletion of the cache: the lock is checked, and where it has expired
the model is written once more. -/
def Stage.dropped : Stage → Bool
  | .afterBlock => true
  | .putRead late | .putWrite late | .deleting late => late
  | .locking | .reading | .creating | .block => false

/-- A call without item that ends. -/
theorem endCall_dropped (hcached : call.cached = false) :
    ((w.endCall a call).nodes a).call = none ∧ ((w.endCall a call).nodes a).item = none :=
  ⟨endCall_call, by simp [endCall_item, hcached]⟩

/-- A call whose item was deleted ends without it. -/
theorem step_of_dropped (hcall : (w.nodes a).call = some call) (hcached : call.cached = false)
    (hstage : call.stage.dropped = true) (hserver : event.server = some a)
    (hstep : step options empty w event = some w') :
    ((w'.nodes a).call = none ∧ (w'.nodes a).item = none) ∨
      ∃ found, (w'.nodes a).call = some found ∧ found.cached = false ∧
        found.stage.dropped = true := by
  cases event with
  | tick elapsed => cases hserver
  | checkLock b =>
      cases hserver
      obtain ⟨call', hcall', -, hcheck⟩ := atStage_eq_some hstep
      obtain rfl := Option.some.inj (hcall.symm.trans hcall')
      cases hcheck
      unfold checkLock
      split
      · exact Or.inr ⟨_, setCall_call, hcached, rfl⟩
      · exact Or.inl (endCall_dropped hcached)
  | putRead b =>
      cases hserver
      obtain ⟨call', late, hcall', hput, rfl⟩ := putRead_eq_some hstep
      obtain rfl := Option.some.inj (hcall.symm.trans hcall')
      obtain rfl : late = true := by simpa [hput, Stage.dropped] using hstage
      unfold putRead
      split
      · exact Or.inl (endCall_dropped hcached)
      · split
        · exact Or.inl (endCall_dropped hcached)
        · exact Or.inr ⟨_, setCall_call, hcached, rfl⟩
  | putWrite b attempt =>
      cases hserver
      obtain ⟨call', late, hcall', hput, rfl⟩ := putWrite_eq_some hstep
      obtain rfl := Option.some.inj (hcall.symm.trans hcall')
      obtain rfl : late = true := by simpa [hput, Stage.dropped] using hstage
      obtain ⟨w', model, -, hwritten | hraised⟩ := putWrite_cases w a call true attempt
      · rw [hwritten]
        exact Or.inr ⟨_, setCall_call, hcached, rfl⟩
      · rw [hraised]
        exact Or.inl (endCall_dropped hcached)
  | deleteCache b =>
      cases hserver
      obtain ⟨call', hcall', ⟨hdelete, rfl⟩ | ⟨-, rfl⟩⟩ := deleteCache_eq_some hstep
      · -- the item is deleted once
        obtain rfl := Option.some.inj (hcall.symm.trans hcall')
        simp [hdelete, Stage.dropped] at hstage
      · exact Or.inl (endCall_dropped rfl)
  | _ =>
      cases hserver
      cases hlate : call.stage <;>
        simp [step, atStage, hcall, hlate, Stage.dropped] at hstep hstage

/-- Where a call that is about to delete the cache stands after some events: it still is, it has
deleted the item, or it has ended with an error in the deletion. -/
inductive Deleting (a : Server) (call : Call Field Data)
    (events : List (PutBackEvent Server Field Data)) (w : World Server Field Data) : Prop
  | waits (hcall : (w.nodes a).call = some call)
      (hnone : ∀ error, PutBackEvent.deletionRaised a error ∉ events)
  | dropped (found : Call Field Data) (hcall : (w.nodes a).call = some found)
      (hcached : found.cached = false) (hstage : found.stage.dropped = true)
      (hnone : ∀ error, PutBackEvent.deletionRaised a error ∉ events)
  | ended (hcall : (w.nodes a).call = none) (hitem : (w.nodes a).item = none)
      (hnone : ∀ error, PutBackEvent.deletionRaised a error ∉ events)
  | raised (error : DeletionError) (hcall : (w.nodes a).call = none)
      (hitem : (w.nodes a).item = some ⟨call.lock, call.model⟩)
      (hraised : PutBackEvent.deletionRaised a error ∈ events)

omit [DecidableEq Server] in
theorem not_mem_snoc {events : List (PutBackEvent Server Field Data)}
    (hnone : ∀ error, PutBackEvent.deletionRaised a error ∉ events)
    (hother : ∀ error, putBackEvent ≠ .deletionRaised a error) :
    ∀ error, PutBackEvent.deletionRaised a error ∉ events ++ [putBackEvent] := by
  intro error hmem
  rcases List.mem_append.mp hmem with hmem | hlast
  · exact hnone error hmem
  · exact hother error (List.mem_singleton.mp hlast).symm

omit [DecidableEq Server] in
/-- Another server, or the clock. -/
theorem Deleting.other {events : List (PutBackEvent Server Field Data)}
    (h : Deleting a call events w) (hnode : w'.nodes a = w.nodes a)
    (hother : ∀ error, putBackEvent ≠ .deletionRaised a error) :
    Deleting a call (events ++ [putBackEvent]) w' := by
  cases h with
  | waits hcall hnone => exact .waits (by rw [hnode, hcall]) (not_mem_snoc hnone hother)
  | dropped found hcall hcached hstage hnone =>
      exact .dropped found (by rw [hnode, hcall]) hcached hstage (not_mem_snoc hnone hother)
  | ended hcall hitem hnone =>
      exact .ended (by rw [hnode, hcall]) (by rw [hnode, hitem]) (not_mem_snoc hnone hother)
  | raised error hcall hitem hraised =>
      exact .raised error (by rw [hnode, hcall]) (by rw [hnode, hitem])
        (List.mem_append_left _ hraised)

/-- One more step of a call that is about to delete the cache. -/
theorem deleting_step {events : List (PutBackEvent Server Field Data)}
    (hdeleting : call.stage = .deleting false) (h : Deleting a call events w)
    (hgoes : (w.nodes a).call ≠ none)
    (hstep : putBackStep options empty w putBackEvent = some w') :
    Deleting a call (events ++ [putBackEvent]) w' := by
  cases putBackEvent with
  | cache event =>
      have hother : ∀ error, PutBackEvent.cache event ≠ .deletionRaised a error :=
        fun error heq => by cases heq
      by_cases hserver : event.server = some a
      · cases h with
        | waits hcall hnone =>
            exact .dropped _ (step_of_deleting hcall hdeleting hserver hstep) rfl rfl
              (not_mem_snoc hnone hother)
        | dropped found hcall hcached hstage hnone =>
            rcases step_of_dropped hcall hcached hstage hserver hstep with
              ⟨hend, hitem⟩ | ⟨next, hnext, hcached', hstage'⟩
            · exact .ended hend hitem (not_mem_snoc hnone hother)
            · exact .dropped next hnext hcached' hstage' (not_mem_snoc hnone hother)
        | ended hcall => exact absurd hcall hgoes
        | raised _ hcall => exact absurd hcall hgoes
      · exact h.other ((effect_step hstep).others a hserver) hother
  | deletionRaised b error =>
      obtain ⟨call', hcall', hstage', -, hend, hitem, hothers⟩ := deletionRaised_cases hstep
      by_cases hb : a = b
      · subst hb
        cases h with
        | waits hcall hnone =>
            obtain rfl := Option.some.inj (hcall.symm.trans hcall')
            exact .raised error hend hitem (by simp)
        | dropped found hcall hcached hstage hnone =>
            -- the item is deleted once
            obtain rfl := Option.some.inj (hcall.symm.trans hcall')
            rw [hstage'] at hstage
            cases hstage
        | ended hcall => exact absurd hcall hgoes
        | raised _ hcall => exact absurd hcall hgoes
      · refine h.other (hothers a hb) fun error' heq => hb ?_
        cases heq
        rfl

theorem deleting_run {events : List (PutBackEvent Server Field Data)}
    (hcall : (w.nodes a).call = some call) (hdeleting : call.stage = .deleting false)
    (hrun : Run (putBackStep options empty) (fun w _ => (w.nodes a).call ≠ none) w events w') :
    Deleting a call events w' := by
  induction hrun with
  | refl => exact .waits hcall fun error => List.not_mem_nil
  | snoc hrun hgoes hstep ih => exact deleting_step hdeleting ih hgoes hstep

/-- After a `put_back` whose write has failed, whatever the other servers do, the model is
still in the cache exactly when a Redis command of the deletion has raised. -/
theorem kept_iff_deletionRaised {rest : List (PutBackEvent Server Field Data)}
    (hcall : (w.nodes a).call = some call) (hkind : call.kind = .putBack true)
    (hserver : event.server = some a) (hstep : step options empty w event = some w₁)
    (hfails : WriteFails w call event) (hrest : Returns options empty a w₁ rest w₂) :
    KeptIn w₂ a call.model ↔ ∃ error, PutBackEvent.deletionRaised a error ∈ rest := by
  obtain ⟨m, hmodel, hfields, hdeleting⟩ :=
    deleting_of_writeFails hcall hkind hserver hstep hfails
  cases deleting_run hdeleting rfl hrest.run with
  | waits hgoes => exact absurd hrest.ended (by simp [hgoes])
  | dropped found hgoes => exact absurd hrest.ended (by simp [hgoes])
  | ended _ hitem hnone =>
      constructor
      · rintro ⟨item, hkept, -⟩
        rw [hitem] at hkept
        cases hkept
      · rintro ⟨error, hraised⟩
        exact absurd hraised (hnone error)
  | raised error _ hitem hraised =>
      exact ⟨fun _ => ⟨error, hraised⟩, fun _ => ⟨_, hitem, hmodel, hfields⟩⟩

end

/-! ## A write that fails -/

def emptyModel : Model Unit Nat := ⟨0, 0, fun _ => none⟩

/-- The first server takes the player and changes the model; later the saver puts it back. -/
def changed : List (PutBackEvent (Fin 2) Unit Nat) :=
  [.cache (.start 0 .take), .cache (.trylock 0), .cache (.read 0),
    .cache (.edit 0 11 fun _ => none), .cache (.finishBlock 0 false), .cache (.checkLock 0),
    .cache (.start 0 (.putBack true)), .cache (.finishBlock 0 false), .cache (.putRead 0)]

/-- The update is about to be sent. -/
def changedEnd : World (Fin 2) Unit Nat :=
  (exec (putBackStep defaultLockOptions emptyModel) free untaken changed).getD untaken

def changedCall : Call Unit Nat :=
  ⟨.putBack true, .putWrite false, 0, ⟨0, 11, fun _ => none⟩, true, 0⟩

/-- The script does not run. -/
def failed : World (Fin 2) Unit Nat :=
  (step defaultLockOptions emptyModel changedEnd (.putWrite 0 { script := .fails })).getD untaken

/-- The deletion of the cache, and what comes after it. -/
def deletion : List (PutBackEvent (Fin 2) Unit Nat) :=
  [.cache (.deleteCache 0), .cache (.checkLock 0)]

/-- A deletion that raises. -/
def raisingDeletion : List (PutBackEvent (Fin 2) Unit Nat) := [.deletionRaised 0 .beforeClear]

def afterFailure (rest : List (PutBackEvent (Fin 2) Unit Nat)) : World (Fin 2) Unit Nat :=
  (exec (putBackStep defaultLockOptions emptyModel) free failed rest).getD untaken

theorem changed_run :
    Run (putBackStep defaultLockOptions emptyModel) free untaken changed changedEnd :=
  run_exec_getD _ (by decide)

theorem changedEnd_call : (changedEnd.nodes 0).call = some changedCall := rfl

theorem failed_step : step defaultLockOptions emptyModel changedEnd
    (.putWrite 0 { script := .fails }) = some failed :=
  eq_some_getD _ (by decide)

theorem writeFails_changed :
    WriteFails changedEnd changedCall (.putWrite (0 : Fin 2) { script := .fails }) :=
  ⟨rfl, fun _ _ hscript => by cases hscript⟩

theorem deletion_returns : Returns defaultLockOptions emptyModel 0 failed deletion
    (afterFailure deletion) :=
  ⟨run_exec_getD _ (by decide), rfl⟩

theorem raisingDeletion_returns : Returns defaultLockOptions emptyModel 0 failed raisingDeletion
    (afterFailure raisingDeletion) :=
  ⟨run_exec_getD _ (by decide), rfl⟩

/-- An error in the deletion keeps the item. -/
theorem kept_changed : KeptIn (afterFailure raisingDeletion) 0 changedCall.model ↔
    ∃ error, PutBackEvent.deletionRaised 0 error ∈ raisingDeletion :=
  kept_iff_deletionRaised changedEnd_call rfl rfl failed_step writeFails_changed
    raisingDeletion_returns

/-- Without one the change is gone, although nothing was written. -/
theorem not_kept_changed :
    ¬ ∀ (events rest : List (PutBackEvent (Fin 2) Unit Nat)) (w w₁ w₂ : World (Fin 2) Unit Nat)
        (a : Fin 2) (call : Call Unit Nat) (event : Event (Fin 2) Unit Nat),
      Run (putBackStep defaultLockOptions emptyModel) free untaken events w →
      (w.nodes a).call = some call → call.kind = .putBack true → KeptIn w a call.model →
      event.server = some a → step defaultLockOptions emptyModel w event = some w₁ →
      WriteFails w call event → Returns defaultLockOptions emptyModel a w₁ rest w₂ →
      KeptIn w₂ a call.model := by
  intro h
  have hcached : KeptIn changedEnd 0 changedCall.model := ⟨_, rfl, rfl, rfl⟩
  obtain ⟨item, hitem, -⟩ := h changed deletion changedEnd failed (afterFailure deletion) 0
    changedCall _ changed_run changedEnd_call rfl hcached rfl failed_step writeFails_changed
    deletion_returns
  cases hitem

end CachedGameData
end Storage
end ArmyRs
