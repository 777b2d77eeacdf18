import ArmyRs.Storage.CachedGameData
import ArmyRs.Storage.RedisLockExclusion
import ArmyRs.Storage.GameDataVersions

/-!
# Who writes a cached player

A call checks its lock when it starts and, for a `take`, when its block has
returned.  The writes of `put_to_db` come after these checks without another
one, and an expired lock found after the block is answered with a write on
purpose.  `late_write_of_commit` says what is left of the single writer: a
write that commits while another server holds the lock comes from a call whose
own lock was valid when the call began and has run out since, and it raises the
stored version.
-/

namespace ArmyRs
namespace Storage
namespace CachedGameData

open Foundation GameData RedisLock

variable {Server Field Data : Type*} [DecidableEq Server]

/-! ## The parts of a step -/

/-- The server an event is about. -/
def Event.server : Event Server Field Data → Option Server
  | .tick _ => none
  | .start a _ | .trylock a | .read a | .create a _ | .edit a _ _ | .deleteInBlock a
  | .finishBlock a _ | .putRead a | .putWrite a _ | .deleteCache a | .checkLock a | .renew a =>
      some a

section

variable {w : World Server Field Data} {a : Server} {call : Call Field Data}

@[simp] theorem setCall_lock : (w.setCall a call).lock = w.lock := rfl

@[simp] theorem setCall_writes : (w.setCall a call).writes = w.writes := rfl

@[simp] theorem setCall_stored : (w.setCall a call).stored = w.stored := rfl

@[simp] theorem endCall_lock : (w.endCall a call).lock = w.lock := rfl

@[simp] theorem endCall_writes : (w.endCall a call).writes = w.writes := rfl

@[simp] theorem endCall_stored : (w.endCall a call).stored = w.stored := rfl

theorem setCall_call : ((w.setCall a call).nodes a).call = some call := by
  simp [World.setCall, World.setNode]

theorem endCall_call : ((w.endCall a call).nodes a).call = none := by
  simp [World.endCall, World.setNode]

omit [DecidableEq Server] in
theorem atStage_eq_some {stage : Stage}
    {next : Call Field Data → Option (World Server Field Data)} {w' : World Server Field Data}
    (h : atStage w a stage next = some w') :
    ∃ call, (w.nodes a).call = some call ∧ call.stage = stage ∧ next call = some w' := by
  unfold atStage at h
  split at h
  · cases h
  · next call hcall =>
    split at h
    · next hstage => exact ⟨call, hcall, hstage, h⟩
    · cases h

end

section

variable {options : Options} {empty : Model Field Data} {w w' : World Server Field Data}
  {a : Server}

theorem start_eq_some {kind : Kind} (h : step options empty w (.start a kind) = some w') :
    (w.nodes a).call = none ∧ w' = start options w a kind empty := by
  simp only [step] at h
  split at h
  · next hidle => exact ⟨hidle, (Option.some.inj h).symm⟩
  · cases h

theorem putRead_eq_some (h : step options empty w (.putRead a) = some w') :
    ∃ call late, (w.nodes a).call = some call ∧ call.stage = .putRead late ∧
      w' = putRead w a call late := by
  simp only [step] at h
  split at h
  · next call hcall =>
    split at h
    · next late hstage => exact ⟨call, late, hcall, hstage, (Option.some.inj h).symm⟩
    · cases h
  · cases h

theorem putWrite_eq_some {attempt : Attempt}
    (h : step options empty w (.putWrite a attempt) = some w') :
    ∃ call late, (w.nodes a).call = some call ∧ call.stage = .putWrite late ∧
      w' = putWrite w a call late attempt := by
  simp only [step] at h
  split at h
  · next call hcall =>
    split at h
    · next late hstage => exact ⟨call, late, hcall, hstage, (Option.some.inj h).symm⟩
    · cases h
  · cases h

theorem deleteCache_eq_some (h : step options empty w (.deleteCache a) = some w') :
    ∃ call, (w.nodes a).call = some call ∧
      ((call.stage = .deleting false ∧ w' = (deleteCache options w a call).setCall a
          { call with cached := false, stage := .afterBlock }) ∨
        call.stage = .deleting true ∧
          w' = (deleteCache options w a call).endCall a { call with cached := false }) := by
  simp only [step] at h
  split at h
  · next call hcall =>
    refine ⟨call, hcall, ?_⟩
    split at h
    · next hstage => exact .inl ⟨hstage, (Option.some.inj h).symm⟩
    · next hstage => exact .inr ⟨hstage, (Option.some.inj h).symm⟩
    · cases h
  · cases h

theorem renew_eq_some (h : step options empty w (.renew a) = some w') :
    ∃ item : Item Field Data, (w.nodes a).call = none ∧
      w' = { w with lock := RedisLock.renew options w.lock (a, item.lock) } := by
  simp only [step] at h
  split at h
  · next item hidle _ => exact ⟨item, hidle, (Option.some.inj h).symm⟩
  · cases h

end

/-- The stages in which the call still has its lock, expired or not.  The block
of a `take` may have released it. -/
def Call.keepsLock (call : Call Field Data) : Bool :=
  match call.stage with
  | .reading | .creating | .putRead _ | .putWrite _ => true
  | .block => decide (call.kind ≠ .take)
  | .locking | .deleting _ | .afterBlock => false

/-- What one event can do to the rest of the state, apart from its own server:
the other servers stay as they are, the lock makes at most one step of an
instance of that server, and the record is written by that server only, in a
call that has its lock, and with a larger version. -/
structure Effect (options : Options) (w w' : World Server Field Data) (a : Option Server) :
    Prop where
  others : ∀ b, a ≠ some b → w'.nodes b = w.nodes b
  lock : w'.lock = w.lock ∨ ∃ event, RedisLock.step options w.lock event = some w'.lock ∧
    ∀ b n, a ≠ some b → event.subject ≠ some (b, n)
  writes : (w'.writes = w.writes ∧ w'.stored = w.stored) ∨
    ∃ b call new, a = some b ∧ (w.nodes b).call = some call ∧ call.keepsLock = true ∧
      w'.writes = w.writes ++ [b] ∧ w'.stored = some new ∧
      ∀ old, w.stored = some old → old.version < new.version

theorem setNode_of_ne {w : World Server Field Data} {a b : Server} {node : Node Field Data}
    (h : some a ≠ some b) : (w.setNode a node).nodes b = w.nodes b := by
  have hne : b ≠ a := fun h' => h (by rw [h'])
  simp [World.setNode, Function.update_of_ne hne]

theorem effect_setNode {options : Options} {w : World Server Field Data} {a : Server}
    {node : Node Field Data} : Effect options w (w.setNode a node) (some a) :=
  ⟨fun _ hb => setNode_of_ne hb, Or.inl rfl, Or.inl ⟨rfl, rfl⟩⟩

theorem effect_setCall {options : Options} {w : World Server Field Data} {a : Server}
    {call : Call Field Data} : Effect options w (w.setCall a call) (some a) := effect_setNode

theorem effect_endCall {options : Options} {w : World Server Field Data} {a : Server}
    {call : Call Field Data} : Effect options w (w.endCall a call) (some a) := effect_setNode

theorem effect_putRaised {options : Options} {w : World Server Field Data} {a : Server}
    {call : Call Field Data} {late : Bool} :
    Effect options w (putRaised w a call late) (some a) := by
  unfold putRaised
  split
  · exact effect_endCall
  · exact effect_setCall

/-- An effect on the lock alone, followed by one on the node of the server. -/
theorem effect_of_lock {options : Options} {w w' : World Server Field Data} {a : Server}
    {lock : RedisLock.State (Server × Nat)} {n : Nat}
    {event : RedisLock.Event (Server × Nat)}
    (hstep : RedisLock.step options w.lock event = some lock)
    (hsubject : event.subject = some (a, n))
    (hnode : Effect options { w with lock := lock } w' (some a))
    (hlock : w'.lock = lock) : Effect options w w' (some a) := by
  refine ⟨hnode.others, Or.inr ⟨event, hlock ▸ hstep, fun b m hb h => ?_⟩, hnode.writes⟩
  rw [hsubject] at h
  cases h
  exact hb rfl

theorem effect_deleteCache {options : Options} {w w' : World Server Field Data} {a : Server}
    {call : Call Field Data}
    (hnode : Effect options (deleteCache options w a call) w' (some a))
    (hlock : w'.lock = (deleteCache options w a call).lock) :
    Effect options w w' (some a) := by
  unfold deleteCache at hnode hlock
  split at hnode
  · next hcached =>
    rw [if_pos hcached] at hlock
    exact @effect_of_lock _ _ _ _ _ _ _ _ _ _ (.unlock (a, call.lock)) rfl rfl hnode hlock
  · exact hnode

/-- A committed write, followed by an effect on the node of the server. -/
theorem effect_of_write {options : Options} {w w' : World Server Field Data} {a : Server}
    {call : Call Field Data} {new : Blob Field Data} (hcall : (w.nodes a).call = some call)
    (hkeeps : call.keepsLock = true)
    (hnewer : ∀ old, w.stored = some old → old.version < new.version)
    (hnode : Effect options { w with stored := some new, writes := w.writes ++ [a] } w' (some a))
    (hlock : w'.lock = w.lock) (hwrites : w'.writes = w.writes ++ [a])
    (hstored : w'.stored = some new) : Effect options w w' (some a) :=
  ⟨hnode.others, Or.inl hlock, Or.inr ⟨a, call, new, rfl, hcall, hkeeps, hwrites, hstored, hnewer⟩⟩

theorem effect_start {options : Options} {w : World Server Field Data} {a : Server} {kind : Kind}
    {empty : Model Field Data} :
    Effect options w (start options w a kind empty) (some a) := by
  unfold start
  simp only
  split
  · split
    · exact effect_setNode
    · exact effect_setNode
  · exact effect_setNode

theorem effect_tryLock {options : Options} {w w' : World Server Field Data} {a : Server}
    {call : Call Field Data} (h : tryLock options w a call = some w') :
    Effect options w w' (some a) := by
  have hsubject : (nextCommand (w.lock.instances (a, call.lock)).pending (a, call.lock)).subject =
      some (a, call.lock) := by
    cases (w.lock.instances (a, call.lock)).pending with
    | idle => rfl
    | beforeGet now => rfl
    | beforeGetset => rfl
  unfold tryLock at h
  simp only at h
  split at h
  · cases h
  · next lock hstep =>
    split at h
    · split at h
      · cases h
        exact effect_of_lock hstep hsubject effect_setCall rfl
      · cases h
        exact effect_of_lock hstep hsubject effect_endCall rfl
    · cases h
      exact effect_of_lock hstep hsubject ⟨fun _ _ => rfl, Or.inl rfl, Or.inl ⟨rfl, rfl⟩⟩ rfl

theorem effect_create {options : Options} {w : World Server Field Data} {a : Server}
    {call : Call Field Data} {model : Data} (hcall : (w.nodes a).call = some call)
    (hkeeps : call.keepsLock = true) :
    Effect options w (create w a call model) (some a) := by
  unfold create
  simp only
  cases hstored : w.stored with
  | none =>
      have hnewer : ∀ old, w.stored = some old → old.version < 0 := by
        intro old hold
        rw [hstored] at hold
        cases hold
      exact effect_of_write hcall hkeeps hnewer effect_setCall rfl rfl rfl
  | some stored => exact effect_setCall

theorem effect_putRead {options : Options} {w : World Server Field Data} {a : Server}
    {call : Call Field Data} {late : Bool} :
    Effect options w (putRead w a call late) (some a) := by
  unfold putRead
  split
  · exact effect_putRaised
  · split
    · exact effect_putRaised
    · exact effect_setCall

theorem effect_putWrite {options : Options} {w : World Server Field Data} {a : Server}
    {call : Call Field Data} {late : Bool} {attempt : Attempt}
    (hcall : (w.nodes a).call = some call) (hkeeps : call.keepsLock = true) :
    Effect options w (putWrite w a call late attempt) (some a) := by
  unfold putWrite
  split
  · exact effect_setCall
  split
  · exact effect_putRaised
  simp only
  split
  · exact effect_putRaised
  split
  · exact effect_putRaised
  · next new hnew =>
    obtain ⟨old, hold, hlt, rfl⟩ := updateBlob_eq_some hnew
    have hnewer : ∀ other, w.stored = some other → other.version < call.model.version + 1 := by
      intro other hother
      rw [hold] at hother
      cases hother
      exact hlt
    split
    · exact effect_of_write hcall hkeeps hnewer effect_setCall rfl rfl rfl
    · refine effect_of_write hcall hkeeps hnewer effect_putRaised ?_ ?_ ?_
      · unfold putRaised
        split <;> rfl
      · unfold putRaised
        split <;> rfl
      · unfold putRaised
        split <;> rfl

theorem effect_step {options : Options} {empty : Model Field Data} {w w' : World Server Field Data}
    {event : Event Server Field Data} (h : step options empty w event = some w') :
    Effect options w w' event.server := by
  cases event with
  | tick elapsed =>
      cases h
      exact ⟨fun _ _ => rfl,
        Or.inr ⟨.tick elapsed, rfl, fun _ _ _ => by simp [RedisLock.Event.subject]⟩,
        Or.inl ⟨rfl, rfl⟩⟩
  | start a kind =>
      obtain ⟨-, rfl⟩ := start_eq_some h
      exact effect_start
  | trylock a =>
      obtain ⟨call, -, -, hnext⟩ := atStage_eq_some h
      exact effect_tryLock hnext
  | read a =>
      obtain ⟨call, -, -, hnext⟩ := atStage_eq_some h
      cases hnext
      unfold readFromDb
      split
      · exact effect_setCall
      · exact effect_setCall
  | create a model =>
      obtain ⟨call, hcall, hstage, hnext⟩ := atStage_eq_some h
      cases hnext
      exact effect_create hcall (by simp [Call.keepsLock, hstage])
  | edit a model fields =>
      obtain ⟨call, -, -, hnext⟩ := atStage_eq_some h
      cases hnext
      exact effect_setCall
  | deleteInBlock a =>
      obtain ⟨call, -, -, hnext⟩ := atStage_eq_some h
      split at hnext
      · cases hnext
        exact effect_deleteCache effect_setCall rfl
      · cases hnext
  | finishBlock a raised =>
      obtain ⟨call, -, -, hnext⟩ := atStage_eq_some h
      cases hnext
      unfold finishBlock
      split
      · split
        · exact effect_endCall
        · exact effect_setCall
      · split
        · exact effect_setCall
        · exact effect_setCall
  | putRead a =>
      obtain ⟨call, late, -, -, rfl⟩ := putRead_eq_some h
      exact effect_putRead
  | putWrite a attempt =>
      obtain ⟨call, late, hcall, hstage, rfl⟩ := putWrite_eq_some h
      exact effect_putWrite hcall (by simp [Call.keepsLock, hstage])
  | deleteCache a =>
      obtain ⟨call, -, ⟨-, rfl⟩ | ⟨-, rfl⟩⟩ := deleteCache_eq_some h
      · exact effect_deleteCache effect_setCall rfl
      · exact effect_deleteCache effect_endCall rfl
  | checkLock a =>
      obtain ⟨call, -, -, hnext⟩ := atStage_eq_some h
      cases hnext
      unfold checkLock
      split
      · exact effect_setCall
      · exact effect_endCall
  | renew a =>
      obtain ⟨item, -, rfl⟩ := renew_eq_some h
      exact @effect_of_lock _ _ _ _ _ _ _ _ _ _ (.renew (a, item.lock)) rfl rfl
        ⟨fun _ _ => rfl, Or.inl rfl, Or.inl ⟨rfl, rfl⟩⟩ rfl

/-! ## The lock of a call -/

/-- The acquire time of the lock instance of a call. -/
def acquiredBy (w : World Server Field Data) (a : Server) (call : Call Field Data) : Option Nat :=
  (w.lock.instances (a, call.lock)).lockAcquireTime

/-- Once the lock is taken, its acquire time is from the moment the call began
or its lease reached to that moment. -/
structure Began (options : Options) (acquired : Option Nat) (call : Call Field Data) : Prop where
  covered : call.stage ≠ .locking → ∀ time, acquired = some time →
    time = round3 call.began ∨ call.began ≤ leaseEnd options time
  kept : call.keepsLock = true → acquired ≠ none

/-- A call that goes on without touching its lock. -/
theorem Began.next {options : Options} {acquired : Option Nat} {call call' : Call Field Data}
    (h : Began options acquired call) (hstage : call.stage ≠ .locking)
    (hbegan : call'.began = call.began)
    (hkept : call'.keepsLock = true → acquired ≠ none) : Began options acquired call' :=
  ⟨fun _ time htime => hbegan ▸ h.covered hstage time htime, hkept⟩

/-- The calls in progress on all servers. -/
def CallsBegan (options : Options) (w : World Server Field Data) : Prop :=
  ∀ a call, (w.nodes a).call = some call → Began options (acquiredBy w a call) call

theorem began_setCall {options : Options} {w : World Server Field Data} {a : Server}
    {call found : Call Field Data} (h : Began options (acquiredBy w a call) call)
    (hfound : ((w.setCall a call).nodes a).call = some found) :
    Began options (acquiredBy (w.setCall a call) a found) found := by
  rw [setCall_call] at hfound
  cases hfound
  exact h

theorem began_endCall {options : Options} {w : World Server Field Data} {a : Server}
    {call found : Call Field Data} (hfound : ((w.endCall a call).nodes a).call = some found) :
    Began options (acquiredBy (w.endCall a call) a found) found := by
  rw [endCall_call] at hfound
  cases hfound

theorem began_putRaised {options : Options} {w : World Server Field Data} {a : Server}
    {call found : Call Field Data} {late : Bool}
    (h : Began options (acquiredBy w a call) call) (hstage : call.stage ≠ .locking)
    (hfound : ((putRaised w a call late).nodes a).call = some found) :
    Began options (acquiredBy (putRaised w a call late) a found) found := by
  unfold putRaised at hfound ⊢
  split at hfound
  · next hlate =>
    rw [if_pos hlate]
    exact began_endCall hfound
  · next hlate =>
    rw [if_neg hlate]
    exact began_setCall (h.next hstage rfl (fun hkeeps => by cases hkeeps)) hfound

theorem began_start {options : Options} {w : World Server Field Data} {a : Server} {kind : Kind}
    {empty : Model Field Data} {found : Call Field Data} (hidle : (w.nodes a).call = none)
    (hfound : ((start options w a kind empty).nodes a).call = some found) :
    Began options (acquiredBy (start options w a kind empty) a found) found := by
  unfold start at hfound ⊢
  simp only at hfound ⊢
  cases hitem : (w.nodes a).item with
  | none =>
      simp only [hitem, World.setNode, Function.update_self, Option.some.injEq] at hfound ⊢
      subst hfound
      exact ⟨fun hne => absurd rfl hne, fun hkeeps => by cases hkeeps⟩
  | some item =>
      simp only [hitem] at hfound ⊢
      by_cases hvalid : w.valid options a item.lock = true
      · simp only [hvalid, if_true, World.setNode, Function.update_self, Option.some.injEq]
          at hfound ⊢
        subst hfound
        have hholds : Holds options w.lock (a, item.lock) := by
          unfold World.valid at hvalid
          rw [Bool.and_eq_true, Option.isSome_iff_ne_none, Bool.not_eq_true'] at hvalid
          exact hvalid
        obtain ⟨time, htime, hlease⟩ := holds_iff_acquired.mp hholds
        refine ⟨fun _ other hother => Or.inr ?_, fun _ hnone => hholds.1 hnone⟩
        have heq : some time = some other := htime.symm.trans hother
        cases heq
        exact hlease
      · rw [Bool.not_eq_true] at hvalid
        simp only [hvalid, Bool.false_eq_true, if_false, World.setNode, Function.update_self]
          at hfound
        rw [hidle] at hfound
        cases hfound

theorem began_tryLock {options : Options} {w w' : World Server Field Data} {a : Server}
    {call found : Call Field Data} (hcall : (w.nodes a).call = some call)
    (hstage : call.stage = .locking) (h : tryLock options w a call = some w')
    (hfound : (w'.nodes a).call = some found) :
    Began options (acquiredBy w' a found) found := by
  have hevent : ∀ pending, nextCommand pending (a, call.lock) = .setnx (a, call.lock) ∨
      nextCommand pending (a, call.lock) = .get (a, call.lock) ∨
      nextCommand pending (a, call.lock) = .getset (a, call.lock) := by
    intro pending
    cases pending with
    | idle => exact Or.inl rfl
    | beforeGet now => exact Or.inr (Or.inl rfl)
    | beforeGetset => exact Or.inr (Or.inr rfl)
  unfold tryLock at h
  simp only at h
  split at h
  · cases h
  · next lock hstep =>
    split at h
    · next hidle =>
      split at h
      · next hreply =>
        cases h
        have hacquired := acquired_of_reply (hevent _) hstep hidle hreply
        refine began_setCall ⟨fun _ time htime => Or.inl ?_, fun _ hnone => ?_⟩ hfound
        · have heq : some (round3 w.lock.clock) = some time := hacquired.symm.trans htime
          cases heq
          rfl
        · exact absurd (hacquired.symm.trans hnone) (by simp)
      · cases h
        exact began_endCall hfound
    · cases h
      rw [hcall] at hfound
      cases hfound
      exact ⟨fun hne => absurd hstage hne, fun hkeeps => by simp [Call.keepsLock, hstage] at hkeeps⟩

/-- Whichever way a write goes, the call moves on with some version of its
model, and the lock is not touched. -/
theorem putWrite_cases (w : World Server Field Data) (a : Server) (call : Call Field Data)
    (late : Bool) (attempt : Attempt) :
    ∃ (w' : World Server Field Data) (model : Model Field Data), w'.lock = w.lock ∧
      (putWrite w a call late attempt =
          w'.setCall a { call with model := model, stage := .deleting late } ∨
        putWrite w a call late attempt = putRaised w' a { call with model := model } late) := by
  unfold putWrite
  split
  · exact ⟨w, call.model, rfl, Or.inl rfl⟩
  split
  · exact ⟨w, call.model, rfl, Or.inr rfl⟩
  simp only
  split
  · exact ⟨w, _, rfl, Or.inr rfl⟩
  split
  · exact ⟨w, _, rfl, Or.inr rfl⟩
  next new hnew =>
  split
  · exact ⟨{ w with stored := some new, writes := w.writes ++ [a] }, _, rfl, Or.inl rfl⟩
  · exact ⟨{ w with stored := some new, writes := w.writes ++ [a] }, _, rfl, Or.inr rfl⟩

omit [DecidableEq Server] in
theorem acquiredBy_congr {w w' : World Server Field Data} (hlock : w'.lock = w.lock) (a : Server)
    (call : Call Field Data) : acquiredBy w' a call = acquiredBy w a call := by
  unfold acquiredBy
  rw [hlock]

theorem began_putWrite {options : Options} {w : World Server Field Data} {a : Server}
    {call found : Call Field Data} {late : Bool} {attempt : Attempt}
    (h : Began options (acquiredBy w a call) call) (hstage : call.stage ≠ .locking)
    (hfound : ((putWrite w a call late attempt).nodes a).call = some found) :
    Began options (acquiredBy (putWrite w a call late attempt) a found) found := by
  obtain ⟨w', model, hlock, heq | heq⟩ := putWrite_cases w a call late attempt
  · rw [heq] at hfound ⊢
    refine began_setCall ?_ hfound
    rw [acquiredBy_congr hlock]
    exact h.next hstage rfl fun hkeeps => by cases hkeeps
  · rw [heq] at hfound ⊢
    refine began_putRaised ?_ hstage hfound
    rw [acquiredBy_congr hlock]
    exact h.next hstage rfl h.kept

/-- Releasing the lock clears its acquire time or leaves it. -/
theorem acquiredBy_deleteCache (options : Options) (w : World Server Field Data) (a : Server)
    (call other : Call Field Data) (hlock : other.lock = call.lock) :
    acquiredBy (deleteCache options w a call) a other = none ∨
      acquiredBy (deleteCache options w a call) a other = acquiredBy w a call := by
  unfold acquiredBy deleteCache
  rw [hlock]
  split
  · unfold RedisLock.unlock
    simp only
    split
    · exact Or.inr (by rw [setInstance_self])
    · exact Or.inl (by rw [setInstance_self])
  · exact Or.inr rfl

/-- After its cache is deleted a call may go on, but not to a write. -/
theorem began_deleteCache {options : Options} {w : World Server Field Data} {a : Server}
    {call other found : Call Field Data} (h : Began options (acquiredBy w a call) call)
    (hstage : call.stage ≠ .locking) (hlock : other.lock = call.lock)
    (hbegan : other.began = call.began) (hkeeps : other.keepsLock = false)
    (hfound : (((deleteCache options w a call).setCall a other).nodes a).call = some found) :
    Began options (acquiredBy ((deleteCache options w a call).setCall a other) a found) found := by
  refine began_setCall ⟨fun _ time htime => ?_, fun h' => by rw [hkeeps] at h'; cases h'⟩ hfound
  rw [hbegan]
  rcases acquiredBy_deleteCache options w a call other hlock with hnone | hsame
  · rw [hnone] at htime
    cases htime
  · rw [hsame] at htime
    exact h.covered hstage time htime

/-- The call of the server an event is about. -/
theorem began_actor {options : Options} {empty : Model Field Data} {w w' : World Server Field Data}
    {event : Event Server Field Data} {a : Server} (h : CallsBegan options w)
    (hstep : step options empty w event = some w') (hserver : event.server = some a)
    {found : Call Field Data} (hfound : (w'.nodes a).call = some found) :
    Began options (acquiredBy w' a found) found := by
  cases event with
  | tick elapsed => cases hserver
  | start b kind =>
      cases hserver
      obtain ⟨hidle, rfl⟩ := start_eq_some hstep
      exact began_start hidle hfound
  | trylock b =>
      cases hserver
      obtain ⟨call, hcall, hstage, hnext⟩ := atStage_eq_some hstep
      exact began_tryLock hcall hstage hnext hfound
  | read b =>
      cases hserver
      obtain ⟨call, hcall, hstage, hnext⟩ := atStage_eq_some hstep
      cases hnext
      have hbegan := h a call hcall
      have hkept := hbegan.kept (by simp [Call.keepsLock, hstage])
      have hne : call.stage ≠ .locking := by simp [hstage]
      unfold readFromDb at hfound ⊢
      cases hstored : w.stored with
      | none =>
          simp only [hstored] at hfound ⊢
          exact began_setCall (hbegan.next hne rfl fun _ => hkept) hfound
      | some stored =>
          simp only [hstored] at hfound ⊢
          exact began_setCall (hbegan.next hne rfl fun _ => hkept) hfound
  | create b model =>
      cases hserver
      obtain ⟨call, hcall, hstage, hnext⟩ := atStage_eq_some hstep
      cases hnext
      have hbegan := h a call hcall
      have hkept := hbegan.kept (by simp [Call.keepsLock, hstage])
      have hne : call.stage ≠ .locking := by simp [hstage]
      unfold create at hfound ⊢
      cases hstored : w.stored with
      | none =>
          simp only [hstored] at hfound ⊢
          exact began_setCall (hbegan.next hne rfl fun _ => hkept) hfound
      | some stored =>
          simp only [hstored] at hfound ⊢
          exact began_setCall (hbegan.next hne rfl fun _ => hkept) hfound
  | edit b model fields =>
      cases hserver
      obtain ⟨call, hcall, hstage, hnext⟩ := atStage_eq_some hstep
      cases hnext
      have hbegan := h a call hcall
      exact began_setCall (hbegan.next (by simp [hstage]) rfl hbegan.kept) hfound
  | deleteInBlock b =>
      cases hserver
      obtain ⟨call, hcall, hstage, hnext⟩ := atStage_eq_some hstep
      split at hnext
      · next hkind =>
        cases hnext
        refine began_deleteCache (h a call hcall) (by simp [hstage]) rfl rfl ?_ hfound
        simp [Call.keepsLock, hstage, hkind]
      · cases hnext
  | finishBlock b raised =>
      cases hserver
      obtain ⟨call, hcall, hstage, hnext⟩ := atStage_eq_some hstep
      cases hnext
      have hbegan := h a call hcall
      have hne : call.stage ≠ .locking := by simp [hstage]
      unfold finishBlock at hfound ⊢
      cases hkind : call.kind with
      | take =>
          simp only [hkind] at hfound ⊢
          cases raised with
          | true => exact began_endCall hfound
          | false => exact began_setCall (hbegan.next hne rfl fun h' => by cases h') hfound
      | putBack save =>
          have hkept := hbegan.kept (by simp [Call.keepsLock, hstage, hkind])
          simp only [hkind] at hfound ⊢
          by_cases hsave : (save && !raised) = true
          · simp only [hsave, if_true] at hfound ⊢
            exact began_setCall (hbegan.next hne rfl fun _ => hkept) hfound
          · rw [Bool.not_eq_true] at hsave
            simp only [hsave, Bool.false_eq_true, if_false] at hfound ⊢
            exact began_setCall (hbegan.next hne rfl fun h' => by cases h') hfound
  | putRead b =>
      cases hserver
      obtain ⟨call, late, hcall, hstage, rfl⟩ := putRead_eq_some hstep
      have hbegan := h a call hcall
      have hkept := hbegan.kept (by simp [Call.keepsLock, hstage])
      have hne : call.stage ≠ .locking := by simp [hstage]
      unfold putRead at hfound ⊢
      cases hstored : w.stored with
      | none =>
          simp only [hstored] at hfound ⊢
          exact began_putRaised hbegan hne hfound
      | some stored =>
          simp only [hstored] at hfound ⊢
          by_cases hold : call.model.version < stored.version
          · simp only [hold, if_true] at hfound ⊢
            exact began_putRaised hbegan hne hfound
          · simp only [hold, if_false] at hfound ⊢
            exact began_setCall (hbegan.next hne rfl fun _ => hkept) hfound
  | putWrite b attempt =>
      cases hserver
      obtain ⟨call, late, hcall, hstage, rfl⟩ := putWrite_eq_some hstep
      exact began_putWrite (h a call hcall) (by simp [hstage]) hfound
  | deleteCache b =>
      cases hserver
      obtain ⟨call, hcall, ⟨hstage, rfl⟩ | ⟨-, rfl⟩⟩ := deleteCache_eq_some hstep
      · exact began_deleteCache (h a call hcall) (by simp [hstage]) rfl rfl rfl hfound
      · exact began_endCall hfound
  | checkLock b =>
      cases hserver
      obtain ⟨call, hcall, hstage, hnext⟩ := atStage_eq_some hstep
      cases hnext
      have hbegan := h a call hcall
      unfold checkLock at hfound ⊢
      by_cases htimeout :
          (w.lock.instances (a, call.lock)).timedOut options w.lock.clock = true
      · simp only [htimeout, if_true] at hfound ⊢
        refine began_setCall (hbegan.next (by simp [hstage]) rfl fun _ hnone => ?_) hfound
        unfold acquiredBy at hnone
        simp [Instance.timedOut, hnone] at htimeout
      · rw [Bool.not_eq_true] at htimeout
        simp only [htimeout, Bool.false_eq_true, if_false] at hfound ⊢
        exact began_endCall hfound
  | renew b =>
      cases hserver
      obtain ⟨item, hidle, rfl⟩ := renew_eq_some hstep
      rw [hidle] at hfound
      cases hfound

/-- One event keeps what is known about the calls. -/
theorem callsBegan_step {options : Options} {empty : Model Field Data}
    {w w' : World Server Field Data} {event : Event Server Field Data}
    (h : CallsBegan options w) (hstep : step options empty w event = some w') :
    CallsBegan options w' := by
  intro b found hfound
  by_cases hserver : event.server = some b
  · exact began_actor h hstep hserver hfound
  · have heffect := effect_step hstep
    rw [heffect.others b hserver] at hfound
    have hsame : acquiredBy w' b found = acquiredBy w b found := by
      rcases heffect.lock with hlock | ⟨lockEvent, hlock, hsubject⟩
      · exact acquiredBy_congr hlock b found
      · unfold acquiredBy
        rw [step_instances_of_ne hlock (hsubject b found.lock hserver)]
    rw [hsame]
    exact h b found hfound

/-! ## Writes beside the holder of the lock -/

/-- A write by `a` in a call that took the lock or found it valid when it
began, whose lease has run out since, and which raises the stored version. -/
def LateWrite (options : Options) (w w' : World Server Field Data) (a : Server) : Prop :=
  ∃ call time, (w.nodes a).call = some call ∧ acquiredBy w a call = some time ∧
    (time = round3 call.began ∨ call.began ≤ leaseEnd options time) ∧
    leaseEnd options time < w.lock.clock ∧
    ∀ old new, w.stored = some old → w'.stored = some new → old.version < new.version

/-- The lock is exclusive, and every call in progress began with it. -/
structure Guarded (options : Options) (w : World Server Field Data) : Prop where
  lock : Exclusive options w.lock
  calls : CallsBegan options w

theorem Guarded.step {options : Options} {empty : Model Field Data}
    {w w' : World Server Field Data} {event : Event Server Field Data}
    (h : Guarded options w) (hstep : step options empty w event = some w') :
    Guarded options w' := by
  refine ⟨?_, callsBegan_step h.calls hstep⟩
  rcases (effect_step hstep).lock with hlock | ⟨lockEvent, hlock, -⟩
  · exact hlock ▸ h.lock
  · exact h.lock.step hlock

/-- In every run, while one server holds an unexpired cache lock, a write of
another server commits only as a late write. -/
theorem late_write_of_commit {options : Options} {empty : Model Field Data} {key : Option Nat}
    {clock : Nat} {stored : Option (Blob Field Data)} {events : List (Event Server Field Data)}
    {w w' : World Server Field Data} {event : Event Server Field Data} {a b : Server}
    (hrun : Run (step options empty) free (initial key clock stored) events w)
    (hstep : step options empty w event = some w') (hwrites : w'.writes = w.writes ++ [a])
    (hne : b ≠ a) (hholds : HoldsLock options w b) : LateWrite options w w' a := by
  have hguarded : Guarded options w :=
    hrun.invariant ⟨exclusive_initial options key clock, fun _ _ h => (by cases h)⟩
      fun _ _ _ h _ hstep => h.step hstep
  rcases (effect_step hstep).writes with
    ⟨hsame, -⟩ | ⟨c, call, new, -, hcall, hkeeps, hwrites', hnew, hnewer⟩
  · rw [hsame] at hwrites
    have hlength := congrArg List.length hwrites
    simp at hlength
  · have hca : [c] = [a] := List.append_cancel_left (hwrites'.symm.trans hwrites)
    cases hca
    have hcallBegan := hguarded.calls a call hcall
    obtain ⟨time, htime⟩ := Option.ne_none_iff_exists'.mp (hcallBegan.kept hkeeps)
    have hlocking : call.stage ≠ .locking := by
      intro hstage
      simp [Call.keepsLock, hstage] at hkeeps
    obtain ⟨n, hn⟩ := hholds
    refine ⟨call, time, hcall, htime, hcallBegan.covered hlocking time htime, ?_, ?_⟩
    · -- two unexpired leases would be one instance
      by_contra hlease
      have hmine : Holds options w.lock (a, call.lock) :=
        holds_iff_acquired.mpr ⟨time, htime, Nat.le_of_not_lt hlease⟩
      have heq := hguarded.lock.unique _ _ hn hmine
      exact hne (congrArg Prod.fst heq)
    · intro old other hold hother
      rw [hnew] at hother
      cases hother
      exact hnewer old hold

/-- The block of the first server outlasts its lease, and the second server
takes the lock and reads the record before the first one looks at the clock. -/
def outlasted : List (Event (Fin 2) Unit Nat) :=
  [.start 0 .take, .trylock 0, .read 0, .edit 0 11 fun _ => none, .tick 120002000,
    .start 1 .take, .trylock 1, .trylock 1, .trylock 1, .read 1,
    .finishBlock 0 false, .checkLock 0, .putRead 0]

def untaken : World (Fin 2) Unit Nat := initial none 0 (some ⟨0, 10, fun _ => none⟩)

def outlastedEnd : World (Fin 2) Unit Nat :=
  (exec (step defaultLockOptions ⟨0, 0, fun _ => none⟩) free untaken outlasted).getD untaken

def outlastedWrite : World (Fin 2) Unit Nat :=
  (step defaultLockOptions ⟨0, 0, fun _ => none⟩ outlastedEnd (.putWrite 0 {})).getD untaken

theorem outlasted_run :
    Run (step defaultLockOptions ⟨0, 0, fun _ => none⟩) free untaken outlasted outlastedEnd ∧
      step defaultLockOptions ⟨0, 0, fun _ => none⟩ outlastedEnd (.putWrite 0 {}) =
        some outlastedWrite :=
  ⟨run_exec_getD _ (by decide), eq_some_getD _ (by decide)⟩

/-- While the second server holds the lock, the write of the first commits. -/
theorem write_beside_holder :
    Run (step defaultLockOptions ⟨0, 0, fun _ => none⟩) free untaken outlasted outlastedEnd ∧
      step defaultLockOptions ⟨0, 0, fun _ => none⟩ outlastedEnd (.putWrite 0 {}) =
        some outlastedWrite ∧
      HoldsLock defaultLockOptions outlastedEnd 1 ∧
      outlastedWrite.writes = outlastedEnd.writes ++ [0] ∧
      outlastedWrite.stored.map Blob.model = some 11 :=
  ⟨outlasted_run.1, outlasted_run.2, ⟨0, by decide⟩, by decide, by decide⟩

/-- That write is a late write. -/
theorem late_write_outlasted : LateWrite defaultLockOptions outlastedEnd outlastedWrite 0 :=
  @late_write_of_commit _ _ _ _ _ _ _ _ _ _ _ _ _ 0 1 outlasted_run.1 outlasted_run.2 (by decide)
    (by decide) ⟨0, by decide⟩

end CachedGameData
end Storage
end ArmyRs
