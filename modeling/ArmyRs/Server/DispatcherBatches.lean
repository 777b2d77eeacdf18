import ArmyRs.Server.Dispatcher

/-!
# What a failed batch leaves behind, and who gets an answer

`ran` lists the requests of a batch that are run, each with the environment it finds.  A
failed batch leaves no trace when every request that is run leaves the model it is given
as it is; when at most one request of the batch changes the model this is also
necessary, and the batches of the delegates in the repository have one packet each
(`changesOnce_of_single`).  A list of packets is answered packet by packet exactly when
every batch is ready.

The result of the block, which says whether the requests succeeded, is not
used by `dispatch_with_model`: nothing restores the model.
-/

namespace ArmyRs
namespace Server
namespace Dispatcher

variable {Session Model Kind Msg Value : Type*}

/-! ## One batch -/

/-- A request fails by its answer or by an error. -/
def Outcome.failed (outcome : Outcome (Res Value)) : Bool := outcome.failure || outcome.error

/-- A call of `to_wire` or `log_action` raises after the `k`-th request.  `log_action` is
called for an error and for every request from the first failure on. -/
def Circumstances.stops (around : Circumstances) (k : Nat) (hasFailure : Bool)
    (outcome : Outcome (Res Value)) : Bool :=
  around.wireRaises k || (hasFailure || outcome.failure || outcome.error) && around.logRaises k

/-- The requests that are run from the `k`-th on, each with the environment it finds. -/
def ran (delegate : Delegate Session Model Kind Msg Value) (around : Circumstances) :
    Nat → Bool → List (Request Session Model Kind Msg Value) → Env Session Model →
      List (Request Session Model Kind Msg Value × Env Session Model)
  | _, _, [], _ => []
  | k, hasFailure, request :: requests, env =>
      let answer := process delegate request.2 env request.1
      (request, env) ::
        if around.stops k hasFailure answer.2 then []
        else ran delegate around (k + 1) (hasFailure || answer.2.failure) requests answer.1

/-- The request fails in the environment it finds. -/
def RequestFails (delegate : Delegate Session Model Kind Msg Value)
    (run : Request Session Model Kind Msg Value × Env Session Model) : Prop :=
  (process delegate run.1.2 run.2 run.1.1).2.failed = true

/-- The request leaves the model it finds as it is. -/
def Leaves (delegate : Delegate Session Model Kind Msg Value)
    (run : Request Session Model Kind Msg Value × Env Session Model) : Prop :=
  (process delegate run.1.2 run.2 run.1.1).1.model = run.2.model

/-- No call of `to_wire` or `log_action` raises in the loop. -/
def Passes (delegate : Delegate Session Model Kind Msg Value) (around : Circumstances) :
    Nat → Bool → List (Request Session Model Kind Msg Value) → Env Session Model → Prop
  | _, _, [], _ => True
  | k, hasFailure, request :: requests, env =>
      let answer := process delegate request.2 env request.1
      around.stops k hasFailure answer.2 = false ∧
        Passes delegate around (k + 1) (hasFailure || answer.2.failure) requests answer.1

section

variable {delegate : Delegate Session Model Kind Msg Value} {around : Circumstances}

/-- A request ends the loop, or the others follow. -/
theorem runRequests_cons (k : Nat) (request : Request Session Model Kind Msg Value)
    (requests : List (Request Session Model Kind Msg Value))
    (progress : Progress Session Model Kind Value) :
    let answer := process delegate request.2 progress.env request.1
    (around.stops k progress.hasFailure answer.2 = true ∧
      (runRequests delegate around k (request :: requests) progress).1.env = answer.1 ∧
      (runRequests delegate around k (request :: requests) progress).2 = true) ∨
    (around.stops k progress.hasFailure answer.2 = false ∧
      runRequests delegate around k (request :: requests) progress =
        runRequests delegate around (k + 1) requests
          (progress.after request.1 answer.1 answer.2)) := by
  intro answer
  have hloop : runRequests delegate around k (request :: requests) progress =
      if around.wireRaises k then
        ({ progress.after request.1 answer.1 answer.2 with resPackets := progress.resPackets },
          true)
      else if (progress.hasFailure || answer.2.failure || answer.2.error) && around.logRaises k
        then (progress.after request.1 answer.1 answer.2, true)
      else runRequests delegate around (k + 1) requests
        (progress.after request.1 answer.1 answer.2) := rfl
  rw [hloop]
  unfold Circumstances.stops
  cases hwire : around.wireRaises k with
  | true => exact .inl ⟨rfl, rfl, rfl⟩
  | false =>
      cases hlog : (progress.hasFailure || answer.2.failure || answer.2.error) &&
          around.logRaises k with
      | true => exact .inl ⟨rfl, rfl, rfl⟩
      | false => exact .inr ⟨rfl, rfl⟩

/-- When every request leaves the model, so do all of them. -/
theorem model_of_leaves (k : Nat) (requests : List (Request Session Model Kind Msg Value))
    (progress : Progress Session Model Kind Value)
    (hleaves : ∀ run ∈ ran delegate around k progress.hasFailure requests progress.env,
      Leaves delegate run) :
    (runRequests delegate around k requests progress).1.env.model = progress.env.model := by
  induction requests generalizing k progress with
  | nil => rfl
  | cons request requests ih =>
      unfold ran at hleaves
      dsimp only at hleaves
      rw [List.forall_mem_cons] at hleaves
      rcases @runRequests_cons _ _ _ _ _ delegate around k request requests progress with
        ⟨-, henv, -⟩ | ⟨hgoes, hrun⟩
      · rw [henv]
        exact hleaves.1
      · rw [hrun]
        refine (ih (k + 1) _ ?_).trans hleaves.1
        have hrest := hleaves.2
        rwa [hgoes] at hrest

/-- When one request changes the model and the others leave it, it is changed. -/
theorem model_of_changes (k : Nat) (requests : List (Request Session Model Kind Msg Value))
    (progress : Progress Session Model Kind Value)
    (honce : (ran delegate around k progress.hasFailure requests progress.env).Pairwise
      fun run other => Leaves delegate run ∨ Leaves delegate other)
    (hchanges : ∃ run ∈ ran delegate around k progress.hasFailure requests progress.env,
      ¬ Leaves delegate run) :
    (runRequests delegate around k requests progress).1.env.model ≠ progress.env.model := by
  induction requests generalizing k progress with
  | nil =>
      obtain ⟨run, hrun, -⟩ := hchanges
      cases hrun
  | cons request requests ih =>
      unfold ran at honce hchanges
      dsimp only at honce hchanges
      rw [List.pairwise_cons] at honce
      rcases @runRequests_cons _ _ _ _ _ delegate around k request requests progress with
        ⟨hstops, henv, -⟩ | ⟨hgoes, hrun⟩
      · rw [henv]
        rw [hstops] at hchanges
        simpa [Leaves] using hchanges
      · rw [hrun]
        rw [hgoes] at honce hchanges
        by_cases hfirst : Leaves delegate (request, progress.env)
        · -- the request that changes the model is among the rest
          obtain ⟨run, hmem, hnot⟩ := hchanges
          have hrest : run ∈ ran delegate around (k + 1) _ requests _ :=
            List.mem_of_ne_of_mem (fun h => hnot (h ▸ hfirst)) hmem
          have hchanged := ih (k + 1) (progress.after request.1 _ _) honce.2 ⟨run, hrest, hnot⟩
          exact fun h => hchanged (h.trans hfirst.symm)
        · -- this is the one, and the rest leave what it made
          have hrest := model_of_leaves (k + 1) requests (progress.after request.1 _ _)
            fun run hmem => (honce.1 run hmem).resolve_left hfirst
          rw [hrest]
          exact hfirst

theorem ended_iff (k : Nat) (requests : List (Request Session Model Kind Msg Value))
    (progress : Progress Session Model Kind Value) :
    (runRequests delegate around k requests progress).2 = false ↔
      Passes delegate around k progress.hasFailure requests progress.env := by
  induction requests generalizing k progress with
  | nil => exact iff_of_true rfl trivial
  | cons request requests ih =>
      unfold Passes
      dsimp only
      rcases @runRequests_cons _ _ _ _ _ delegate around k request requests progress with
        ⟨hstops, -, hraised⟩ | ⟨hgoes, hrun⟩
      · simp [hstops, hraised]
      · rw [hrun, hgoes, ih (k + 1)]
        simp [Progress.after]

/-- A batch has failed when a request of it has. -/
theorem failed_iff (k : Nat) (requests : List (Request Session Model Kind Msg Value))
    (progress : Progress Session Model Kind Value)
    (hpasses : Passes delegate around k progress.hasFailure requests progress.env) :
    ((runRequests delegate around k requests progress).1.hasError ||
        (runRequests delegate around k requests progress).1.hasFailure) = true ↔
      (progress.hasError || progress.hasFailure) = true ∨
        ∃ run ∈ ran delegate around k progress.hasFailure requests progress.env,
          RequestFails delegate run := by
  induction requests generalizing k progress with
  | nil => simp [runRequests, ran]
  | cons request requests ih =>
      unfold Passes at hpasses
      unfold ran
      dsimp only at hpasses ⊢
      rcases @runRequests_cons _ _ _ _ _ delegate around k request requests progress with
        ⟨hstops, -, -⟩ | ⟨hgoes, hrun⟩
      · rw [hstops] at hpasses
        cases hpasses.1
      · have hrest := ih (k + 1) (progress.after request.1 _ _) hpasses.2
        rw [hrun, hgoes, hrest, List.exists_mem_cons_iff]
        simp only [RequestFails, Outcome.failed, Progress.after, Bool.or_eq_true, if_false,
          Bool.false_eq_true]
        have hor : ∀ a b c d rest : Prop, ((a ∨ c) ∨ b ∨ d) ∨ rest ↔ (a ∨ b) ∨ (d ∨ c) ∨ rest := by
          tauto
        exact hor _ _ _ _ _

/-- The number and the type of a packet. -/
def Packet.key (packet : Packet Kind Msg) : Nat × Kind := (packet.n, packet.t)

def ResPacket.key (packet : ResPacket Kind Value) : Nat × Kind := (packet.n, packet.t)

theorem runRequests_keys (k : Nat) (requests : List (Request Session Model Kind Msg Value))
    (progress : Progress Session Model Kind Value)
    (hpasses : Passes delegate around k progress.hasFailure requests progress.env) :
    (runRequests delegate around k requests progress).1.resPackets.map ResPacket.key =
      progress.resPackets.map ResPacket.key ++ requests.map fun request => request.1.key := by
  induction requests generalizing k progress with
  | nil => simp [runRequests]
  | cons request requests ih =>
      unfold Passes at hpasses
      dsimp only at hpasses
      rcases @runRequests_cons _ _ _ _ _ delegate around k request requests progress with
        ⟨hstops, -, -⟩ | ⟨-, hrun⟩
      · rw [hstops] at hpasses
        cases hpasses.1
      · rw [hrun, ih (k + 1) _ hpasses.2]
        simp [Progress.after, ResPacket.key, Packet.key]

/-- The responses are encoded again after a failure. -/
theorem answers_cases (progress : Progress Session Model Kind Value) :
    (((progress.hasError || progress.hasFailure) = true →
        ∀ k < progress.resPackets.length, around.rewireRaises k = false) ∧
      ∃ results, answers around progress = .ok results ∧
        results.map ResPacket.key = progress.resPackets.map ResPacket.key) ∨
    ((progress.hasError || progress.hasFailure) = true ∧
      (∃ k < progress.resPackets.length, around.rewireRaises k = true) ∧
      answers around progress = .raised) := by
  unfold answers
  cases hfailed : progress.hasError || progress.hasFailure with
  | false => exact .inl ⟨nofun, _, rfl, rfl⟩
  | true =>
      cases hraises : (List.range progress.resPackets.length).any around.rewireRaises with
      | false =>
          rw [List.any_eq_false] at hraises
          refine .inl ⟨fun _ k hk => ?_, _, rfl, ?_⟩
          · exact Bool.eq_false_iff.mpr (hraises k (List.mem_range.mpr hk))
          · rw [List.map_map]
            rfl
      | true =>
          obtain ⟨k, hk, hraise⟩ := List.any_eq_true.mp hraises
          exact .inr ⟨rfl, ⟨k, List.mem_range.mp hk, hraise⟩, rfl⟩

end

/-- The requests of a batch are its packets, in order. -/
theorem requestsOf_packets {delegate : Delegate Session Model Kind Msg Value}
    {packets : List (Packet Kind Msg)} {requests : List (Request Session Model Kind Msg Value)}
    (h : requestsOf delegate packets = some requests) :
    requests.map Prod.fst = packets := by
  induction packets generalizing requests with
  | nil =>
      cases h
      rfl
  | cons packet packets ih =>
      unfold requestsOf at h
      split at h
      · next handler rest hhandler hrest =>
        cases h
        rw [List.map_cons, ih hrest]
      · cases h

/-- There are requests exactly when every type has a handler. -/
theorem requestsOf_isSome_iff {delegate : Delegate Session Model Kind Msg Value}
    {packets : List (Packet Kind Msg)} :
    (∃ requests, requestsOf delegate packets = some requests) ↔
      ∀ packet ∈ packets, ∃ handler, delegate.allHandlers packet.t = some handler := by
  induction packets with
  | nil => simp [requestsOf]
  | cons packet packets ih =>
      rw [List.forall_mem_cons, ← ih]
      constructor
      · rintro ⟨requests, h⟩
        unfold requestsOf at h
        split at h
        · next handler rest hhandler hrest => exact ⟨⟨handler, hhandler⟩, rest, hrest⟩
        · cases h
      · rintro ⟨⟨handler, hhandler⟩, rest, hrest⟩
        refine ⟨(packet, handler) :: rest, ?_⟩
        unfold requestsOf
        rw [hhandler, hrest]

/-! ## A failed batch -/

/-- The environment in which the requests of a batch start. -/
def startEnv (session : Session) (store : Store Model)
    (requests : List (Request Session Model Kind Msg Value)) : Env Session Model :=
  { session := session, model := if needsModel requests then some store.visible else none }

/-- A batch with its circumstances, and the session and the store that it finds. -/
structure Batch (Session Model Kind Msg : Type*) where
  around : Circumstances
  session : Session
  store : Store Model
  packets : List (Packet Kind Msg)

section

variable (delegate : Delegate Session Model Kind Msg Value) (batch : Batch Session Model Kind Msg)
  (requests : List (Request Session Model Kind Msg Value))

/-- `dispatch_batch` of a batch. -/
def Batch.dispatched : Dispatched Session Model Kind Value :=
  dispatchBatch delegate batch.around batch.session batch.store batch.packets

/-- The loop over the requests of a batch. -/
def Batch.loop : Progress Session Model Kind Value × Bool :=
  runRequests delegate batch.around 0 requests
    { env := startEnv batch.session batch.store requests }

/-- The requests of a batch that are run, each with the environment it finds. -/
def Batch.ran : List (Request Session Model Kind Msg Value × Env Session Model) :=
  Dispatcher.ran delegate batch.around 0 false requests
    (startEnv batch.session batch.store requests)

/-- No call of `to_wire` or `log_action` raises while the requests are processed. -/
def Batch.Passes : Prop :=
  Dispatcher.Passes delegate batch.around 0 false requests
    (startEnv batch.session batch.store requests)

/-- A request of the batch fails: its type is unknown, or it is processed and
its handler answers `success = false` or raises. -/
def Batch.Fails : Prop :=
  match requestsOf delegate batch.packets with
  | none => True
  | some requests =>
      (needsModel requests = true → batch.around.take.runs = true) ∧
        ∃ run ∈ batch.ran delegate requests, RequestFails delegate run

/-- The store when no request changes the model. -/
def Batch.untouched : Store Model :=
  match requestsOf delegate batch.packets with
  | none => batch.store
  | some requests =>
      if needsModel requests then
        batch.around.finish (batch.loop delegate requests).2 batch.store batch.store.visible
      else batch.store

/-- After a failed request the visible and the stored model are what they would
be had no request changed the model. -/
def Batch.Atomic : Prop :=
  batch.Fails delegate →
    (batch.dispatched delegate).store.visible = (batch.untouched delegate).visible ∧
    (batch.dispatched delegate).store.stored = (batch.untouched delegate).stored

/-- The lock has expired and the model does not validate, so that it is dropped. -/
def Batch.Dropped : Prop :=
  batch.around.take = .expires .rejected ∧ batch.around.updateRaises = false ∧
    batch.Passes delegate requests

/-- When a request of the batch fails, every request that is run leaves the model it is
given as it is; unless there is no model, or it is dropped. -/
def Batch.Clean : Prop :=
  ∀ requests, requestsOf delegate batch.packets = some requests → needsModel requests = true →
    batch.around.take.runs = true → ¬ batch.Dropped delegate requests →
    (∃ run ∈ batch.ran delegate requests, RequestFails delegate run) →
      ∀ run ∈ batch.ran delegate requests, Leaves delegate run

/-- No two requests of the batch change the models they are given. -/
def Batch.ChangesOnce : Prop :=
  ∀ requests, requestsOf delegate batch.packets = some requests →
    (batch.ran delegate requests).Pairwise
      fun run other => Leaves delegate run ∨ Leaves delegate other

end

section

variable {delegate : Delegate Session Model Kind Msg Value} {batch : Batch Session Model Kind Msg}
  {requests : List (Request Session Model Kind Msg Value)}

/-- A batch of one packet changes the model at most once. -/
theorem changesOnce_of_single {packet : Packet Kind Msg} (hpackets : batch.packets = [packet]) :
    batch.ChangesOnce delegate := by
  intro requests hrequests
  have hlength : requests.length ≤ 1 := by
    rw [← List.length_map Prod.fst, requestsOf_packets hrequests, hpackets]
    exact le_rfl
  unfold Batch.ran
  match requests, hlength with
  | [], _ => exact List.Pairwise.nil
  | [request], _ =>
      unfold ran
      dsimp only
      split <;> exact List.pairwise_singleton _ _

/-- The model that a batch keeps shows in the store. -/
theorem finish_eq_iff (around : Circumstances) (ended : Bool) (store : Store Model) (model : Model)
    (htake : around.take.runs = true) :
    ((around.finish ended store model).visible =
        (around.finish ended store store.visible).visible ∧
      (around.finish ended store model).stored =
        (around.finish ended store store.visible).stored) ↔
      (¬ (around.take = .expires .rejected ∧ around.updateRaises = false ∧ ended = false) →
        model = store.visible) := by
  unfold Circumstances.finish
  cases hends : ended || around.updateRaises with
  | true =>
      have hnot : ¬ (around.updateRaises = false ∧ ended = false) := by
        rintro ⟨hupdate, hended⟩
        rw [hupdate, hended] at hends
        cases hends
      simp [Store.visible, hnot]
  | false =>
      obtain ⟨hended, hupdate⟩ := Bool.or_eq_false_iff.mp hends
      cases htaken : around.take with
      | fails dropped =>
          rw [htaken] at htake
          cases htake
      | yields => simp [Take.finish, Store.visible]
      | expires put =>
          cases put with
          | saved => simp [Take.finish, Store.visible]
          | rejected => simp [Take.finish, hended, hupdate]
          | raised => simp [Take.finish, Store.visible]

theorem isSome_after {α : Type*} (env : Env Session Model) (effect : Effect Session Model α) :
    (env.after effect).model.isSome = env.model.isSome :=
  Option.isSome_map

theorem isSome_call (handler : Handler Session Model Msg Value) (env : Env Session Model)
    (msg : Msg) : (handler.call env msg).1.model.isSome = env.model.isSome := by
  unfold Handler.call
  cases handler with
  | plain process => rfl
  | withModel process =>
      cases hmodel : env.model with
      | none => simp [hmodel]
      | some model => rfl

/-- A request may change the model, but it is there when it was there before. -/
theorem isSome_process (handler : Handler Session Model Msg Value) (env : Env Session Model)
    (packet : Packet Kind Msg) :
    (process delegate handler env packet).1.model.isSome = env.model.isSome := by
  have hbefore := isSome_after env (delegate.onBeforeProcess env packet.t packet.msg .failure)
  unfold process
  dsimp only
  split
  · exact hbefore
  · exact hbefore
  · have hcall := isSome_call handler
      (env.after (delegate.onBeforeProcess env packet.t packet.msg .failure)) packet.msg
    split
    · next heq =>
      rw [heq] at hcall
      exact hcall.trans hbefore
    · next heq =>
      rw [heq] at hcall
      exact (isSome_after _ _).trans (hcall.trans hbefore)

theorem isSome_runRequests (around : Circumstances) (k : Nat)
    (requests : List (Request Session Model Kind Msg Value))
    (progress : Progress Session Model Kind Value) :
    (runRequests delegate around k requests progress).1.env.model.isSome =
      progress.env.model.isSome := by
  induction requests generalizing k progress with
  | nil => rfl
  | cons request requests ih =>
      have hfirst := @isSome_process _ _ _ _ _ delegate request.2 progress.env request.1
      rcases @runRequests_cons _ _ _ _ _ delegate around k request requests progress with
        ⟨-, henv, -⟩ | ⟨-, hrun⟩
      · rw [henv, hfirst]
      · rw [hrun, ih]
        exact hfirst

/-- The model after the loop is the one before it, or the loop has changed it. -/
theorem getD_loop_eq_iff (hneeds : needsModel requests = true) :
    (batch.loop delegate requests).1.env.model.getD batch.store.visible = batch.store.visible ↔
      (batch.loop delegate requests).1.env.model =
        (startEnv batch.session batch.store requests).model := by
  have hsome := @isSome_runRequests _ _ _ _ _ delegate batch.around 0 requests
    { env := startEnv batch.session batch.store requests }
  have hstart : (startEnv batch.session batch.store requests).model = some batch.store.visible :=
    if_pos hneeds
  have hloop : (batch.loop delegate requests).1.env.model.isSome = true := by
    refine Eq.trans hsome ?_
    rw [hstart]
    rfl
  obtain ⟨model, hmodel⟩ := Option.isSome_iff_exists.mp hloop
  rw [hstart, hmodel]
  simp

/-- The store after a batch that runs on a model. -/
theorem store_dispatched (hrequests : requestsOf delegate batch.packets = some requests)
    (hneeds : needsModel requests = true) (htake : batch.around.take.runs = true) :
    (batch.dispatched delegate).store =
      batch.around.finish (batch.loop delegate requests).2 batch.store
        ((batch.loop delegate requests).1.env.model.getD batch.store.visible) := by
  unfold Batch.dispatched Batch.loop dispatchBatch
  rw [hrequests]
  simp only [dispatchWithModel, startEnv, hneeds, if_true]
  split
  · next heq =>
    rw [heq] at htake
    cases htake
  · rfl

/-- A batch leaves no trace exactly when it keeps the model as it was, or does not keep it. -/
theorem atomic_iff_loop :
    batch.Atomic delegate ↔
      ∀ requests, requestsOf delegate batch.packets = some requests → needsModel requests = true →
        batch.around.take.runs = true → ¬ batch.Dropped delegate requests →
        (∃ run ∈ batch.ran delegate requests, RequestFails delegate run) →
          (batch.loop delegate requests).1.env.model =
            (startEnv batch.session batch.store requests).model := by
  unfold Batch.Atomic Batch.Fails Batch.untouched
  cases hrequests : requestsOf delegate batch.packets with
  | none => simp [Batch.dispatched, dispatchBatch, hrequests]
  | some requests =>
      have hended : (batch.loop delegate requests).2 = false ↔ batch.Passes delegate requests :=
        ended_iff 0 requests { env := startEnv batch.session batch.store requests }
      simp only [Option.some.injEq, forall_eq']
      by_cases hneeds : needsModel requests = true
      · simp only [hneeds, if_true, true_implies]
        constructor
        · intro hatomic htake hdropped hfails
          have hsame := hatomic ⟨htake, hfails⟩
          rw [store_dispatched hrequests hneeds htake, finish_eq_iff _ _ _ _ htake, hended] at hsame
          exact (getD_loop_eq_iff hneeds).mp (hsame hdropped)
        · rintro hkept ⟨htake, hfails⟩
          rw [store_dispatched hrequests hneeds htake, finish_eq_iff _ _ _ _ htake, hended]
          exact fun hdropped => (getD_loop_eq_iff hneeds).mpr (hkept htake hdropped hfails)
      · rw [Bool.not_eq_true] at hneeds
        refine iff_of_true (fun _ => ?_) fun h => ?_
        · simp [Batch.dispatched, dispatchBatch, hrequests, dispatchWithModel, hneeds]
        · rw [hneeds] at h
          cases h

theorem atomic_of_clean (clean : batch.Clean delegate) : batch.Atomic delegate := by
  refine atomic_iff_loop.mpr fun requests hrequests hneeds htake hdropped hfails => ?_
  exact model_of_leaves 0 requests { env := startEnv batch.session batch.store requests }
    (clean requests hrequests hneeds htake hdropped hfails)

theorem clean_of_atomic (honce : batch.ChangesOnce delegate) (atomic : batch.Atomic delegate) :
    batch.Clean delegate := by
  intro requests hrequests hneeds htake hdropped hfails run hrun
  have hsame := atomic_iff_loop.mp atomic requests hrequests hneeds htake hdropped hfails
  by_contra hnot
  exact model_of_changes 0 requests { env := startEnv batch.session batch.store requests }
    (honce requests hrequests) ⟨run, hrun, hnot⟩ hsame

end

/-! ## Responses -/

/-- Every type of the batch has a handler; when one of the handlers takes a model the
cache hands it out, the callbacks of the update go through and the lock is still valid
afterwards; and no call of `to_wire` or `log_action` raises. -/
structure Batch.Ready (delegate : Delegate Session Model Kind Msg Value)
    (batch : Batch Session Model Kind Msg) : Prop where
  known : ∀ packet ∈ batch.packets, ∃ handler, delegate.allHandlers packet.t = some handler
  taken : (∃ packet ∈ batch.packets, ∃ handler, delegate.allHandlers packet.t = some handler ∧
    handler.takesModel = true) → batch.around.take = .yields ∧ batch.around.updateRaises = false
  passes : ∀ requests, requestsOf delegate batch.packets = some requests →
    batch.Passes delegate requests
  answered : ∀ requests, requestsOf delegate batch.packets = some requests →
    (∃ run ∈ batch.ran delegate requests, RequestFails delegate run) →
      ∀ k < batch.packets.length, batch.around.rewireRaises k = false

theorem requestsOf_handler {delegate : Delegate Session Model Kind Msg Value}
    {packets : List (Packet Kind Msg)} {requests : List (Request Session Model Kind Msg Value)}
    (h : requestsOf delegate packets = some requests) :
    needsModel requests = true ↔ ∃ packet ∈ packets, ∃ handler,
      delegate.allHandlers packet.t = some handler ∧ handler.takesModel = true := by
  induction packets generalizing requests with
  | nil =>
      cases h
      simp [needsModel]
  | cons packet packets ih =>
      unfold requestsOf at h
      split at h
      · next handler rest hhandler hrest =>
        cases h
        have hrest' := ih hrest
        unfold needsModel at hrest' ⊢
        rw [List.any_cons, Bool.or_eq_true, hrest', List.exists_mem_cons_iff, hhandler]
        simp
      · cases h

section

variable {delegate : Delegate Session Model Kind Msg Value} {batch : Batch Session Model Kind Msg}
  {requests : List (Request Session Model Kind Msg Value)}

/-- What the loop makes of the responses of a batch, if no error ends it. -/
def Batch.answers (delegate : Delegate Session Model Kind Msg Value)
    (batch : Batch Session Model Kind Msg)
    (requests : List (Request Session Model Kind Msg Value)) :
    Outcome (List (ResPacket Kind Value)) :=
  if (batch.loop delegate requests).2 then .raised
  else Dispatcher.answers batch.around (batch.loop delegate requests).1

/-- The responses are made exactly when no call of `to_wire` or `log_action` raises, and
then packet by packet. -/
theorem answers_loop (hrequests : requestsOf delegate batch.packets = some requests) :
    ((batch.Passes delegate requests ∧
        ((∃ run ∈ batch.ran delegate requests, RequestFails delegate run) →
          ∀ k < batch.packets.length, batch.around.rewireRaises k = false)) ∧
      ∃ results, batch.answers delegate requests = .ok results ∧
        results.map ResPacket.key = batch.packets.map Packet.key) ∨
    (¬ (batch.Passes delegate requests ∧
        ((∃ run ∈ batch.ran delegate requests, RequestFails delegate run) →
          ∀ k < batch.packets.length, batch.around.rewireRaises k = false)) ∧
      batch.answers delegate requests = .raised) := by
  have hended : (batch.loop delegate requests).2 = false ↔ batch.Passes delegate requests :=
    ended_iff 0 requests { env := startEnv batch.session batch.store requests }
  unfold Batch.answers
  by_cases hpasses : batch.Passes delegate requests
  · rw [hended.mpr hpasses]
    -- nothing raised in the loop, so there is one packet for each request
    have hkeys : (batch.loop delegate requests).1.resPackets.map ResPacket.key =
        batch.packets.map Packet.key := by
      refine (runRequests_keys 0 requests
        { env := startEnv batch.session batch.store requests } hpasses).trans ?_
      rw [← requestsOf_packets hrequests, List.map_map]
      rfl
    have hlength : (batch.loop delegate requests).1.resPackets.length = batch.packets.length := by
      simpa using congrArg List.length hkeys
    have hfailed := failed_iff 0 requests
      { env := startEnv batch.session batch.store requests } hpasses
    rcases @answers_cases _ _ _ _ batch.around (batch.loop delegate requests).1 with
      ⟨hquiet, results, hok, hresults⟩ | ⟨hfails, ⟨k, hk, hraises⟩, hraised⟩
    · refine .inl ⟨⟨hpasses, fun hfails => ?_⟩, results, hok, hresults.trans hkeys⟩
      rw [← hlength]
      exact hquiet (hfailed.mpr (.inr hfails))
    · refine .inr ⟨fun h => ?_, hraised⟩
      -- a rewritten response raised, so some request failed
      have hsome := (hfailed.mp hfails).resolve_left Bool.false_ne_true
      rw [hlength] at hk
      rw [h.2 hsome k hk] at hraises
      cases hraises
  · have hends : (batch.loop delegate requests).2 = true :=
      Bool.eq_true_of_not_eq_false fun h => hpasses (hended.mp h)
    rw [hends]
    exact .inr ⟨fun h => hpasses h.1, rfl⟩

/-- A batch is answered exactly when it is ready, and then packet by packet. -/
theorem outcome_dispatched (delegate : Delegate Session Model Kind Msg Value)
    (batch : Batch Session Model Kind Msg) :
    (batch.Ready delegate ∧
      ∃ results, (batch.dispatched delegate).outcome = .ok results ∧
        results.map ResPacket.key = batch.packets.map Packet.key) ∨
    (¬ batch.Ready delegate ∧ (batch.dispatched delegate).outcome = .raised) := by
  cases hrequests : requestsOf delegate batch.packets with
  | none =>
      refine .inr ⟨fun ready => ?_, by simp [Batch.dispatched, dispatchBatch, hrequests]⟩
      -- a packet without a handler
      obtain ⟨requests, hsome⟩ := requestsOf_isSome_iff.mpr ready.known
      rw [hrequests] at hsome
      cases hsome
  | some requests =>
      have hknown := requestsOf_isSome_iff.mp ⟨requests, hrequests⟩
      have hready : batch.Ready delegate ↔
          (needsModel requests = true →
            batch.around.take = .yields ∧ batch.around.updateRaises = false) ∧
          batch.Passes delegate requests ∧
            ((∃ run ∈ batch.ran delegate requests, RequestFails delegate run) →
              ∀ k < batch.packets.length, batch.around.rewireRaises k = false) := by
        rw [requestsOf_handler hrequests]
        constructor
        · intro ready
          exact ⟨ready.taken, ready.passes requests hrequests, ready.answered requests hrequests⟩
        · rintro ⟨htaken, hpasses, hanswered⟩
          refine ⟨hknown, htaken, fun other hother => ?_, fun other hother => ?_⟩
          · rw [hrequests, Option.some.injEq] at hother
            exact hother ▸ hpasses
          · rw [hrequests, Option.some.injEq] at hother
            exact hother ▸ hanswered
      have hdispatched : batch.dispatched delegate =
          dispatchWithModel delegate batch.around batch.session batch.store requests := by
        unfold Batch.dispatched dispatchBatch
        rw [hrequests]
      rw [hready, hdispatched]
      have hanswers := answers_loop hrequests
      by_cases hneeds : needsModel requests = true
      · by_cases htaken : batch.around.take = .yields ∧ batch.around.updateRaises = false
        · have houtcome : (dispatchWithModel delegate batch.around batch.session batch.store
              requests).outcome = batch.answers delegate requests := by
            unfold dispatchWithModel Batch.answers Batch.loop startEnv
            simp only [hneeds, if_true, htaken.1, htaken.2, Bool.or_false, ne_eq,
              not_true_eq_false, decide_false]
          rw [houtcome]
          rcases hanswers with ⟨hgoes, hok⟩ | ⟨hnot, hraised⟩
          · exact .inl ⟨⟨fun _ => htaken, hgoes⟩, hok⟩
          · exact .inr ⟨fun h => hnot h.2, hraised⟩
        · refine .inr ⟨fun h => htaken (h.1 hneeds), ?_⟩
          unfold dispatchWithModel
          rw [if_pos hneeds]
          split
          · rfl
          · next take htake =>
            have hraises : (batch.around.updateRaises || decide (batch.around.take ≠ .yields)) =
                true := by
              -- the block was run, but the lock has expired or the update raises
              rw [not_and_or, Bool.not_eq_false] at htaken
              rw [Bool.or_eq_true, decide_eq_true_eq]
              exact htaken.symm
            dsimp only
            rw [Bool.or_assoc, hraises, Bool.or_true]
            rfl
      · have houtcome : (dispatchWithModel delegate batch.around batch.session batch.store
            requests).outcome = batch.answers delegate requests := by
          unfold dispatchWithModel Batch.answers Batch.loop startEnv
          rw [if_neg hneeds, if_neg hneeds]
        rw [houtcome]
        rcases hanswers with ⟨hgoes, hok⟩ | ⟨hnot, hraised⟩
        · exact .inl ⟨⟨fun h => absurd h hneeds, hgoes⟩, hok⟩
        · exact .inr ⟨fun h => hnot h.2, hraised⟩

end

/-- The batches into which `dispatch` divides the packets. -/
def batchesFrom (delegate : Delegate Session Model Kind Msg Value) :
    List (Packet Kind Msg) → (Nat → Circumstances) → Session → Store Model →
      List (Packet Kind Msg) → List (Batch Session Model Kind Msg)
  | [], _, _, _, _ => []
  | packet :: packets, arounds, session, store, curBatch =>
      let curBatch := curBatch ++ [packet]
      if !delegate.canBatch session packet.t packet.msg || packets.isEmpty then
        let batch : Batch Session Model Kind Msg := ⟨arounds 0, session, store, curBatch⟩
        batch :: batchesFrom delegate packets (fun k => arounds (k + 1))
          (batch.dispatched delegate).session (batch.dispatched delegate).store []
      else batchesFrom delegate packets arounds session store curBatch

/-- Exactly one response per packet, in packet order, with the packet's own
number and type. -/
def Answered (delegate : Delegate Session Model Kind Msg Value) (arounds : Nat → Circumstances)
    (session : Session) (store : Store Model) (packets : List (Packet Kind Msg)) : Prop :=
  ∃ results, (dispatch delegate arounds session store packets).outcome = .ok results ∧
    results.map ResPacket.key = packets.map Packet.key

/-- The loop of `dispatch` answers what is left exactly when every batch it
forms is ready.  A current batch is only left over when there are packets to
come. -/
theorem dispatchFrom_outcome (delegate : Delegate Session Model Kind Msg Value)
    (packets : List (Packet Kind Msg)) (arounds : Nat → Circumstances) (session : Session)
    (store : Store Model) (curBatch : List (Packet Kind Msg))
    (results : List (ResPacket Kind Value)) (hcur : packets = [] → curBatch = []) :
    ((∀ batch ∈ batchesFrom delegate packets arounds session store curBatch,
        batch.Ready delegate) ∧
      ∃ answers,
        (dispatchFrom delegate packets arounds session store curBatch results).outcome =
          .ok (results ++ answers) ∧
        answers.map ResPacket.key = (curBatch ++ packets).map Packet.key) ∨
    ((¬ ∀ batch ∈ batchesFrom delegate packets arounds session store curBatch,
        batch.Ready delegate) ∧
      (dispatchFrom delegate packets arounds session store curBatch results).outcome =
        .raised) := by
  induction packets generalizing arounds session store curBatch results with
  | nil =>
      refine Or.inl ⟨by simp [batchesFrom], [], ?_, ?_⟩
      · simp [dispatchFrom]
      · simp [hcur rfl]
  | cons packet packets ih =>
      unfold batchesFrom dispatchFrom
      simp only
      by_cases hend : (!delegate.canBatch session packet.t packet.msg || packets.isEmpty) = true
      · rw [if_pos hend, if_pos hend, List.forall_mem_cons]
        -- this packet ends the batch
        rcases outcome_dispatched delegate ⟨arounds 0, session, store, curBatch ++ [packet]⟩ with
          ⟨hready, answers, houtcome, hkeys⟩ | ⟨hready, houtcome⟩
        · unfold Batch.dispatched at houtcome
          rw [houtcome]
          rcases ih (fun k => arounds (k + 1)) _ _ [] (results ++ answers) (fun _ => rfl) with
            ⟨hrest, more, hmore, hmoreKeys⟩ | ⟨hrest, hraised⟩
          · refine Or.inl ⟨⟨hready, hrest⟩, answers ++ more, ?_, ?_⟩
            · exact hmore.trans (by rw [List.append_assoc])
            · rw [List.map_append, hkeys, hmoreKeys, ← List.map_append, List.nil_append,
                List.append_assoc, List.singleton_append]
          · exact Or.inr ⟨fun h => hrest h.2, hraised⟩
        · unfold Batch.dispatched at houtcome
          rw [houtcome]
          exact Or.inr ⟨fun h => hready h.1, houtcome⟩
      · -- the batch goes on with the next packet
        rw [if_neg hend, if_neg hend]
        have hmore : packets = [] → curBatch ++ [packet] = [] := by
          intro hnil
          rw [hnil] at hend
          simp at hend
        have hsplit : curBatch ++ packet :: packets = curBatch ++ [packet] ++ packets := by simp
        rw [hsplit]
        exact ih arounds session store (curBatch ++ [packet]) results hmore

theorem answered_iff (delegate : Delegate Session Model Kind Msg Value)
    (arounds : Nat → Circumstances) (session : Session) (store : Store Model)
    (packets : List (Packet Kind Msg)) :
    Answered delegate arounds session store packets ↔
      ∀ batch ∈ batchesFrom delegate packets arounds session store [], batch.Ready delegate := by
  unfold Answered dispatch
  rcases dispatchFrom_outcome delegate packets arounds session store [] [] (fun _ => rfl) with
    ⟨hready, answers, houtcome, hkeys⟩ | ⟨hready, houtcome⟩
  · exact iff_of_true ⟨answers, houtcome, hkeys⟩ hready
  · refine iff_of_false (fun h => ?_) hready
    obtain ⟨results, hok, -⟩ := h
    rw [houtcome] at hok
    cases hok

/-- Type 1 adds one to the model and then answers `success = false`; type 2 has
no handler. -/
def spendAndFail : Delegate Unit Nat Nat Unit Unit where
  allHandlers := fun t =>
    if t = 1 then some (.withModel fun session _ model => ((session, model + 1), .ok .failure))
    else none

/-- One packet of type 1. -/
def spending : Batch Unit Nat Nat Unit := ⟨{}, (), ⟨some 10, 10⟩, [⟨1, 1, ()⟩]⟩

end Dispatcher
end Server
end ArmyRs
