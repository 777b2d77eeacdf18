import ArmyRs.Messaging.RedisRpc

/-!
# Replies reach their calls

`RepliesDelivered` says that the reply of a call stays in the queue until it is handed
to the stub of the call while the call waits, that the call then ends with just this
result, and that only a call that has timed out before misses its reply.

The request of a call is in the queue before its stub is entered, so a fast reply can
find no stub.  A stub has room for one result.  A call whose time is up after a sleep
does not look whether its stub was notified during the sleep.  And the counter of the
ids starts over.  `Careful` excludes these four.
-/

namespace ArmyRs
namespace Messaging
namespace RedisRpc

open Foundation

variable {Value : Type*}

/-- The call is in the loop of `wait_for_result`. -/
def Stage.waits : Stage Value → Bool
  | .sleeping _ => true
  | .polling _ => true
  | .checking _ => true
  | _ => false

/-- The call has an id and has not ended. -/
def Stage.underWay : Stage Value → Bool
  | .enqueueing => true
  | .published => true
  | .sleeping _ => true
  | .polling _ => true
  | .checking _ => true
  | _ => false

/-- The call ends with the result. -/
def Stage.EndsWith (stage : Stage Value) (result : Value) : Prop :=
  stage = .returned result ∨ stage = .callError result

/-- The request or the reply is in a queue. -/
def Message.outstanding : Message Value → Bool
  | .requested => true
  | .replied _ => true
  | _ => false

/-- The id of the call is in use. -/
def Call.inUse (c : Call Value) : Bool :=
  c.stage.underWay || c.message.outstanding

/-- What the queue of requests holds for a call. -/
def Message.requests (message : Message Value) (id call : Nat) : List Request :=
  match message with
  | .requested => [⟨id, call⟩]
  | _ => []

/-- What is unprocessed for a call. -/
def Message.replies (message : Message Value) (id call : Nat) : List (Reply Value) :=
  match message with
  | .replied result => [⟨id, result, call⟩]
  | _ => []

/-- The replies that have not been processed. -/
def Endpoint.unprocessed (s : Endpoint Value) : List (Reply Value) :=
  (s.hand.map Prod.fst).toList ++ s.replies

/-- Replies are delivered, once and to their own calls. -/
structure RepliesDelivered (s : Endpoint Value) : Prop where
  own : ∀ c ∈ s.calls, ∀ result, c.stage.EndsWith result → c.message = .notified result
  queued : ∀ i c, s.calls[i]? = some c →
    (s.unprocessed.filter fun reply => reply.call = i) = c.message.replies c.id i
  dropped : ∀ c ∈ s.calls, ∀ result, c.message = .dropped result → c.stage = .timedOut
  delivered : ∀ c ∈ s.calls, ∀ result, c.message = .notified result →
    c.stage.EndsWith result ∨ c.stage.waits ∧ (s.stubs c.stub).returned ∧
      (s.stubs c.stub).curResult = some result

/-- What a step of a call has to meet.

* The id that it takes is not in use.
* When it enters its stub, no other call waits with that stub.
* When it times out, its stub has not been notified. -/
def CarefulAt (s : Endpoint Value) (c : Call Value) : Stage Value → Prop
  | .counting => ∀ d ∈ s.calls, d.inUse → d.id ≠ s.nextCounter
  | .published => ∀ d ∈ s.calls, d.stage.waits → d.stub ≠ c.stub
  | .sleeping waitTime =>
      (s.stubs c.stub).callTimeout < waitTime + (s.stubs c.stub).pollInterval →
        (s.stubs c.stub).returned = false
  | _ => True

def Stage.isPublished : Stage Value → Bool
  | .published => true
  | _ => false

/-- The condition on an event.  A reply is not processed before its call has entered its
stub. -/
def Careful (s : Endpoint Value) : Event Value → Prop
  | .advance i => ∀ c ∈ s.calls[i]?, CarefulAt s c c.stage
  | .handle => ∀ taken ∈ s.hand, ∀ c ∈ s.calls[taken.1.call]?, c.stage.isPublished = false
  | _ => True

instance CarefulAt.decidable (s : Endpoint Value) (c : Call Value) :
    (stage : Stage Value) → Decidable (CarefulAt s c stage)
  | .counting => inferInstanceAs (Decidable (∀ d ∈ (_ : List (Call Value)), _ → _))
  | .published => inferInstanceAs (Decidable (∀ d ∈ (_ : List (Call Value)), _ → _))
  | .sleeping _ => inferInstanceAs (Decidable (_ → _))
  | .enqueueing => isTrue trivial
  | .polling _ => isTrue trivial
  | .checking _ => isTrue trivial
  | .returned _ => isTrue trivial
  | .callError _ => isTrue trivial
  | .timedOut => isTrue trivial

instance Careful.decidable (s : Endpoint Value) :
    (event : Event Value) → Decidable (Careful s event)
  | .advance _ => inferInstanceAs (Decidable (∀ c ∈ (_ : Option (Call Value)), _))
  | .handle => inferInstanceAs (Decidable (∀ taken ∈ (_ : Option (Reply Value × Option Nat)),
      ∀ c ∈ (_ : Option (Call Value)), _))
  | .call _ => isTrue trivial
  | .serve _ _ => isTrue trivial
  | .workLoop => isTrue trivial

/-! ## What the steps keep -/

/-- A waiting call is entered and not notified yet, or notified with its own result. -/
def Awaiting (s : Endpoint Value) (c : Call Value) : Prop :=
  (c.message.outstanding = true ∧ s.waitingCalls c.id = some c.stub ∧
      (s.stubs c.stub).returned = false) ∨
    ∃ result, c.message = .notified result ∧ (s.stubs c.stub).returned = true ∧
      (s.stubs c.stub).curResult = some result

/-- The call has what its stage needs. -/
def Fits (s : Endpoint Value) (c : Call Value) : Prop :=
  match c.stage with
  | .counting => c.message = .unsent
  | .enqueueing => c.message = .unsent
  | .published => c.message.outstanding = true
  | .returned result => c.message = .notified result
  | .callError result => c.message = .notified result
  | .timedOut => c.message.outstanding = true ∨ ∃ result, c.message = .dropped result
  | _ => Awaiting s c

/-- Two calls do not share an id in use, and not a stub they wait with. -/
def Apart (c d : Call Value) : Prop :=
  (c.inUse → d.inUse → c.id ≠ d.id) ∧ (c.stage.waits → d.stage.waits → c.stub ≠ d.stub)

/-- A call that uses no more than before. -/
theorem Apart.of_le {c c' d : Call Value} (h : Apart c d) (hid : c'.id = c.id)
    (hstub : c'.stub = c.stub) (hinUse : c'.inUse → c.inUse)
    (hwaits : c'.stage.waits → c.stage.waits) : Apart c' d :=
  ⟨fun hc => hid ▸ h.1 (hinUse hc), fun hc => hstub ▸ h.2 (hwaits hc)⟩

theorem Apart.symm (c d : Call Value) (h : Apart c d) : Apart d c :=
  ⟨fun hd hc => (h.1 hc hd).symm, fun hd hc => (h.2 hc hd).symm⟩

/-- The queues hold for each call what its record says. -/
structure Queues (calls : List (Call Value)) (requests : List Request)
    (unprocessed : List (Reply Value)) : Prop where
  requested : ∀ i c, calls[i]? = some c →
    (requests.filter fun request => request.call = i) = c.message.requests c.id i
  replied : ∀ i c, calls[i]? = some c →
    (unprocessed.filter fun reply => reply.call = i) = c.message.replies c.id i
  requested_known : ∀ request ∈ requests, request.call < calls.length
  replied_known : ∀ reply ∈ unprocessed, reply.call < calls.length

structure Kept (s : Endpoint Value) : Prop where
  queues : Queues s.calls s.requests s.unprocessed
  fits : ∀ c ∈ s.calls, Fits s c
  waiting : ∀ id stub, s.waitingCalls id = some stub →
    ∃ c ∈ s.calls, c.stage.waits ∧ c.message.outstanding ∧ c.id = id ∧ c.stub = stub
  apart : s.calls.Pairwise Apart

theorem kept_new (counter : Nat) (pollInterval callTimeout : Nat → Nat) :
    Kept (.new counter pollInterval callTimeout : Endpoint Value) where
  queues :=
    { requested := by simp [Endpoint.new]
      replied := by simp [Endpoint.new]
      requested_known := by simp [Endpoint.new]
      replied_known := by simp [Endpoint.new, Endpoint.unprocessed] }
  fits := by simp [Endpoint.new]
  waiting := by simp [Endpoint.new]
  apart := List.Pairwise.nil

section

variable {s next : Endpoint Value} {c c' : Call Value} {i waitTime : Nat}

theorem fits_iff_awaiting (hwaits : c.stage.waits) : Fits s c ↔ Awaiting s c := by
  cases hstage : c.stage <;> simp [hstage, Stage.waits] at hwaits <;> simp [Fits, hstage]

theorem inUse_of_waits (hwaits : c.stage.waits) : c.inUse := by
  cases hstage : c.stage <;>
    simp [Stage.waits, Call.inUse, Stage.underWay, hstage] at hwaits ⊢

/-- A call fits when the parts of the state that it waits for are the same. -/
theorem Fits.congr (h : Fits s c)
    (hsame : c.stage.waits → next.waitingCalls c.id = s.waitingCalls c.id ∧
      next.stubs c.stub = s.stubs c.stub) : Fits next c := by
  cases hstage : c.stage with
  | sleeping waitTime =>
      obtain ⟨hwaiting, hstub⟩ := hsame (by simp [hstage, Stage.waits])
      simpa only [Fits, hstage, Awaiting, hwaiting, hstub] using h
  | polling waitTime =>
      obtain ⟨hwaiting, hstub⟩ := hsame (by simp [hstage, Stage.waits])
      simpa only [Fits, hstage, Awaiting, hwaiting, hstub] using h
  | checking waitTime =>
      obtain ⟨hwaiting, hstub⟩ := hsame (by simp [hstage, Stage.waits])
      simpa only [Fits, hstage, Awaiting, hwaiting, hstub] using h
  | counting => simpa only [Fits, hstage] using h
  | enqueueing => simpa only [Fits, hstage] using h
  | published => simpa only [Fits, hstage] using h
  | returned result => simpa only [Fits, hstage] using h
  | callError result => simpa only [Fits, hstage] using h
  | timedOut => simpa only [Fits, hstage] using h

/-- The invariant gives the property. -/
theorem Kept.repliesDelivered (h : Kept s) : RepliesDelivered s where
  own := by
    intro c hc result hends
    have hfits := h.fits c hc
    rcases hends with hstage | hstage
    · simpa only [Fits, hstage] using hfits
    · simpa only [Fits, hstage] using hfits
  queued := h.queues.replied
  dropped := by
    intro c hc result hdropped
    have hfits := h.fits c hc
    cases hstage : c.stage <;>
      simp [Fits, Awaiting, hstage, hdropped, Message.outstanding] at hfits ⊢
  delivered := by
    intro c hc result hnotified
    have hfits := h.fits c hc
    by_cases hwaits : c.stage.waits
    · rcases (fits_iff_awaiting hwaits).mp hfits with
        ⟨houtstanding, -⟩ | ⟨other, hother, hreturned, hresult⟩
      · simp [hnotified, Message.outstanding] at houtstanding
      · rw [hnotified] at hother
        cases hother
        exact Or.inr ⟨hwaits, hreturned, hresult⟩
    · left
      cases hstage : c.stage <;>
        simp [Fits, hstage, hnotified, Message.outstanding, Stage.EndsWith, Stage.waits]
          at hfits hwaits ⊢
      · exact hfits.symm
      · exact hfits.symm

/-! ## One call moves -/

theorem Queues.set {calls : List (Call Value)} {requests requests' : List Request}
    {unprocessed unprocessed' : List (Reply Value)} (h : Queues calls requests unprocessed)
    (hrequests : (requests'.filter fun request => request.call = i) = c'.message.requests c'.id i)
    (hreplies : (unprocessed'.filter fun reply => reply.call = i) = c'.message.replies c'.id i)
    (hothers : ∀ j, j ≠ i →
      (requests'.filter fun request => request.call = j) =
          (requests.filter fun request => request.call = j) ∧
        (unprocessed'.filter fun reply => reply.call = j) =
          (unprocessed.filter fun reply => reply.call = j))
    (hknown : ∀ request ∈ requests', request.call < calls.length)
    (hknown' : ∀ reply ∈ unprocessed', reply.call < calls.length) :
    Queues (calls.set i c') requests' unprocessed' where
  requested := by
    intro j d hd
    rcases getElem?_set_some hd with ⟨rfl, rfl⟩ | ⟨hne, hold⟩
    · exact hrequests
    · rw [(hothers j hne).1]
      exact h.requested j d hold
  replied := by
    intro j d hd
    rcases getElem?_set_some hd with ⟨rfl, rfl⟩ | ⟨hne, hold⟩
    · exact hreplies
    · rw [(hothers j hne).2]
      exact h.replied j d hold
  requested_known := by simpa using hknown
  replied_known := by simpa using hknown'

/-- A call whose message stays as it is leaves the queues alone. -/
theorem Queues.set_same {calls : List (Call Value)} {requests : List Request}
    {unprocessed : List (Reply Value)} (h : Queues calls requests unprocessed)
    (hc : calls[i]? = some c) (hmessage : c'.message = c.message)
    (hid : c.message.outstanding → c'.id = c.id) :
    Queues (calls.set i c') requests unprocessed := by
  apply h.set _ _ (fun _ _ => ⟨rfl, rfl⟩) h.requested_known h.replied_known
  · rw [h.requested i c hc, hmessage]
    cases hold : c.message <;>
      simp [Message.requests, Message.outstanding, hold] at hid ⊢
    exact hid.symm
  · rw [h.replied i c hc, hmessage]
    cases hold : c.message <;>
      simp [Message.replies, Message.outstanding, hold] at hid ⊢
    exact hid.symm

/-- A call moves, and the others keep their ids and their stubs to themselves. -/
theorem Kept.move (h : Kept s) (hc : s.calls[i]? = some c)
    (hcalls : next.calls = s.calls.set i c')
    (hqueues : Queues (s.calls.set i c') next.requests next.unprocessed)
    (hself : Fits next c')
    (hothers : ∀ j d, j ≠ i → s.calls[j]? = some d → Apart c' d ∧
      (d.stage.waits → next.waitingCalls d.id = s.waitingCalls d.id ∧
        next.stubs d.stub = s.stubs d.stub))
    (hwaiting : ∀ id stub, next.waitingCalls id = some stub →
      (s.waitingCalls id = some stub ∧
          ¬(c.stage.waits ∧ c.message.outstanding ∧ c.id = id)) ∨
        (c'.stage.waits ∧ c'.message.outstanding ∧ c'.id = id ∧ c'.stub = stub)) :
    Kept next := by
  have hlt := (List.getElem?_eq_some_iff.mp hc).1
  constructor
  · rw [hcalls]
    exact hqueues
  · intro d hd
    rw [hcalls] at hd
    obtain ⟨j, hj⟩ := List.mem_iff_getElem?.mp hd
    rcases getElem?_set_some hj with ⟨-, rfl⟩ | ⟨hne, hold⟩
    · exact hself
    · exact (h.fits d (List.mem_of_getElem? hold)).congr (hothers j d hne hold).2
  · intro id stub hid
    rw [hcalls]
    rcases hwaiting id stub hid with ⟨hold, hnot⟩ | hnew
    · obtain ⟨d, hd, hwaits, houtstanding, hdid, hdstub⟩ := h.waiting id stub hold
      obtain ⟨j, hj⟩ := List.mem_iff_getElem?.mp hd
      have hne : i ≠ j := by
        rintro rfl
        rw [hc] at hj
        cases hj
        exact hnot ⟨hwaits, houtstanding, hdid⟩
      refine ⟨d, ?_, hwaits, houtstanding, hdid, hdstub⟩
      apply List.mem_of_getElem? (i := j)
      rw [List.getElem?_set_ne hne]
      exact hj
    · exact ⟨c', List.mem_set hlt c', hnew⟩
  · rw [hcalls]
    exact pairwise_set Apart.symm h.apart fun j d hne hd => (hothers j d hne hd).1

/-- A call moves to another stage of its loop; everything else is as it was. -/
theorem Kept.moveOn (h : Kept s) (hc : s.calls[i]? = some c) (hwaits : c.stage.waits)
    {stage : Stage Value} (hstage : stage.waits) :
    Kept (s.goTo i { c with stage := stage }) := by
  have hmem := List.mem_of_getElem? hc
  refine h.move hc rfl ?_ ?_ ?_ ?_
  · exact h.queues.set_same hc rfl fun _ => rfl
  · exact (fits_iff_awaiting hstage).mpr ((fits_iff_awaiting hwaits).mp (h.fits c hmem))
  · intro j d hne hd
    refine ⟨?_, fun _ => ⟨rfl, rfl⟩⟩
    refine (pairwise_getElem? Apart.symm h.apart hc hd (Ne.symm hne)).of_le rfl rfl ?_ ?_
    · exact fun _ => inUse_of_waits hwaits
    · exact fun _ => hwaits
  · intro id stub hid
    by_cases hsame : c.message.outstanding ∧ c.id = id
    · right
      obtain ⟨houtstanding, rfl⟩ := hsame
      rcases (fits_iff_awaiting hwaits).mp (h.fits c hmem) with ⟨-, hentered, -⟩ | hnotified
      · exact ⟨hstage, houtstanding, rfl, Option.some.inj (hentered.symm.trans hid)⟩
      · obtain ⟨result, hmessage, -⟩ := hnotified
        simp [hmessage, Message.outstanding] at houtstanding
    · exact Or.inl ⟨hid, fun hall => hsame hall.2⟩

/-! ## The steps of a call -/

/-- An id is taken. -/
theorem Kept.count (h : Kept s) (hc : s.calls[i]? = some c) (hstage : c.stage = .counting)
    (hcareful : CarefulAt s c .counting) : Kept (s.count i c) := by
  have hmem := List.mem_of_getElem? hc
  have hunsent : c.message = .unsent := by simpa only [Fits, hstage] using h.fits c hmem
  refine h.move hc rfl ?_ ?_ ?_ ?_
  · refine h.queues.set_same hc rfl ?_
    simp [hunsent, Message.outstanding]
  · simpa only [Fits] using hunsent
  · intro j d hne hd
    refine ⟨⟨?_, ?_⟩, fun _ => ⟨rfl, rfl⟩⟩
    · intro _ hd'
      exact (hcareful d (List.mem_of_getElem? hd) hd').symm
    · simp [Stage.waits]
  · intro id stub hid
    exact Or.inl ⟨hid, by simp [hstage, Stage.waits]⟩

/-- The request is enqueued. -/
theorem Kept.enqueue (h : Kept s) (hc : s.calls[i]? = some c) (hstage : c.stage = .enqueueing) :
    Kept (s.enqueue i c) := by
  have hmem := List.mem_of_getElem? hc
  have hlt := (List.getElem?_eq_some_iff.mp hc).1
  have hunsent : c.message = .unsent := by simpa only [Fits, hstage] using h.fits c hmem
  have hrequests : (s.enqueue i c).requests = s.requests ++ [⟨c.id, i⟩] := rfl
  refine h.move hc rfl ?_ ?_ ?_ ?_
  · refine h.queues.set ?_ ?_ ?_ ?_ ?_
    · rw [hrequests, List.filter_append, h.queues.requested i c hc, hunsent]
      simp [Message.requests]
    · exact (h.queues.replied i c hc).trans (by simp [hunsent, Message.replies])
    · intro j hne
      constructor
      · simp [hrequests, Ne.symm hne]
      · rfl
    · intro request hrequest
      rcases List.mem_append.mp hrequest with hold | hnew
      · exact h.queues.requested_known request hold
      · rw [List.mem_singleton.mp hnew]
        exact hlt
    · exact h.queues.replied_known
  · simp [Fits, Message.outstanding]
  · intro j d hne hd
    refine ⟨?_, fun _ => ⟨rfl, rfl⟩⟩
    refine (pairwise_getElem? Apart.symm h.apart hc hd (Ne.symm hne)).of_le rfl rfl ?_ ?_
    · simp [Call.inUse, hstage, Stage.underWay]
    · simp [Stage.waits]
  · intro id stub hid
    exact Or.inl ⟨hid, by simp [hstage, Stage.waits]⟩

/-- The stub is entered and cleared. -/
theorem Kept.register (h : Kept s) (hc : s.calls[i]? = some c) (hstage : c.stage = .published)
    (hcareful : CarefulAt s c .published) : Kept (s.register i c) := by
  have hmem := List.mem_of_getElem? hc
  have houtstanding : c.message.outstanding = true := by
    simpa only [Fits, hstage] using h.fits c hmem
  have hinUse : c.inUse := by simp [Call.inUse, hstage, Stage.underWay]
  refine h.move hc rfl ?_ ?_ ?_ ?_
  · exact h.queues.set_same hc rfl fun _ => rfl
  · rw [fits_iff_awaiting rfl]
    left
    refine ⟨houtstanding, ?_, ?_⟩
    · simp [Endpoint.register, Endpoint.goTo, Endpoint.setResult, Endpoint.setWaiting]
    · simp [Endpoint.register, Endpoint.goTo, Endpoint.setResult, Endpoint.setWaiting]
  · intro j d hne hd
    have hapart := pairwise_getElem? Apart.symm h.apart hc hd (Ne.symm hne)
    have hstubs : d.stage.waits → d.stub ≠ c.stub := hcareful d (List.mem_of_getElem? hd)
    constructor
    · exact ⟨fun _ => hapart.1 hinUse, fun _ hd' => (hstubs hd').symm⟩
    · intro hd'
      have hid : d.id ≠ c.id := (hapart.1 hinUse (inUse_of_waits hd')).symm
      simp [Endpoint.register, Endpoint.goTo, Endpoint.setResult, Endpoint.setWaiting, hid,
        hstubs hd']
  · intro id stub hid
    by_cases hsame : id = c.id
    · subst hsame
      right
      refine ⟨rfl, houtstanding, rfl, ?_⟩
      simpa [Endpoint.register, Endpoint.goTo, Endpoint.setResult, Endpoint.setWaiting] using hid
    · left
      refine ⟨?_, by simp [hstage, Stage.waits]⟩
      simpa [Endpoint.register, Endpoint.goTo, Endpoint.setResult, Endpoint.setWaiting, hsame]
        using hid

/-- The call wakes up; when its time is up its stub is taken out. -/
theorem Kept.wake (h : Kept s) (hc : s.calls[i]? = some c) (hstage : c.stage = .sleeping waitTime)
    (hcareful : CarefulAt s c (.sleeping waitTime)) : Kept (s.wake i c waitTime) := by
  have hmem := List.mem_of_getElem? hc
  have hwaits : c.stage.waits := by simp [hstage, Stage.waits]
  unfold Endpoint.wake
  dsimp only
  split
  · next htime =>
    have hoffered := hcareful htime
    have houtstanding : c.message.outstanding = true := by
      rcases (fits_iff_awaiting hwaits).mp (h.fits c hmem) with ⟨hout, -⟩ | ⟨-, -, hreturned, -⟩
      · exact hout
      · rw [hoffered] at hreturned
        cases hreturned
    refine h.move hc rfl ?_ ?_ ?_ ?_
    · exact h.queues.set_same hc rfl fun _ => rfl
    · simpa only [Fits] using Or.inl houtstanding
    · intro j d hne hd
      have hapart := pairwise_getElem? Apart.symm h.apart hc hd (Ne.symm hne)
      constructor
      · refine hapart.of_le rfl rfl ?_ ?_
        · exact fun _ => inUse_of_waits hwaits
        · simp [Stage.waits]
      · intro hd'
        have hid : d.id ≠ c.id :=
          (hapart.1 (inUse_of_waits hwaits) (inUse_of_waits hd')).symm
        simp [Endpoint.goTo, Endpoint.setWaiting, hid]
    · intro id stub hid
      left
      by_cases hsame : id = c.id
      · subst hsame
        simp [Endpoint.goTo, Endpoint.setWaiting] at hid
      · refine ⟨?_, fun hall => hsame hall.2.2.symm⟩
        simpa [Endpoint.goTo, Endpoint.setWaiting, hsame] using hid
  · exact h.moveOn hc hwaits rfl

/-- The call ends with what its stub has, or sleeps again. -/
theorem Kept.check {isCallError : Value → Bool} (h : Kept s) (hc : s.calls[i]? = some c)
    (hstage : c.stage = .checking waitTime)
    (hcheck : s.check isCallError i c waitTime = some next) : Kept next := by
  have hmem := List.mem_of_getElem? hc
  have hwaits : c.stage.waits := by simp [hstage, Stage.waits]
  unfold Endpoint.check at hcheck
  split at hcheck
  · next hreturned =>
    -- a stub that was notified has the result of this call
    obtain ⟨own, hmessage, hown⟩ : ∃ own, c.message = .notified own ∧
        (s.stubs c.stub).curResult = some own := by
      rcases (fits_iff_awaiting hwaits).mp (h.fits c hmem) with ⟨-, -, hnot⟩ | ⟨own, hm, -, hr⟩
      · rw [hreturned] at hnot
        cases hnot
      · exact ⟨own, hm, hr⟩
    have hend : ∀ stage : Stage Value, stage.EndsWith own →
        Kept (s.goTo i { c with stage := stage }) := by
      intro stage hends
      refine h.move hc rfl ?_ ?_ ?_ ?_
      · exact h.queues.set_same hc rfl fun _ => rfl
      · rcases hends with rfl | rfl
        · simpa only [Fits] using hmessage
        · simpa only [Fits] using hmessage
      · intro j d hne hd
        refine ⟨?_, fun _ => ⟨rfl, rfl⟩⟩
        refine (pairwise_getElem? Apart.symm h.apart hc hd (Ne.symm hne)).of_le rfl rfl ?_ ?_
        · exact fun _ => inUse_of_waits hwaits
        · exact fun _ => hwaits
      · intro id stub hid
        exact Or.inl ⟨hid, by simp [hmessage, Message.outstanding]⟩
    rw [hown] at hcheck
    dsimp only at hcheck
    split at hcheck
    · cases hcheck
      exact hend _ (Or.inr rfl)
    · cases hcheck
      exact hend _ (Or.inl rfl)
  · cases hcheck
    exact h.moveOn hc hwaits rfl

/-- A reply that is taken out of the queue is still unprocessed. -/
theorem Kept.take {owner : Option Nat} (h : Kept s) (htake : s.take owner = some next) :
    Kept next ∧ next.calls = s.calls := by
  unfold Endpoint.take at htake
  split at htake
  · next reply replies hhand hreplies =>
    cases htake
    refine ⟨⟨?_, h.fits, h.waiting, h.apart⟩, rfl⟩
    have hsame : Endpoint.unprocessed { s with replies := replies, hand := some (reply, owner) } =
        s.unprocessed := by
      simp [Endpoint.unprocessed, hhand, hreplies]
    rw [hsame]
    exact h.queues
  · cases htake

theorem Kept.poll (h : Kept s) (hc : s.calls[i]? = some c) (hstage : c.stage = .polling waitTime)
    (hpoll : s.poll i c waitTime = some next) : Kept next := by
  unfold Endpoint.poll at hpoll
  split at hpoll
  · cases hpoll
    exact h.moveOn hc (by simp [hstage, Stage.waits]) rfl
  · exact (h.take hpoll).1

theorem Kept.advance {isCallError : Value → Bool} (h : Kept s)
    (hcareful : Careful s (.advance i)) (hstep : s.advance isCallError i = some next) :
    Kept next := by
  unfold Endpoint.advance at hstep
  split at hstep
  · cases hstep
  · next c hc =>
    have hat := hcareful c hc
    split at hstep
    · next hstage =>
      cases hstep
      exact h.count hc hstage (hstage ▸ hat)
    · next hstage =>
      cases hstep
      exact h.enqueue hc hstage
    · next hstage =>
      cases hstep
      exact h.register hc hstage (hstage ▸ hat)
    · next hstage =>
      cases hstep
      exact h.wake hc hstage (hstage ▸ hat)
    · next hstage => exact h.poll hc hstage hstep
    · next hstage => exact h.check hc hstage hstep
    · cases hstep
    · cases hstep
    · cases hstep

/-! ## New calls, and replies -/

/-- A fiber starts a call. -/
theorem Kept.call (h : Kept s) (stub : Nat) :
    Kept { s with calls := s.calls ++ [.new stub] } := by
  have hcase : ∀ j d, (s.calls ++ [Call.new stub])[j]? = some d →
      s.calls[j]? = some d ∨ (j = s.calls.length ∧ d = .new stub) := by
    intro j d hd
    rw [List.getElem?_append] at hd
    split at hd
    · exact Or.inl hd
    · next hnot =>
      obtain ⟨hlt, hget⟩ := List.getElem?_eq_some_iff.mp hd
      rw [List.length_singleton] at hlt
      have hj : j - s.calls.length = 0 := by omega
      simp only [hj, List.getElem_singleton] at hget
      exact Or.inr ⟨by omega, hget.symm⟩
  constructor
  · constructor
    · intro j d hd
      rcases hcase j d hd with hold | ⟨rfl, rfl⟩
      · exact h.queues.requested j d hold
      · apply List.filter_eq_nil_iff.mpr
        intro request hrequest
        simpa using Nat.ne_of_lt (h.queues.requested_known request hrequest)
    · intro j d hd
      rcases hcase j d hd with hold | ⟨rfl, rfl⟩
      · exact h.queues.replied j d hold
      · apply List.filter_eq_nil_iff.mpr
        intro reply hreply
        simpa using Nat.ne_of_lt (h.queues.replied_known reply hreply)
    · intro request hrequest
      have := h.queues.requested_known request hrequest
      simp only [List.length_append, List.length_singleton]
      omega
    · intro reply hreply
      have := h.queues.replied_known reply hreply
      simp only [List.length_append, List.length_singleton]
      omega
  · intro c hc
    rcases List.mem_append.mp hc with hold | hnew
    · exact (h.fits c hold).congr fun _ => ⟨rfl, rfl⟩
    · rw [List.mem_singleton.mp hnew]
      simp [Fits, Call.new]
  · intro id stub' hid
    obtain ⟨c, hc, hrest⟩ := h.waiting id stub' hid
    exact ⟨c, List.mem_append_left _ hc, hrest⟩
  · rw [List.pairwise_append]
    refine ⟨h.apart, List.pairwise_singleton _ _, ?_⟩
    intro c _ d hd
    rw [List.mem_singleton.mp hd]
    constructor
    · simp [Call.new, Call.inUse, Stage.underWay, Message.outstanding]
    · simp [Call.new, Stage.waits]

theorem setMessage_eq (hc : s.calls[i]? = some c) (message : Message Value) :
    s.setMessage i message = s.goTo i { c with message := message } := by
  simp [Endpoint.setMessage, hc]

/-- A request in the queue is that of a call that has not been served. -/
theorem Queues.of_request {calls : List (Call Value)} {requests : List Request}
    {unprocessed : List (Reply Value)} (h : Queues calls requests unprocessed)
    {request : Request} (hrequest : request ∈ requests) :
    ∃ c, calls[request.call]? = some c ∧ c.message = .requested ∧
      request = ⟨c.id, request.call⟩ := by
  have hlt := h.requested_known request hrequest
  obtain ⟨c, hc⟩ : ∃ c, calls[request.call]? = some c :=
    ⟨_, List.getElem?_eq_getElem hlt⟩
  have hmem : request ∈ requests.filter fun other => other.call = request.call := by
    simpa using hrequest
  rw [h.requested _ c hc] at hmem
  refine ⟨c, hc, ?_⟩
  cases hmessage : c.message <;> simp [Message.requests, hmessage] at hmem
  exact ⟨rfl, hmem⟩

/-- A reply that has not been processed is that of a call that was served. -/
theorem Queues.of_reply {calls : List (Call Value)} {requests : List Request}
    {unprocessed : List (Reply Value)} (h : Queues calls requests unprocessed)
    {reply : Reply Value} (hreply : reply ∈ unprocessed) :
    ∃ c, calls[reply.call]? = some c ∧ c.message = .replied reply.result ∧ reply.id = c.id := by
  have hlt := h.replied_known reply hreply
  obtain ⟨c, hc⟩ : ∃ c, calls[reply.call]? = some c :=
    ⟨_, List.getElem?_eq_getElem hlt⟩
  have hmem : reply ∈ unprocessed.filter fun other => other.call = reply.call := by
    simpa using hreply
  rw [h.replied _ c hc] at hmem
  refine ⟨c, hc, ?_⟩
  cases hmessage : c.message <;> simp [Message.replies, hmessage] at hmem
  rw [hmem]
  exact ⟨rfl, rfl⟩

/-- For a call it makes no difference which message of it is outstanding. -/
theorem Fits.setMessage (h : Fits s c) (hold : c.message.outstanding) {message : Message Value}
    (hnew : message.outstanding) : Fits s { c with message := message } := by
  have hawaiting : Awaiting s c → Awaiting s { c with message := message } := by
    rintro (⟨-, hentered⟩ | ⟨result, hnotified, -⟩)
    · exact Or.inl ⟨hnew, hentered⟩
    · simp [hnotified, Message.outstanding] at hold
  cases hstage : c.stage with
  | sleeping waitTime => exact hawaiting (by simpa only [Fits, hstage] using h)
  | polling waitTime => exact hawaiting (by simpa only [Fits, hstage] using h)
  | checking waitTime => exact hawaiting (by simpa only [Fits, hstage] using h)
  | published => exact hnew
  | timedOut => exact Or.inl hnew
  | counting => simp_all [Fits, Message.outstanding]
  | enqueueing => simp_all [Fits, Message.outstanding]
  | returned result => simp_all [Fits, Message.outstanding]
  | callError result => simp_all [Fits, Message.outstanding]

/-- A request that is served is a reply in the queue instead. -/
theorem Kept.serve {request : Request} (h : Kept s) (hrequest : request ∈ s.requests)
    (result : Value) : Kept (s.serve request result) := by
  obtain ⟨c, hc, hmessage, heq⟩ := h.queues.of_request hrequest
  have hid : request.id = c.id := congrArg Request.id heq
  have hmem := List.mem_of_getElem? hc
  unfold Endpoint.serve
  rw [setMessage_eq (c := c)]
  · refine h.move hc rfl ?_ ?_ ?_ ?_
    · refine h.queues.set ?_ ?_ ?_ ?_ ?_
      · dsimp only [Endpoint.goTo]
        rw [← List.erase_filter, h.queues.requested _ c hc, hmessage]
        simp [Message.requests, ← heq]
      · dsimp only [Endpoint.goTo, Endpoint.unprocessed]
        have hold := h.queues.replied _ c hc
        rw [hmessage] at hold
        rw [← List.append_assoc, List.filter_append]
        rw [show (Option.map Prod.fst s.hand).toList ++ s.replies = s.unprocessed from rfl, hold]
        simp [Message.replies, hid]
      · intro j hne
        dsimp only [Endpoint.goTo, Endpoint.unprocessed]
        constructor
        · rw [← List.erase_filter]
          apply List.erase_of_not_mem
          simp [Ne.symm hne]
        · rw [← List.append_assoc, List.filter_append]
          simp [Ne.symm hne]
      · exact fun other hother => h.queues.requested_known other (List.mem_of_mem_erase hother)
      · intro reply hreply
        dsimp only [Endpoint.goTo, Endpoint.unprocessed] at hreply
        rw [← List.append_assoc] at hreply
        rcases List.mem_append.mp hreply with hold | hnew
        · exact h.queues.replied_known reply hold
        · rw [List.mem_singleton.mp hnew]
          exact h.queues.requested_known request hrequest
    · -- the reply is as outstanding as the request was
      have hfits := (h.fits c hmem).setMessage (by simp [hmessage, Message.outstanding])
        (show (Message.replied result).outstanding from rfl)
      exact hfits.congr fun _ => ⟨rfl, rfl⟩
    · intro j d hne hd
      refine ⟨?_, fun _ => ⟨rfl, rfl⟩⟩
      refine (pairwise_getElem? Apart.symm h.apart hc hd (Ne.symm hne)).of_le rfl rfl ?_ ?_
      · simp [Call.inUse, hmessage, Message.outstanding]
      · exact fun hwaits => hwaits
    · intro id stub hentered
      by_cases hsame : c.stage.waits ∧ c.id = id
      · right
        obtain ⟨hwaits, rfl⟩ := hsame
        rcases (fits_iff_awaiting hwaits).mp (h.fits c hmem) with ⟨-, hown, -⟩ | hnotified
        · exact ⟨hwaits, rfl, rfl, Option.some.inj (hown.symm.trans hentered)⟩
        · obtain ⟨other, hother, -⟩ := hnotified
          rw [hmessage] at hother
          cases hother
      · exact Or.inl ⟨hentered, fun hall => hsame ⟨hall.1, hall.2.2⟩⟩
  · exact hc

/-- The call of a reply that is processed: it waits for it, or it has timed out. -/
theorem Kept.waits_or_timedOut (h : Kept s) (hc : c ∈ s.calls) {result : Value}
    (hmessage : c.message = .replied result) (hcareful : c.stage.isPublished = false) :
    (c.stage.waits ∧ s.waitingCalls c.id = some c.stub) ∨ c.stage = .timedOut := by
  have hfits := h.fits c hc
  by_cases hwaits : c.stage.waits
  · rcases (fits_iff_awaiting hwaits).mp hfits with ⟨-, hentered, -⟩ | ⟨other, hother, -⟩
    · exact Or.inl ⟨hwaits, hentered⟩
    · rw [hmessage] at hother
      cases hother
  · right
    cases hstage : c.stage <;>
      simp [Fits, hstage, hmessage, Stage.waits, Stage.isPublished] at hfits hwaits hcareful ⊢

/-- The only stub that is entered for an id in use is that of the call itself. -/
theorem Kept.entered_unique (h : Kept s) (hc : s.calls[i]? = some c) (hinUse : c.inUse) {stub : Nat}
    (hentered : s.waitingCalls c.id = some stub) : c.stage.waits ∧ c.stub = stub := by
  obtain ⟨d, hd, hwaits, -, hid, hstub⟩ := h.waiting c.id stub hentered
  obtain ⟨j, hj⟩ := List.mem_iff_getElem?.mp hd
  by_cases hij : i = j
  · subst hij
    rw [hc] at hj
    cases hj
    exact ⟨hwaits, hstub⟩
  · have hapart := pairwise_getElem? Apart.symm h.apart hc hj hij
    exact absurd hid.symm (hapart.1 hinUse (inUse_of_waits hwaits))

/-- A reply that is processed is handed to its call, or its call has timed out. -/
theorem Kept.notify (h : Kept s) {reply : Reply Value} {owner : Option Nat}
    (hhand : s.hand = some (reply, owner))
    (hcareful : ∀ c ∈ s.calls[reply.call]?, c.stage.isPublished = false) :
    Kept ({ s with hand := none }.notifyWaitingCall reply) := by
  have hunprocessed : s.unprocessed = reply :: s.replies := by
    simp [Endpoint.unprocessed, hhand]
  obtain ⟨c, hc, hmessage, hid⟩ := h.queues.of_reply
    (show reply ∈ s.unprocessed by simp [hunprocessed])
  have hmem := List.mem_of_getElem? hc
  have hinUse : c.inUse := by simp [Call.inUse, hmessage, Message.outstanding]
  -- what the queues hold when the reply is gone
  have hqueues : ∀ message : Message Value, message.outstanding = false →
      Queues (s.calls.set reply.call { c with message := message }) s.requests s.replies := by
    intro message hdone
    have hold := h.queues.replied _ c hc
    rw [hunprocessed, List.filter_cons_of_pos (by simp), hmessage] at hold
    refine h.queues.set ?_ ?_ ?_ ?_ ?_
    · rw [h.queues.requested _ c hc, hmessage]
      cases message <;> simp [Message.requests, Message.outstanding] at hdone ⊢
    · rw [show s.replies.filter (fun other => decide (other.call = reply.call)) = [] by
        simpa [Message.replies] using (List.cons.inj hold).2]
      cases message <;> simp [Message.replies, Message.outstanding] at hdone ⊢
    · intro j hne
      refine ⟨rfl, ?_⟩
      rw [hunprocessed, List.filter_cons_of_neg (by simpa using Ne.symm hne)]
    · exact h.queues.requested_known
    · intro other hother
      exact h.queues.replied_known other (by simp [hunprocessed, hother])
  unfold Endpoint.notifyWaitingCall
  dsimp only
  split
  · -- no stub is entered: the call has timed out
    next hnone =>
    have htimedOut : c.stage = .timedOut := by
      rcases h.waits_or_timedOut hmem hmessage (hcareful c hc) with ⟨-, hentered⟩ | htimedOut
      · rw [← hid, hnone] at hentered
        cases hentered
      · exact htimedOut
    rw [setMessage_eq (c := c)]
    · refine h.move hc rfl (hqueues _ rfl) ?_ ?_ ?_
      · simp [Fits, htimedOut]
      · intro j d hne hd
        have hapart := pairwise_getElem? Apart.symm h.apart hc hd (Ne.symm hne)
        constructor
        · exact hapart.of_le rfl rfl (fun _ => hinUse) fun hwaits => hwaits
        · intro hwaits
          have hother : d.id ≠ reply.id := hid ▸ (hapart.1 hinUse (inUse_of_waits hwaits)).symm
          simp [Endpoint.goTo, Endpoint.setWaiting, hother]
      · intro id stub hentered
        left
        by_cases hsame : id = reply.id
        · subst hsame
          simp [Endpoint.goTo, Endpoint.setWaiting] at hentered
        · refine ⟨?_, by simp [htimedOut, Stage.waits]⟩
          simpa [Endpoint.goTo, Endpoint.setWaiting, hsame] using hentered
    · exact hc
  · -- the stub that is entered is that of the call
    next stub hsome =>
    obtain ⟨hwaits, rfl⟩ := h.entered_unique hc hinUse (hid ▸ hsome)
    rw [setMessage_eq (c := c)]
    · refine h.move hc rfl (hqueues _ rfl) ?_ ?_ ?_
      · refine (fits_iff_awaiting ?_).mpr (Or.inr ⟨reply.result, rfl, ?_, ?_⟩)
        · exact hwaits
        · simp [Endpoint.goTo, Endpoint.setResult]
        · simp [Endpoint.goTo, Endpoint.setResult]
      · intro j d hne hd
        have hapart := pairwise_getElem? Apart.symm h.apart hc hd (Ne.symm hne)
        constructor
        · exact hapart.of_le rfl rfl (fun _ => hinUse) fun hwaits => hwaits
        · intro hwaits'
          have hother : d.id ≠ reply.id := hid ▸ (hapart.1 hinUse (inUse_of_waits hwaits')).symm
          have hstub : d.stub ≠ c.stub := (hapart.2 hwaits hwaits').symm
          simp [Endpoint.goTo, Endpoint.setResult, Endpoint.setWaiting, hother, hstub]
      · intro id stub hentered
        left
        by_cases hsame : id = reply.id
        · subst hsame
          simp [Endpoint.goTo, Endpoint.setResult, Endpoint.setWaiting] at hentered
        · refine ⟨?_, fun hall => hsame (hall.2.2.symm.trans hid.symm)⟩
          simpa [Endpoint.goTo, Endpoint.setResult, Endpoint.setWaiting, hsame] using hentered
    · exact hc

/-- The call that took the reply out goes on. -/
theorem Kept.release (h : Kept s) (owner : Option Nat) : Kept (s.release owner) := by
  unfold Endpoint.release
  split
  · exact h
  · split
    · exact h
    · next c hc =>
      split
      · next waitTime hstage => exact h.moveOn hc (by simp [hstage, Stage.waits]) rfl
      · exact h

/-! ## Runs -/

theorem Kept.step {isCallError : Value → Bool} {event : Event Value} (h : Kept s)
    (hcareful : Careful s event) (hstep : RedisRpc.step isCallError s event = some next) :
    Kept next := by
  cases event with
  | call stub =>
      cases hstep
      exact h.call stub
  | advance i => exact h.advance hcareful hstep
  | serve i result =>
      dsimp only [RedisRpc.step] at hstep
      split at hstep
      · cases hstep
      · next request hfind =>
        cases hstep
        exact h.serve (List.mem_of_find?_eq_some hfind) result
  | workLoop => exact (h.take hstep).1
  | handle =>
      dsimp only [RedisRpc.step] at hstep
      split at hstep
      · cases hstep
      · next reply owner hhand =>
        cases hstep
        exact (h.notify hhand (hcareful (reply, owner) hhand)).release owner

end

/-- An endpoint at the end of the ids, with the default options. -/
def lastId : Endpoint Nat :=
  .new 999999999 (fun _ => 100) (fun _ => 6000)

/-- Two calls with their own stubs; each takes out the reply of the other.  Then the
first stub is used again, and that call times out before its reply comes. -/
def crossed : List (Event Nat) :=
  ([.call 0, .call 1, .advance 0, .advance 0, .advance 1, .advance 1, .advance 0, .advance 1,
    .serve 1 11, .serve 0 10, .advance 0, .advance 0, .handle, .advance 0, .advance 1, .advance 1,
    .handle, .advance 1, .advance 0, .advance 0, .advance 0, .call 0, .advance 2, .advance 2,
    .advance 2] : List (Event Nat)) ++
    ((List.replicate 60 [.advance 2, .advance 2, .advance 2]).flatten : List (Event Nat)) ++
    ([.advance 2, .serve 2 12, .workLoop, .handle] : List (Event Nat))

/-- The request is served and the work loop processes the reply before the call has
entered its stub. -/
def fastReply : List (Event Nat) :=
  [.call 0, .advance 0, .advance 0, .serve 0 10, .workLoop, .handle]

end RedisRpc
end Messaging
end ArmyRs
