import ArmyRs.Skynet.Server

/-!
# The invariant of a service

`Consistent` ties the fields of a service to the parts that the threads and the global
queue have in it, which are counted by role.  Every action changes one service, and takes
some roles for others; there is one lemma for each.
-/

namespace ArmyRs
namespace Skynet

open Foundation

section

variable {μ : Type*}

structure Consistent (sv : Service μ) (c : Role → ℕ) : Prop where
  refs : sv.ref = (if sv.registered then 1 else 0) + c .reference
  deletion : c .deletion = if sv.present ∧ sv.ref = 0 then 1 else 0
  tokens : c .starting + c .launching + c .failing + c .token =
    if sv.allocated ∧ (sv.queue.inGlobal ∨ sv.queue.release) then 1 else 0
  present : sv.present → sv.allocated ∧ ¬ sv.queue.release
  gone : ¬ sv.present → sv.ref = 0 ∧ (sv.allocated → sv.queue.release)
  fresh : ¬ sv.used → ¬ sv.present ∧ ¬ sv.allocated ∧ ¬ sv.queue.release
  ready : sv.registered → ¬ sv.init → 0 < c .starting + c .launching + c .failing
  unready : 0 < c .starting + c .launching + c .failing → ¬ sv.init
  launching : 0 < c .launching → sv.registered
  afterwards : 0 < c .afterwards → sv.registered ∧ sv.init
  dispatching : 0 < c .dispatching → sv.init
  dropping : 0 < c .dropping → sv.queue.release
  wellFormed : sv.queue.WellFormed
  account : sv.handled ++ sv.dropped ++ sv.queue.messages = sv.pushed
  undropped : ¬ sv.queue.release → sv.dropped = []
  empty : ¬ sv.allocated → sv.queue.messages = []
  waiting : sv.queue.messages ≠ [] → sv.queue.inGlobal ∨ sv.queue.release

/-- The roles of a thread, beside those of the others. -/
def plus (base : Role → ℕ) (roles : List Role) (role : Role) : ℕ := base role + roles.count role

@[simp] theorem plus_nil (base : Role → ℕ) : plus base [] = base := rfl

variable {sv : Service μ} {base : Role → ℕ} {roles rest : List Role}

theorem consistent_unused (memory : ℕ → μ) : Consistent (unused memory) fun _ => 0 := by
  constructor <;> simp [unused, createService]
  exact wellFormed_create

/-! ## What a role is good for -/

/-- A reference keeps the context and the queue. -/
theorem Consistent.of_reference (h : Consistent sv (plus base roles)) (hmem : .reference ∈ roles) :
    sv.present ∧ 0 < sv.ref ∧ sv.allocated ∧ ¬ sv.queue.release := by
  have hpos : 0 < roles.count .reference := List.count_pos_iff.mpr hmem
  have hrefs := h.refs
  have hgone := h.gone
  have hpresent := h.present
  unfold plus at hrefs
  grind

theorem Consistent.perm {other : List Role} (h : Consistent sv (plus base roles))
    (hperm : roles.Perm other) : Consistent sv (plus base other) := by
  have hcounts : plus base roles = plus base other := by
    funext role
    rw [plus, plus, hperm.count_eq]
  exact hcounts ▸ h

/-- Whoever has the queue is alone with it. -/
theorem Consistent.of_queue (h : Consistent sv (plus base roles)) {role : Role}
    (hrole : role ∈ [Role.starting, .launching, .failing, .token]) (hmem : role ∈ roles) :
    sv.allocated ∧ base .token = 0 := by
  have hpos : 0 < roles.count role := List.count_pos_iff.mpr hmem
  have htokens := h.tokens
  unfold plus at htokens
  simp only [List.mem_cons, List.not_mem_nil, or_false] at hrole
  split at htokens
  · next hqueue =>
    refine ⟨hqueue.1, ?_⟩
    rcases hrole with rfl | rfl | rfl | rfl <;> omega
  · rcases hrole with rfl | rfl | rfl | rfl <;> omega

theorem Consistent.of_registered {c : Role → ℕ} (h : Consistent sv c)
    (hregistered : sv.registered) : sv.present ∧ ¬ sv.queue.release := by
  have hpresent : sv.present := by
    by_contra hgone
    have href := (h.gone hgone).1
    rw [h.refs, if_pos hregistered] at href
    omega
  exact ⟨hpresent, (h.present hpresent).2⟩

theorem Consistent.of_deletion (h : Consistent sv (plus base roles)) (hmem : .deletion ∈ roles) :
    sv.present ∧ sv.allocated ∧ ¬ sv.queue.release ∧ (¬ sv.queue.inGlobal → base .token = 0) := by
  have hpos : 0 < roles.count .deletion := List.count_pos_iff.mpr hmem
  have hdeletion := h.deletion
  have hpresent := h.present
  have htokens := h.tokens
  unfold plus at hdeletion htokens
  grind

theorem Consistent.of_afterwards (h : Consistent sv (plus base roles))
    (hmem : .afterwards ∈ roles ∨ .launching ∈ roles) : sv.present := by
  have hregistered : sv.registered := by
    rcases hmem with hmem | hmem
    · have hpos : 0 < roles.count .afterwards := List.count_pos_iff.mpr hmem
      exact (h.afterwards (by unfold plus; omega)).1
    · have hpos : 0 < roles.count .launching := List.count_pos_iff.mpr hmem
      exact h.launching (by unfold plus; omega)
  exact (h.of_registered hregistered).1

theorem Consistent.of_dispatching (h : Consistent sv (plus base roles))
    (hmem : .dispatching ∈ roles) : sv.init := by
  have hpos : 0 < roles.count .dispatching := List.count_pos_iff.mpr hmem
  exact h.dispatching (by unfold plus; omega)

/-! ## The actions -/

theorem Consistent.create (h : Consistent sv base) (hused : ¬ sv.used)
    (hdispatching : base .dispatching ≤ base .reference) (memory : ℕ → μ) :
    Consistent (createService memory) (plus base [.reference, .starting]) := by
  obtain ⟨hpresent, hallocated, hrelease⟩ := h.fresh hused
  have href := (h.gone hpresent).1
  have hrefs := h.refs
  have hdeletion := h.deletion
  have htokens := h.tokens
  have hlaunching := h.launching
  have hafterwards := h.afterwards
  have hdropping := h.dropping
  constructor <;> simp [createService, plus]
  all_goals first
    | exact wellFormed_create
    | grind

/-- The init function has returned, and the context is released. -/
theorem Consistent.initialized (h : Consistent sv (plus base [.reference, .starting]))
    (halone : sv.registered ∨ sv.ref = 1) :
    Consistent { sv with ref := sv.ref - 1 }
      (plus base (if sv.ref - 1 = 0 then [.deletion, .token] else [.launching])) := by
  obtain ⟨hpresent, hpos, -, -⟩ := h.of_reference (by simp)
  have hrefs := h.refs
  have hdeletion := h.deletion
  have htokens := h.tokens
  have hready := h.ready
  have hunready := h.unready
  simp [plus] at hrefs hdeletion htokens hready hunready
  split
  · exact
      { h with
        refs := by simp [plus]; grind
        deletion := by simp [plus]; grind
        tokens := by simp [plus]; grind
        gone := fun hgone => absurd hpresent hgone
        ready := by simp [plus]; grind
        unready := fun _ => by simpa using hunready }
  · exact
      { h with
        refs := by simp [plus]; grind
        deletion := by simp [plus]; grind
        tokens := by simp [plus]; grind
        gone := fun hgone => absurd hpresent hgone
        ready := by simp [plus]
        unready := fun _ => by simpa using hunready
        launching := by grind }

theorem Consistent.initFailed (h : Consistent sv (plus base [.reference, .starting])) :
    Consistent sv (plus base [.reference, .failing]) := by
  have htokens := h.tokens
  have hunready := h.unready
  simp [plus] at htokens hunready
  exact
    { h with
      tokens := by simp [plus]; omega
      ready := by simp [plus]
      unready := fun _ => by simpa using hunready }

/-- The queue is pushed for the first time. -/
theorem Consistent.launch (h : Consistent sv (plus base [.launching])) :
    Consistent { sv with init := true } (plus base [.afterwards, .token]) := by
  have htokens := h.tokens
  have hlaunching := h.launching
  simp [plus] at htokens hlaunching
  exact
    { h with
      tokens := by simp [plus]; omega
      ready := by simp
      unready := by simp [plus]; grind
      launching := fun _ => hlaunching
      afterwards := fun _ => ⟨hlaunching, rfl⟩
      dispatching := fun _ => rfl }

theorem Consistent.logged (h : Consistent sv (plus base [.afterwards])) :
    Consistent sv (plus base []) :=
  { h with afterwards := fun hpos => h.afterwards (Nat.lt_succ_of_lt hpos) }

/-- `skynet_context_new` retires the handle. -/
theorem Consistent.giveUp (h : Consistent sv (plus base [.failing])) :
    Consistent { sv with registered := false }
      (plus base (if sv.registered then [.reference, .token] else [.token])) := by
  have hrefs := h.refs
  have htokens := h.tokens
  have hunready := h.unready
  have hafterwards := h.afterwards
  simp [plus] at hrefs htokens hunready hafterwards
  have hnone : base .launching = 0 ∧ base .starting = 0 ∧ base .failing = 0 := by grind
  split
  · exact
      { h with
        refs := by simp [plus]; grind
        tokens := by simp [plus]; omega
        ready := by simp
        unready := by simp [plus, hnone]
        launching := by simp [plus, hnone]
        afterwards := by simp [plus]; grind }
  · exact
      { h with
        refs := by simp [plus]; grind
        tokens := by simp [plus]; omega
        ready := by simp
        unready := by simp [plus, hnone]
        launching := by simp [plus, hnone]
        afterwards := by simp [plus]; grind }

theorem Consistent.release (h : Consistent sv (plus base (.reference :: rest))) :
    Consistent { sv with ref := sv.ref - 1 }
      (plus base (if sv.ref - 1 = 0 then .deletion :: rest else rest)) := by
  obtain ⟨hpresent, hpos, -, -⟩ := h.of_reference List.mem_cons_self
  have hrefs := h.refs
  have hdeletion := h.deletion
  simp [plus] at hrefs hdeletion
  split
  · exact
      { h with
        refs := by simp [plus]; omega
        deletion := by simp [plus]; grind
        gone := fun hgone => absurd hpresent hgone }
  · exact
      { h with
        refs := by simp [plus]; omega
        deletion := by simp [plus]; grind
        gone := fun hgone => absurd hpresent hgone }

/-- The queue is marked, and pushed when nobody has it. -/
theorem Consistent.delete (h : Consistent sv (plus base (.deletion :: rest))) :
    Consistent { sv with present := false, queue := { sv.queue with release := true } }
      (plus base (if sv.queue.inGlobal then rest else .token :: rest)) := by
  obtain ⟨hpresent, hallocated, hrelease, -⟩ := h.of_deletion List.mem_cons_self
  have hdeletion := h.deletion
  have htokens := h.tokens
  have hused := h.fresh
  simp [plus] at hdeletion htokens hused
  split
  · exact
      { h with
        deletion := by simp [plus]; grind
        tokens := by simp [plus]; grind
        present := by simp
        gone := fun _ => ⟨by grind, fun _ => rfl⟩
        fresh := by grind
        dropping := fun _ => rfl
        wellFormed := ⟨h.wellFormed.head_lt, h.wellFormed.tail_lt⟩
        undropped := by simp
        waiting := fun _ => Or.inr rfl }
  · exact
      { h with
        deletion := by simp [plus]; grind
        tokens := by simp [plus]; grind
        present := by simp
        gone := fun _ => ⟨by grind, fun _ => rfl⟩
        fresh := by grind
        dropping := fun _ => rfl
        wellFormed := ⟨h.wellFormed.head_lt, h.wellFormed.tail_lt⟩
        undropped := by simp
        waiting := fun _ => Or.inr rfl }

/-- A reference is taken while the context is registered. -/
theorem Consistent.reference (h : Consistent sv (plus base rest)) (hregistered : sv.registered) :
    Consistent { sv with ref := sv.ref + 1 } (plus base (.reference :: rest)) := by
  have hrefs := h.refs
  have hdeletion := h.deletion
  have hgone := h.gone
  simp [plus] at hrefs hdeletion
  exact
    { h with
      refs := by simp [plus]; omega
      deletion := by simp [plus]; grind
      gone := by grind }

theorem Consistent.grab (h : Consistent sv (plus base [.token])) (hregistered : sv.registered) :
    Consistent { sv with ref := sv.ref + 1 }
      (plus base [.reference, .token, .dispatching]) := by
  have htokens := h.tokens
  have hready := h.ready
  simp [plus] at htokens hready
  exact { h.reference hregistered with dispatching := fun _ => by grind }

/-- What a pop does to an empty queue. -/
theorem popNone_spec (h : sv.queue.WellFormed) {queue : MessageQueue μ}
    (hpop : skynetMqPop sv.queue = (none, queue)) :
    queue.WellFormed ∧ queue.release = sv.queue.release ∧ sv.queue.messages = [] ∧
      queue.messages = [] ∧ queue.inGlobal = false := by
  have hspec := skynetMqPop_spec h
  rw [hpop] at hspec
  obtain ⟨hwell, hsame, hcases⟩ := hspec
  rcases hcases with ⟨-, hempty⟩ | ⟨other, hother, -⟩
  · exact ⟨hwell, hsame, hempty⟩
  · cases hother

/-- No message is left, and the queue is let go of. -/
theorem Consistent.popNone (h : Consistent sv (plus base [.reference, .token, .dispatching]))
    {queue : MessageQueue μ} (hpop : skynetMqPop sv.queue = (none, queue)) :
    Consistent { sv with queue } (plus base [.reference]) := by
  obtain ⟨hpresent, -, hallocated, hrelease⟩ := h.of_reference (by simp)
  obtain ⟨hwell, hsame, hbefore, hmessages, hglobal⟩ := popNone_spec h.wellFormed hpop
  have htokens := h.tokens
  have hready := h.ready
  have haccount := h.account
  have hundropped := h.undropped
  have hdropping := h.dropping
  have hinit := h.of_dispatching (by simp)
  simp [plus] at htokens hready
  exact
    { h with
      tokens := by simp [plus]; grind
      present := fun _ => ⟨hallocated, hsame ▸ hrelease⟩
      gone := fun hgone => absurd hpresent hgone
      fresh := fun hused => absurd hpresent (h.fresh hused).1
      dispatching := fun _ => hinit
      dropping := by rw [hsame]; exact hdropping
      wellFormed := hwell
      account := by rw [hmessages, ← hbefore]; exact haccount
      undropped := by rw [hsame]; exact hundropped
      empty := fun _ => hmessages
      waiting := fun hne => absurd hmessages hne }

/-- What a pop of a message does to the queue. -/
theorem popSome_spec (h : sv.queue.WellFormed) {message : μ} {queue : MessageQueue μ}
    (hpop : skynetMqPop sv.queue = (some message, queue)) :
    queue.WellFormed ∧ queue.release = sv.queue.release ∧
      sv.queue.messages = message :: queue.messages ∧ queue.inGlobal = sv.queue.inGlobal := by
  have hspec := skynetMqPop_spec h
  rw [hpop] at hspec
  obtain ⟨hwell, hsame, hcases⟩ := hspec
  rcases hcases with ⟨hnone, -⟩ | ⟨other, hother, hmessages, hglobal⟩
  · cases hnone
  · cases hother
    exact ⟨hwell, hsame, hmessages, hglobal⟩

/-- A message is taken by the service. -/
theorem Consistent.popSome (h : Consistent sv (plus base [.reference, .token, .dispatching]))
    {message : μ} {queue : MessageQueue μ} (hpop : skynetMqPop sv.queue = (some message, queue)) :
    Consistent
      { sv with queue := (skynetMqOverload queue).2, handled := sv.handled ++ [message] }
      (plus base [.reference, .token, .dispatching]) := by
  obtain ⟨hpresent, -, hallocated, hrelease⟩ := h.of_reference (by simp)
  obtain ⟨hwell, hsame, hmessages, hglobal⟩ := popSome_spec h.wellFormed hpop
  have hundropped := h.undropped hrelease
  have haccount := h.account
  have hafter : (skynetMqOverload queue).2.messages = queue.messages := rfl
  rw [hmessages, hundropped, List.append_nil] at haccount
  exact
    { h with
      tokens := by
        have htokens := h.tokens
        rw [← hsame, ← hglobal] at htokens
        exact htokens
      present := fun _ => ⟨hallocated, hsame ▸ hrelease⟩
      gone := fun hgone => absurd hpresent hgone
      fresh := fun hused => absurd hpresent (h.fresh hused).1
      dropping := fun hpos => hsame ▸ h.dropping hpos
      wellFormed := ⟨hwell.head_lt, hwell.tail_lt⟩
      account := by rw [hundropped, hafter, ← haccount]; simp
      undropped := fun _ => hundropped
      empty := fun hfreed => absurd hallocated hfreed
      waiting := fun _ => by
        have hwaiting := h.waiting (by rw [hmessages]; simp)
        rw [← hsame, ← hglobal] at hwaiting
        exact hwaiting }

/-- A worker that stops has no right to run the callback any more. -/
theorem Consistent.leave {c c' : Role → ℕ} (h : Consistent sv c)
    (hsame : ∀ role, role ≠ .dispatching → c' role = c role)
    (hfewer : c' .dispatching ≤ c .dispatching) : Consistent sv c' where
  refs := by rw [hsame _ (by decide)]; exact h.refs
  deletion := by rw [hsame _ (by decide)]; exact h.deletion
  tokens := by
    rw [hsame .starting (by decide), hsame .launching (by decide), hsame .failing (by decide),
      hsame .token (by decide)]
    exact h.tokens
  present := h.present
  gone := h.gone
  fresh := h.fresh
  ready := by
    rw [hsame .starting (by decide), hsame .launching (by decide), hsame .failing (by decide)]
    exact h.ready
  unready := by
    rw [hsame .starting (by decide), hsame .launching (by decide), hsame .failing (by decide)]
    exact h.unready
  launching := by rw [hsame _ (by decide)]; exact h.launching
  afterwards := by rw [hsame _ (by decide)]; exact h.afterwards
  dispatching := fun hpos => h.dispatching (hpos.trans_le hfewer)
  dropping := by rw [hsame _ (by decide)]; exact h.dropping
  wellFormed := h.wellFormed
  account := h.account
  undropped := h.undropped
  empty := h.empty
  waiting := h.waiting

/-- The queue of a service that is gone is to be emptied. -/
theorem Consistent.abandon (h : Consistent sv (plus base [.token])) (hrelease : sv.queue.release) :
    Consistent sv (plus base [.token, .dropping]) :=
  { h with dropping := fun _ => hrelease }

/-- A message is dropped. -/
theorem Consistent.dropSome (h : Consistent sv (plus base [.token, .dropping]))
    {message : μ} {queue : MessageQueue μ} (hpop : skynetMqPop sv.queue = (some message, queue)) :
    Consistent { sv with queue, dropped := sv.dropped ++ [message] }
      (plus base [.token, .dropping]) := by
  obtain ⟨hwell, hsame, hmessages, hglobal⟩ := popSome_spec h.wellFormed hpop
  have hrelease : sv.queue.release := h.dropping (by simp [plus])
  have hallocated := (h.of_queue (show Role.token ∈ _ by simp) (by simp)).1
  have haccount := h.account
  rw [hmessages] at haccount
  exact
    { h with
      tokens := by
        have htokens := h.tokens
        rw [← hsame, ← hglobal] at htokens
        exact htokens
      present := fun hpresent => absurd hrelease (h.present hpresent).2
      gone := fun hgone => ⟨(h.gone hgone).1, fun _ => hsame.trans hrelease⟩
      fresh := fun hused => absurd hrelease (h.fresh hused).2.2
      dropping := fun _ => hsame.trans hrelease
      wellFormed := hwell
      account := by rw [← haccount]; simp
      undropped := fun hnot => absurd (hsame.trans hrelease) hnot
      empty := fun hfreed => absurd hallocated hfreed
      waiting := fun _ => Or.inr (hsame.trans hrelease) }

/-- The queue is freed. -/
theorem Consistent.dropNone (h : Consistent sv (plus base [.token, .dropping]))
    {queue : MessageQueue μ} (hpop : skynetMqPop sv.queue = (none, queue)) :
    Consistent { sv with queue, allocated := false } (plus base []) := by
  obtain ⟨hwell, hsame, hbefore, hmessages, hglobal⟩ := popNone_spec h.wellFormed hpop
  have hrelease : sv.queue.release := h.dropping (by simp [plus])
  have htokens := h.tokens
  have haccount := h.account
  simp [plus] at htokens
  exact
    { h with
      tokens := by simp [plus]; grind
      present := fun hpresent => absurd hrelease (h.present hpresent).2
      gone := fun hgone => ⟨(h.gone hgone).1, fun _ => hsame.trans hrelease⟩
      fresh := fun hused => absurd hrelease (h.fresh hused).2.2
      dropping := fun _ => hsame.trans hrelease
      wellFormed := hwell
      account := by rw [hmessages, ← hbefore]; exact haccount
      undropped := fun hnot => absurd (hsame.trans hrelease) hnot
      empty := fun _ => hmessages
      waiting := fun hne => absurd hmessages hne }

theorem Consistent.push (h : Consistent sv (plus base [.reference])) (memory : ℕ → μ) (message : μ) :
    Consistent
      { sv with
        queue := (skynetMqPush memory sv.queue message).1, pushed := sv.pushed ++ [message] }
      (plus base
        (if (skynetMqPush memory sv.queue message).2 then [.reference, .token]
          else [.reference])) := by
  obtain ⟨hpresent, -, hallocated, hrelease⟩ := h.of_reference (by simp)
  obtain ⟨hwell, hmessages, hsame, hglobal, hpushed⟩ :=
    @skynetMqPush_spec _ sv.queue memory h.wellFormed message
  have htokens := h.tokens
  have haccount := h.account
  simp [plus] at htokens
  have hdropping : 0 < base .dropping → (skynetMqPush memory sv.queue message).1.release := by
    rw [hsame]
    exact fun hpos => h.dropping (by simpa [plus] using hpos)
  have hpushedAccount : sv.handled ++ sv.dropped ++
      (skynetMqPush memory sv.queue message).1.messages = sv.pushed ++ [message] := by
    rw [hmessages, ← List.append_assoc, haccount]
  have hkeep := hsame ▸ h.undropped
  split
  · exact
      { h with
        tokens := by simp [plus]; grind
        present := fun _ => ⟨hallocated, hsame ▸ hrelease⟩
        gone := fun hgone => absurd hpresent hgone
        fresh := fun hused => absurd hpresent (h.fresh hused).1
        dropping := fun hpos => hdropping (by simpa [plus] using hpos)
        wellFormed := hwell
        account := hpushedAccount
        undropped := hkeep
        empty := fun hfreed => absurd hallocated hfreed
        waiting := fun _ => Or.inl hglobal }
  · exact
      { h with
        tokens := by simp [plus]; grind
        present := fun _ => ⟨hallocated, hsame ▸ hrelease⟩
        gone := fun hgone => absurd hpresent hgone
        fresh := fun hused => absurd hpresent (h.fresh hused).1
        dropping := fun hpos => hdropping (by simpa [plus] using hpos)
        wellFormed := hwell
        account := hpushedAccount
        undropped := hkeep
        empty := fun hfreed => absurd hallocated hfreed
        waiting := fun _ => Or.inl hglobal }

/-- A service is retired by another. -/
theorem Consistent.retire (h : Consistent sv (plus base [])) (hregistered : sv.registered)
    (hlaunching : base .launching = 0) (hafterwards : base .afterwards = 0) :
    Consistent { sv with registered := false } (plus base [.reference]) := by
  have hrefs := h.refs
  simp [plus] at hrefs
  exact
    { h with
      refs := by simp [plus]; grind
      ready := by simp
      launching := by simp [plus, hlaunching]
      afterwards := by simp [plus, hafterwards] }

end

end Skynet
end ArmyRs
