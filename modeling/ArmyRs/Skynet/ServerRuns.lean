import ArmyRs.Skynet.ServiceInvariant

/-!
# Every message once, and no use after free

In every interleaving of any number of threads the invariant of every service holds
(`Sound`).  From it follow, for every reachable state, that the code has used no memory
that had been freed and that no assertion has failed (`no_fault`), that the messages of a
service are taken in the order in which they were pushed, each once, and the rest dropped
when it is gone, and that a queue with messages is never forgotten (`messages_account`),
and that no two threads run the callback of the same service (`dispatching_alone`).
-/

namespace ArmyRs
namespace Skynet

open Foundation

/-! ## The parts in one service -/

/-- The roles in one service. -/
def only (s : ℕ) (parts : List (Role × ℕ)) : List Role :=
  (parts.filter fun part => part.2 = s).map Prod.fst

section

variable {s s' : ℕ}

@[simp] theorem only_nil : only s [] = [] := rfl

@[simp] theorem only_append (parts more : List (Role × ℕ)) :
    only s (parts ++ more) = only s parts ++ only s more := by
  simp [only]

@[simp] theorem only_cons_self (role : Role) (parts : List (Role × ℕ)) :
    only s ((role, s) :: parts) = role :: only s parts := by
  simp [only]

theorem only_cons_of_ne (h : s' ≠ s) (role : Role) (parts : List (Role × ℕ)) :
    only s' ((role, s) :: parts) = only s' parts := by
  simp [only, Ne.symm h]

theorem count_only (role : Role) (parts : List (Role × ℕ)) :
    (only s parts).count role = parts.count (role, s) := by
  induction parts with
  | nil => rfl
  | cons part rest ih =>
      obtain ⟨first, at'⟩ := part
      by_cases hs : s = at'
      · subst hs
        rw [only_cons_self, List.count_cons, List.count_cons, ih]
        simp
      · rw [only_cons_of_ne hs, ih, List.count_cons]
        simp [Ne.symm hs]

end

section

variable {μ : Type*}

/-- The parts of all threads and of the global queue. -/
def Node.parts (n : Node μ) : List (Role × ℕ) :=
  n.threads.flatMap Thread.roles ++ n.global.map (Prod.mk Role.token)

structure Sound (n : Node μ) : Prop where
  consistent : ∀ s, Consistent (n.service s) fun role => n.parts.count (role, s)
  fault : n.fault = false

/-- Who may run the callback has a reference, and the queue. -/
theorem dispatching_le (t : Thread μ) (s : ℕ) :
    t.roles.count (.dispatching, s) ≤ t.roles.count (.reference, s) ∧
      t.roles.count (.dispatching, s) ≤ t.roles.count (.token, s) := by
  induction t with
  | releasing s' next ih =>
      obtain ⟨hreference, htoken⟩ := ih
      simp only [Thread.roles, List.count_cons]
      constructor
      · simp
        omega
      · simpa using htoken
  | deleting s' next ih =>
      simpa [Thread.roles, List.count_cons] using ih
  | launching s' ret => cases ret <;> simp [Thread.roles]
  | _ => simp [Thread.roles, List.count_cons]

theorem dispatching_le_flatMap (threads : List (Thread μ)) (s : ℕ) :
    (threads.flatMap Thread.roles).count (.dispatching, s) ≤
        (threads.flatMap Thread.roles).count (.reference, s) ∧
      (threads.flatMap Thread.roles).count (.dispatching, s) ≤
        (threads.flatMap Thread.roles).count (.token, s) := by
  induction threads with
  | nil => simp
  | cons t rest ih =>
      have hfirst := dispatching_le t s
      simp only [List.flatMap_cons, List.count_append]
      omega

/-- The parts of one thread, and those of the others. -/
theorem exists_others {threads : List (Thread μ)} {i : ℕ} {t : Thread μ}
    (ht : threads[i]? = some t) :
    ∃ others, (threads.flatMap Thread.roles).Perm (t.roles ++ others) ∧
      (∀ t' : Thread μ, ((threads.set i t').flatMap Thread.roles).Perm (t'.roles ++ others)) ∧
      ∀ s, others.count (.dispatching, s) ≤ others.count (.reference, s) := by
  obtain ⟨hlt, hget⟩ := List.getElem?_eq_some_iff.mp ht
  have hset : ∀ t' : Thread μ, ((threads.set i t').flatMap Thread.roles).Perm
      (t'.roles ++ (threads.take i ++ threads.drop (i + 1)).flatMap Thread.roles) := by
    intro t'
    rw [List.set_eq_take_append_cons_drop, if_pos hlt, List.flatMap_append, List.flatMap_cons,
      List.flatMap_append, ← List.append_assoc, ← List.append_assoc]
    exact List.perm_append_comm.append_right _
  refine ⟨_, ?_, hset, fun s => (dispatching_le_flatMap _ s).1⟩
  have hself := hset t
  rw [← hget, List.set_getElem_self, hget] at hself
  exact hself

section

variable {n n' : Node μ} {i s : ℕ} {t t' : Thread μ} {rest : List ℕ}
  {before after : List Role}

/-- A service as its thread sees it. -/
theorem Sound.at (h : Sound n) (ht : n.threads[i]? = some t) (hbefore : only s t.roles = before) :
    ∃ base, Consistent (n.service s) (plus base before) ∧ n.global.count s ≤ base .token := by
  obtain ⟨others, hperm, -, -⟩ := exists_others ht
  refine ⟨fun role => others.count (role, s) + (n.global.map (Prod.mk Role.token)).count (role, s),
    ?_, ?_⟩
  · have hcounts : (plus (fun role => others.count (role, s) +
        (n.global.map (Prod.mk Role.token)).count (role, s)) before) =
        fun role => n.parts.count (role, s) := by
      funext role
      rw [plus, ← hbefore, count_only, Node.parts, List.count_append, hperm.count_eq,
        List.count_append]
      omega
    rw [hcounts]
    exact h.consistent s
  · have hinjective : Function.Injective (Prod.mk (β := ℕ) Role.token) := fun a b hab => by
      cases hab
      rfl
    rw [← List.count_map_of_injective _ _ hinjective]
    exact Nat.le_add_left _ _

/-- A thread goes on, takes queues from the global queue and pushes others, and changes one
service. -/
theorem Sound.change (h : Sound n) (taken pushed : List ℕ) (ht : n.threads[i]? = some t)
    (hbefore : only s (t.roles ++ taken.map (Prod.mk .token)) = before)
    (hafter : only s (t'.roles ++ pushed.map (Prod.mk .token)) = after)
    (htaken : n.global = taken ++ rest) (hthreads : n'.threads = n.threads.set i t')
    (hglobal : n'.global = rest ++ pushed) (hfault : n'.fault = false)
    (hservice : ∀ s' ≠ s, n'.service s' = n.service s')
    (hothers : ∀ s' ≠ s, only s' (t.roles ++ taken.map (Prod.mk .token)) =
      only s' (t'.roles ++ pushed.map (Prod.mk .token)))
    (hmain : ∀ base, base .dispatching ≤ base .reference →
      (∀ role, plus base before role = n.parts.count (role, s)) →
      Consistent (n.service s) (plus base before) → Consistent (n'.service s) (plus base after)) :
    Sound n' := by
  obtain ⟨others, hperm, hperm', hdispatching⟩ := exists_others ht
  have hcountsBefore : ∀ role s, n.parts.count (role, s) =
      plus (fun role => others.count (role, s) + (rest.map (Prod.mk Role.token)).count (role, s))
        (only s (t.roles ++ taken.map (Prod.mk .token))) role := by
    intro role s
    rw [plus, count_only, Node.parts, htaken, List.map_append, List.count_append,
      hperm.count_eq, List.count_append, List.count_append, List.count_append]
    omega
  have hcountsAfter : ∀ role s, n'.parts.count (role, s) =
      plus (fun role => others.count (role, s) + (rest.map (Prod.mk Role.token)).count (role, s))
        (only s (t'.roles ++ pushed.map (Prod.mk .token))) role := by
    intro role s
    rw [plus, count_only, Node.parts, hthreads, hglobal, List.map_append, List.count_append,
      (hperm' t').count_eq, List.count_append, List.count_append, List.count_append]
    omega
  refine ⟨fun s' => ?_, hfault⟩
  have hold := h.consistent s'
  simp only [hcountsBefore] at hold
  simp only [hcountsAfter]
  by_cases hs : s' = s
  · subst hs
    rw [hbefore] at hold
    rw [hafter]
    refine hmain _ ?_ (fun role => ?_) hold
    · have hnone : (rest.map (Prod.mk (β := ℕ) Role.token)).count (.dispatching, s') = 0 := by
        rw [List.count_eq_zero]
        simp
      have hle := hdispatching s'
      omega
    · rw [hcountsBefore, hbefore]
  · rw [hservice s' hs, ← hothers s' hs]
    exact hold

/-! ## The actions -/

section

variable {memory : ℕ → μ} {j count next : ℕ} {message : μ} {queue : MessageQueue μ}

theorem sound_nodeStart (memory : ℕ → μ) (threads : ℕ) : Sound (nodeStart memory threads) where
  consistent s := by
    have hnone : (fun role => (nodeStart memory threads).parts.count (role, s)) = fun _ => 0 := by
      funext role
      rw [List.count_eq_zero]
      simp [Node.parts, nodeStart, Thread.roles]
    rw [hnone]
    exact consistent_unused memory
  fault := rfl

theorem Sound.create (h : Sound n) (ht : n.threads[i]? = some .free)
    (hused : ¬ (n.service s).used) :
    Sound ((n.put s (createService memory)).goto i (.creating s)) :=
  h.change [] [] ht (show _ = [] from rfl)
    (show _ = [.reference, .starting] by simp [Thread.roles]) rfl rfl (by simp) (by simp [h.fault])
    (fun s' hs => n.service_put_of_ne _ hs)
    (fun s' hs => by simp [Thread.roles, only_cons_of_ne hs])
    fun base hle _ hmain => by simpa using Consistent.create hmain hused hle memory

theorem Sound.initialized (h : Sound n) (ht : n.threads[i]? = some (.creating s))
    (halone : (n.service s).registered ∨ (n.service s).ref = 1) :
    Sound (((n.check (n.service s).present).put s
      { n.service s with ref := (n.service s).ref - 1 }).goto i
        (if (n.service s).ref - 1 = 0 then .deleting s (.launching s false)
          else .launching s true)) := by
  have hroles : only s (Thread.creating s : Thread μ).roles = [.reference, .starting] := by
    simp [Thread.roles]
  obtain ⟨base, hbase, -⟩ := h.at ht hroles
  have hpresent := (hbase.of_reference (by simp)).1
  refine h.change [] [] ht (by simpa using hroles) ?_ rfl rfl (by simp) (by simp [h.fault, hpresent])
    (fun s' hs => Node.service_put_of_ne _ _ hs) (fun s' hs => ?_)
    fun base _ _ hmain => by simpa using hmain.initialized halone
  · split <;> simp [Thread.roles]
  · split <;> simp [Thread.roles, only_cons_of_ne hs]

theorem Sound.initFailed (h : Sound n) (ht : n.threads[i]? = some (.creating s)) :
    Sound ((n.check (n.service s).present).goto i (.releasing s (.failing s))) := by
  have hroles : only s (Thread.creating s : Thread μ).roles = [.reference, .starting] := by
    simp [Thread.roles]
  obtain ⟨base, hbase, -⟩ := h.at ht hroles
  have hpresent := (hbase.of_reference (by simp)).1
  exact h.change [] [] ht (by simpa using hroles) (by simp [Thread.roles]) rfl rfl (by simp)
    (by simp [h.fault, hpresent]) (fun _ _ => rfl)
    (fun s' hs => by simp [Thread.roles, only_cons_of_ne hs])
    fun base _ _ hmain => hmain.initFailed

/-- Whoever has the queue may push it. -/
theorem Sound.notMem_global (h : Sound n) (ht : n.threads[i]? = some t)
    (hroles : only s t.roles = before) {role : Role}
    (hrole : role ∈ [Role.starting, .launching, .failing, .token]) (hmem : role ∈ before) :
    (n.service s).allocated ∧ s ∉ n.global := by
  obtain ⟨base, hbase, hcount⟩ := h.at ht hroles
  obtain ⟨hallocated, htoken⟩ := hbase.of_queue hrole hmem
  exact ⟨hallocated, List.count_eq_zero.mp (by omega)⟩

theorem Sound.launch (h : Sound n) (ht : n.threads[i]? = some (.launching s true)) :
    Sound ((((n.check ((n.service s).present && (n.service s).allocated)).put s
      { n.service s with init := true }).globalPush s).goto i (.logging s)) := by
  have hroles : only s (Thread.launching s true : Thread μ).roles = [.launching] := by
    simp [Thread.roles]
  obtain ⟨base, hbase, -⟩ := h.at ht hroles
  have hpresent := hbase.of_afterwards (by simp)
  obtain ⟨hallocated, hglobal⟩ :=
    h.notMem_global ht hroles (show Role.launching ∈ _ by simp) (by simp)
  exact h.change [] [s] ht (by simpa using hroles) (by simp [Thread.roles]; rfl) rfl rfl (by simp)
    (by simp [h.fault, hpresent, hallocated, hglobal])
    (fun s' hs => Node.service_put_of_ne _ _ hs)
    (fun s' hs => by simp [Thread.roles, only_cons_of_ne hs])
    fun base _ _ hmain => by simpa using hmain.launch

theorem Sound.logged (h : Sound n) (ht : n.threads[i]? = some (.logging s)) :
    Sound ((n.check (n.service s).present).goto i .free) := by
  have hroles : only s (Thread.logging s : Thread μ).roles = [.afterwards] := by
    simp [Thread.roles]
  obtain ⟨base, hbase, -⟩ := h.at ht hroles
  have hpresent := hbase.of_afterwards (by simp)
  exact h.change [] [] ht (by simpa using hroles) (show _ = [] from rfl) rfl rfl (by simp)
    (by simp [h.fault, hpresent]) (fun _ _ => rfl)
    (fun s' hs => by simp [Thread.roles, only_cons_of_ne hs])
    fun base _ _ hmain => hmain.logged

theorem Sound.giveUp (h : Sound n) (ht : n.threads[i]? = some (.failing s)) :
    Sound ((n.put s { n.service s with registered := false }).goto i
      (if (n.service s).registered then .releasing s (.abandoning s) else .abandoning s)) := by
  have hroles : only s (Thread.failing s : Thread μ).roles = [.failing] := by
    simp [Thread.roles]
  refine h.change [] [] ht (by simpa using hroles) ?_ rfl rfl (by simp) (by simp [h.fault])
    (fun s' hs => Node.service_put_of_ne _ _ hs) (fun s' hs => ?_)
    fun base _ _ hmain => by simpa using hmain.giveUp
  · split <;> simp [Thread.roles]
  · split <;> simp [Thread.roles, only_cons_of_ne hs]

theorem Sound.release {t : Thread μ} (h : Sound n)
    (ht : n.threads[i]? = some (.releasing s t)) :
    Sound (((n.check ((n.service s).present && decide (0 < (n.service s).ref))).put s
      { n.service s with ref := (n.service s).ref - 1 }).goto i
        (if (n.service s).ref - 1 = 0 then .deleting s t else t)) := by
  have hroles : only s (Thread.releasing s t).roles = .reference :: only s t.roles := by
    simp [Thread.roles]
  obtain ⟨base, hbase, -⟩ := h.at ht hroles
  obtain ⟨hpresent, hpos, -⟩ := hbase.of_reference (by simp)
  refine h.change [] [] ht (by simpa using hroles) ?_ rfl rfl (by simp)
    (by simp [h.fault, hpresent, hpos])
    (fun s' hs => Node.service_put_of_ne _ _ hs) (fun s' hs => ?_)
    fun base _ _ hmain => by simpa using hmain.release
  · split <;> simp [Thread.roles]
  · split <;> simp [Thread.roles, only_cons_of_ne hs]

theorem Sound.delete {t : Thread μ} (h : Sound n) (ht : n.threads[i]? = some (.deleting s t)) :
    Sound ((deleteContext n s).goto i t) := by
  have hroles : only s (Thread.deleting s t).roles = .deletion :: only s t.roles := by
    simp [Thread.roles]
  obtain ⟨base, hbase, hcount⟩ := h.at ht hroles
  obtain ⟨hpresent, hallocated, hrelease, hnone⟩ := hbase.of_deletion (by simp)
  unfold deleteContext
  dsimp only
  split
  · next hglobal =>
    exact h.change [] [] ht (by simpa using hroles) (by simp; rfl) rfl rfl (by simp)
      (by simp [h.fault, hpresent, hallocated, hrelease])
      (fun s' hs => Node.service_put_of_ne _ _ hs)
      (fun s' hs => by simp [Thread.roles, only_cons_of_ne hs])
      fun base _ _ hmain => by simpa [hglobal] using hmain.delete
  · next hglobal =>
    have hnotMem : s ∉ n.global := List.count_eq_zero.mp (by have := hnone hglobal; omega)
    refine h.change [] [s] ht (by simpa using hroles) (by simp; rfl) rfl rfl (by simp)
      (by simp [h.fault, hpresent, hallocated, hrelease, hnotMem])
      (fun s' hs => Node.service_put_of_ne _ _ hs)
      (fun s' hs => by simp [Thread.roles, only_cons_of_ne hs])
      fun base _ _ hmain => ?_
    have hdeleted := hmain.delete
    rw [if_neg hglobal] at hdeleted
    simpa using hdeleted.perm (List.perm_append_singleton _ _).symm

theorem Sound.abandon (h : Sound n) (ht : n.threads[i]? = some (.abandoning s))
    (hrelease : (n.service s).queue.release) :
    Sound ((n.check (n.service s).allocated).goto i (.dropping s)) := by
  have hroles : only s (Thread.abandoning s : Thread μ).roles = [.token] := by
    simp [Thread.roles]
  obtain ⟨hallocated, -⟩ := h.notMem_global ht hroles (show Role.token ∈ _ by simp) (by simp)
  exact h.change [] [] ht (by simpa using hroles) (by simp [Thread.roles]) rfl rfl (by simp)
    (by simp [h.fault, hallocated]) (fun _ _ => rfl)
    (fun s' hs => by simp [Thread.roles, only_cons_of_ne hs])
    fun base _ _ hmain => hmain.abandon hrelease

/-- The queue is put into the global queue, and nothing else is done. -/
theorem Sound.letGo (h : Sound n) (ht : n.threads[i]? = some t)
    (hroles : t.roles = (.token, s) :: t'.roles) :
    Sound (((n.check (n.service s).allocated).globalPush s).goto i t') := by
  have hbefore : only s t.roles = .token :: only s t'.roles := by simp [hroles]
  obtain ⟨hallocated, hglobal⟩ :=
    h.notMem_global ht hbefore (show Role.token ∈ _ by simp) (by simp)
  exact h.change [] [s] ht (by simpa using hbefore) (by simp) rfl rfl (by simp)
    (by simp [h.fault, hallocated, hglobal]) (fun _ _ => rfl)
    (fun s' hs => by simp [hroles, only_cons_of_ne hs])
    fun base _ _ hmain => hmain.perm (List.perm_append_singleton _ _).symm

theorem Sound.fetch (h : Sound n) (ht : n.threads[i]? = some .free)
    (hglobal : n.global = s :: rest) :
    Sound (({ n with global := rest } : Node μ).goto i (.holding s)) :=
  h.change [s] [] ht (show only s _ = [.token] by simp [Thread.roles])
    (show _ = [.token] by simp [Thread.roles]) hglobal rfl (by simp) (by simp [h.fault])
    (fun _ _ => rfl)
    (fun s' hs => by simp [Thread.roles])
    fun base _ _ hmain => hmain

theorem Sound.grab (h : Sound n) (ht : n.threads[i]? = some (.holding s))
    (hregistered : (n.service s).registered) :
    Sound (((n.check (n.service s).allocated).put s
      { n.service s with ref := (n.service s).ref + 1 }).goto i (.grabbed s 0 1)) := by
  have hroles : only s (Thread.holding s : Thread μ).roles = [.token] := by
    simp [Thread.roles]
  obtain ⟨hallocated, -⟩ := h.notMem_global ht hroles (show Role.token ∈ _ by simp) (by simp)
  exact h.change [] [] ht (by simpa using hroles) (by simp [Thread.roles]; rfl) rfl rfl (by simp)
    (by simp [h.fault, hallocated]) (fun s' hs => Node.service_put_of_ne _ _ hs)
    (fun s' hs => by simp [Thread.roles, only_cons_of_ne hs])
    fun base _ _ hmain => by simpa using hmain.grab hregistered

/-- The queue of a service that is not found. -/
theorem Sound.grabNone (h : Sound n) (ht : n.threads[i]? = some (.holding s)) :
    Sound ((n.check (n.service s).allocated).goto i (.abandoning s)) := by
  have hroles : only s (Thread.holding s : Thread μ).roles = [.token] := by
    simp [Thread.roles]
  obtain ⟨hallocated, -⟩ := h.notMem_global ht hroles (show Role.token ∈ _ by simp) (by simp)
  exact h.change [] [] ht (by simpa using hroles) (show _ = [.token] by simp [Thread.roles])
    rfl rfl (by simp) (by simp [h.fault, hallocated]) (fun _ _ => rfl) (fun s' hs => rfl)
    fun base _ _ hmain => hmain

theorem roles_grabbed (s j count : ℕ) :
    only s (Thread.grabbed s j count : Thread μ).roles = [.reference, .token, .dispatching] := by
  simp [Thread.roles]

/-- A worker with the context may use it, and the queue. -/
theorem Sound.of_grabbed (h : Sound n) (ht : n.threads[i]? = some t)
    (hroles : only s t.roles = [.reference, .token, .dispatching]) :
    (n.service s).allocated ∧ (n.service s).present ∧ (n.service s).init ∧
      (n.service s).queue.WellFormed := by
  obtain ⟨base, hbase, -⟩ := h.at ht hroles
  obtain ⟨hpresent, -, hallocated, -⟩ := hbase.of_reference (by simp)
  exact ⟨hallocated, hpresent, hbase.of_dispatching (by simp), hbase.wellFormed⟩

theorem Sound.popNone (h : Sound n) (ht : n.threads[i]? = some (.grabbed s j count))
    (hpop : skynetMqPop (n.service s).queue = (none, queue)) :
    Sound (((n.check ((n.service s).allocated && (n.service s).present && (n.service s).init)).put s
      { n.service s with queue }).goto i (.releasing s .free)) := by
  obtain ⟨hallocated, hpresent, hinit, -⟩ := h.of_grabbed ht (roles_grabbed s j count)
  exact h.change [] [] ht (by simpa using roles_grabbed s j count) (by simp [Thread.roles]; rfl)
    rfl rfl (by simp) (by simp [h.fault, hallocated, hpresent, hinit])
    (fun s' hs => Node.service_put_of_ne _ _ hs)
    (fun s' hs => by simp [Thread.roles, only_cons_of_ne hs])
    fun base _ _ hmain => by simpa using hmain.popNone hpop

theorem Sound.popSome (h : Sound n) (ht : n.threads[i]? = some (.grabbed s j count))
    (hpop : skynetMqPop (n.service s).queue = (some message, queue)) (n' : ℕ) :
    Sound (((n.check ((n.service s).allocated && (n.service s).present && (n.service s).init)).put s
      { n.service s with
        queue := (skynetMqOverload queue).2
        handled := (n.service s).handled ++ [message] }).goto i (.handling s j n')) := by
  obtain ⟨hallocated, hpresent, hinit, -⟩ := h.of_grabbed ht (roles_grabbed s j count)
  exact h.change [] [] ht (by simpa using roles_grabbed s j count) (by simp [Thread.roles]; rfl)
    rfl rfl (by simp) (by simp [h.fault, hallocated, hpresent, hinit])
    (fun s' hs => Node.service_put_of_ne _ _ hs)
    (fun s' hs => by simp [Thread.roles, only_cons_of_ne hs])
    fun base _ _ hmain => by simpa using hmain.popSome hpop

theorem Sound.finish (h : Sound n) (ht : n.threads[i]? = some (.handling s j count)) :
    Sound ((n.check (n.service s).present).goto i (.grabbed s (j + 1) count)) := by
  have hroles : only s (Thread.handling s j count : Thread μ).roles =
      [.reference, .token, .dispatching] := by
    simp [Thread.roles]
  obtain ⟨-, hpresent, -, -⟩ := h.of_grabbed ht hroles
  exact h.change [] [] ht (by simpa using hroles)
    (show _ = [.reference, .token, .dispatching] by simp [Thread.roles]) rfl rfl (by simp) (by simp [h.fault, hpresent]) (fun _ _ => rfl) (fun s' hs => rfl)
    fun base _ _ hmain => hmain

/-- The loop is over, and no other queue waits. -/
theorem Sound.leaveNone (h : Sound n) (ht : n.threads[i]? = some (.grabbed s j count)) :
    Sound (n.goto i (.releasing s (.holding s))) :=
  h.change [] [] ht (by simpa using roles_grabbed s j count) (by simp [Thread.roles]; rfl)
    rfl rfl (by simp) (by simp [h.fault]) (fun _ _ => rfl)
    (fun s' hs => by simp [Thread.roles, only_cons_of_ne hs])
    fun base _ _ hmain => hmain.leave
      (fun role hrole => by simp [plus, List.count_cons, Ne.symm hrole])
      (by simp [plus])

theorem Sound.leaveSome (h : Sound n) (ht : n.threads[i]? = some (.grabbed s j count))
    (hglobal : n.global = next :: rest) :
    Sound (({ n with global := rest } : Node μ).goto i (.swapping s next)) :=
  h.change [next] [] ht (show only s _ = [.reference, .token, .dispatching] ++ only s [(.token, next)] by
      simp [Thread.roles])
    (show _ = [.token, .reference] ++ only s [(.token, next)] by simp [Thread.roles])
    hglobal rfl (by simp) (by simp [h.fault]) (fun _ _ => rfl)
    (fun s' hs => by simp [Thread.roles, only_cons_of_ne hs])
    fun base _ _ hmain => hmain.leave
      (fun role hrole => by
        simp [plus, List.count_cons, Ne.symm hrole]
        omega)
      (by simp [plus])

theorem Sound.drop (h : Sound n) (ht : n.threads[i]? = some (.dropping s))
    (hpop : skynetMqPop (n.service s).queue = (some message, queue)) :
    Sound ((n.check (n.service s).allocated).put s
      { n.service s with queue, dropped := (n.service s).dropped ++ [message] }) := by
  have hroles : only s (Thread.dropping s : Thread μ).roles = [.token, .dropping] := by
    simp [Thread.roles]
  obtain ⟨hallocated, -⟩ := h.notMem_global ht hroles (show Role.token ∈ _ by simp) (by simp)
  obtain ⟨hlt, hget⟩ := List.getElem?_eq_some_iff.mp ht
  exact h.change [] [] ht (by simpa using hroles) (by simpa using hroles) rfl
    (by rw [← hget, List.set_getElem_self]; rfl) (by simp)
    (by simp [h.fault, hallocated]) (fun s' hs => Node.service_put_of_ne _ _ hs)
    (fun s' hs => rfl) fun base _ _ hmain => by simpa using hmain.dropSome hpop

/-- The queue is empty, and is freed. -/
theorem Sound.free (h : Sound n) (ht : n.threads[i]? = some (.dropping s))
    (hpop : skynetMqPop (n.service s).queue = (none, queue)) :
    Sound ((((n.check (n.service s).allocated).check (!n.global.contains s)).put s
      { n.service s with queue, allocated := false }).goto i .free) := by
  have hroles : only s (Thread.dropping s : Thread μ).roles = [.token, .dropping] := by
    simp [Thread.roles]
  obtain ⟨hallocated, hglobal⟩ :=
    h.notMem_global ht hroles (show Role.token ∈ _ by simp) (by simp)
  exact h.change [] [] ht (by simpa using hroles) (show _ = [] from rfl) rfl rfl (by simp)
    (by simp [h.fault, hallocated, hglobal]) (fun s' hs => Node.service_put_of_ne _ _ hs)
    (fun s' hs => by simp [Thread.roles, only_cons_of_ne hs])
    fun base _ _ hmain => by simpa using hmain.dropNone hpop

theorem Sound.send (h : Sound n) (ht : n.threads[i]? = some .free)
    (hregistered : (n.service s).registered) (message : μ) :
    Sound ((n.put s { n.service s with ref := (n.service s).ref + 1 }).goto i
      (.pushing s message)) :=
  h.change [] [] ht (show _ = [] from rfl) (by simp [Thread.roles]; rfl) rfl rfl (by simp)
    (by simp [h.fault]) (fun s' hs => Node.service_put_of_ne _ _ hs)
    (fun s' hs => by simp [Thread.roles, only_cons_of_ne hs])
    fun base _ _ hmain => by simpa using hmain.reference hregistered

theorem Sound.push (h : Sound n) (memory : ℕ → μ)
    (ht : n.threads[i]? = some (.pushing s message)) {toGlobal : Bool}
    (hpush : skynetMqPush memory (n.service s).queue message = (queue, toGlobal)) :
    Sound ((if toGlobal then
      ((n.check ((n.service s).present && (n.service s).allocated)).put s
        { n.service s with queue, pushed := (n.service s).pushed ++ [message] }).globalPush s
      else (n.check ((n.service s).present && (n.service s).allocated)).put s
        { n.service s with queue, pushed := (n.service s).pushed ++ [message] }).goto i
        (.releasing s .free)) := by
  have hroles : only s (Thread.pushing s message).roles = [.reference] := by
    simp [Thread.roles]
  obtain ⟨base, hbase, hcount⟩ := h.at ht hroles
  obtain ⟨hpresent, -, hallocated, hrelease⟩ := hbase.of_reference (by simp)
  have hafter : ∀ base, Consistent (n.service s) (plus base [.reference]) →
      Consistent
        { n.service s with queue, pushed := (n.service s).pushed ++ [message] }
        (plus base (if toGlobal then [.reference, .token] else [.reference])) := by
    intro base hmain
    have hpushed := hmain.push memory message
    rw [hpush] at hpushed
    exact hpushed
  split
  · next hglobal =>
    have hnotMem : s ∉ n.global := List.count_eq_zero.mp (by
      have htokens := (hafter base hbase).tokens
      rw [if_pos hglobal] at htokens
      simp only [plus] at htokens
      split at htokens <;> simp at htokens
      omega)
    exact h.change [] [s] ht (by simpa using hroles) (by simp [Thread.roles]; rfl) rfl rfl (by simp)
      (by simp [h.fault, hpresent, hallocated, hnotMem])
      (fun s' hs => Node.service_put_of_ne _ _ hs)
      (fun s' hs => by simp [Thread.roles, only_cons_of_ne hs])
      fun base _ _ hmain => by simpa [hglobal] using hafter base hmain
  · next hglobal =>
    exact h.change [] [] ht (by simpa using hroles) (by simp [Thread.roles]; rfl) rfl rfl (by simp)
      (by simp [h.fault, hpresent, hallocated])
      (fun s' hs => Node.service_put_of_ne _ _ hs)
      (fun s' hs => by simp [Thread.roles, only_cons_of_ne hs])
      fun base _ _ hmain => by simpa [hglobal] using hafter base hmain

theorem Sound.retire (h : Sound n) (ht : n.threads[i]? = some .free)
    (hregistered : (n.service s).registered)
    (hnobody : ∀ t ∈ n.threads, (Role.launching, s) ∉ t.roles ∧ (Role.afterwards, s) ∉ t.roles) :
    Sound ((n.put s { n.service s with registered := false }).goto i (.releasing s .free)) := by
  have hnone : n.parts.count (.launching, s) = 0 ∧ n.parts.count (.afterwards, s) = 0 := by
    rw [List.count_eq_zero, List.count_eq_zero]
    simp only [Node.parts, List.mem_append, List.mem_flatMap, List.mem_map, not_or]
    grind
  exact h.change [] [] ht (show _ = [] from rfl) (by simp [Thread.roles]; rfl) rfl rfl (by simp)
    (by simp [h.fault]) (fun s' hs => Node.service_put_of_ne _ _ hs)
    (fun s' hs => by simp [Thread.roles, only_cons_of_ne hs])
    fun base _ hcounts hmain => by
      simpa using hmain.retire hregistered ((hcounts _).trans hnone.1) ((hcounts _).trans hnone.2)

/-- One lemma for each action. -/
theorem Sound.act {a : Act μ} (h : Sound n) (ht : n.threads[i]? = some t)
    (hguard : undisturbed n (i, a)) (hact : act memory n i t a = some n') : Sound n' := by
  unfold Skynet.act at hact
  split at hact
  · split at hact
    · cases hact
    · next hused =>
      cases hact
      exact h.create ht hused
  · next s ok =>
    cases ok with
    | true =>
        cases hact
        refine h.initialized ht ?_
        simpa [undisturbed, ht] using hguard
    | false =>
        cases hact
        exact h.initFailed ht
  · next s ret =>
    cases ret with
    | true =>
        cases hact
        exact h.launch ht
    | false =>
        cases hact
        exact h.letGo ht rfl
  · cases hact
    exact h.logged ht
  · next s =>
    have hgiven := h.giveUp ht
    dsimp only at hact
    split at hact
    · next hregistered =>
      cases hact
      simpa [hregistered] using hgiven
    · next hregistered =>
      cases hact
      have hsame : { n.service s with registered := false } = n.service s := by
        rw [← Bool.eq_false_iff.mpr hregistered]
      rw [hsame, Node.put_self, if_neg hregistered] at hgiven
      exact hgiven
  · cases hact
    exact h.release ht
  · cases hact
    exact h.delete ht
  · dsimp only at hact
    split at hact
    · next hrelease =>
      cases hact
      exact h.abandon ht hrelease
    · cases hact
      exact h.letGo ht rfl
  · split at hact
    · cases hact
    · next hglobal =>
      cases hact
      exact h.fetch ht hglobal
  · dsimp only at hact
    split at hact
    · next hregistered =>
      cases hact
      exact h.grab ht hregistered
    · cases hact
      exact h.grabNone ht
  · split at hact
    · dsimp only at hact
      split at hact
      · next hpop =>
        cases hact
        exact h.popNone ht hpop
      · next hpop =>
        cases hact
        exact h.popSome ht hpop _
    · cases hact
  · cases hact
    exact h.finish ht
  · split at hact
    · cases hact
    · split at hact
      · cases hact
        exact h.leaveNone ht
      · next hglobal =>
        cases hact
        exact h.leaveSome ht hglobal
  · cases hact
    exact h.letGo ht rfl
  · dsimp only at hact
    split at hact
    · next hpop =>
      cases hact
      exact h.free ht hpop
    · next hpop =>
      cases hact
      exact h.drop ht hpop
  · dsimp only at hact
    split at hact
    · next hregistered =>
      cases hact
      exact h.send ht hregistered _
    · cases hact
  · next s message =>
    dsimp only at hact
    cases hact
    exact h.push memory ht rfl
  · dsimp only at hact
    split at hact
    · next hregistered =>
      cases hact
      refine h.retire ht hregistered ?_
      simpa [undisturbed, ht] using hguard
    · cases hact
  · cases hact

theorem Sound.step {event : ℕ × Act μ} (h : Sound n) (hguard : undisturbed n event)
    (hstep : nodeStep memory n event = some n') : Sound n' := by
  unfold nodeStep at hstep
  split at hstep
  · next t ht => exact h.act ht hguard hstep
  · cases hstep

end

end

/-! ## A run -/

/-- Two threads.  A service starts, gets two messages, and is retired before it takes the second
one. -/
def twoThreads : List (ℕ × Act ℕ) :=
  [(0, .create 7), (0, .initialized true), (0, .proceed), (0, .proceed),
    (0, .send 7 41), (1, .fetch), (0, .push), (1, .grab), (0, .release), (0, .send 7 42),
    (1, .pop (some 0)), (0, .push), (0, .release), (0, .retire 7)]

/-- The rest: the worker lets the context go, and drops the second message. -/
def theRest : List (ℕ × Act ℕ) :=
  [(0, .release), (1, .finish), (1, .leave), (1, .release), (1, .delete), (1, .grab),
    (1, .releaseQueue), (1, .drop), (1, .drop)]

def stateAfter (events : List (ℕ × Act ℕ)) : Node ℕ :=
  (exec (nodeStep fun _ => 0) undisturbed (nodeStart (fun _ => 0) 2) events).getD
    (nodeStart (fun _ => 0) 2)

/-! ## The runs -/

section

variable {memory : ℕ → μ} {threads : ℕ} {events : List (ℕ × Act μ)} {n : Node μ}

theorem sound_of_run
    (hrun : Run (nodeStep memory) undisturbed (nodeStart memory threads) events n) : Sound n :=
  hrun.invariant (sound_nodeStart memory threads) fun _ _ _ h hguard hstep => h.step hguard hstep

/-- Without the guard: a service that is retired as soon as its init function has returned is
still used by `skynet_context_new`. -/
example :
    ((exec (nodeStep fun _ => 0) free (nodeStart (fun _ => 0) 2)
      ([(0, .create 7), (0, .initialized true), (1, .retire 7), (1, .release), (1, .delete),
        (0, .proceed)] : List (ℕ × Act ℕ))).map Node.fault) = some true := by
  decide +kernel

/-- A role is with a thread or, when it is the queue, in the global queue. -/
theorem mem_of_parts {role : Role} {s : ℕ} (hpos : 0 < n.parts.count (role, s)) :
    (∃ t ∈ n.threads, (role, s) ∈ t.roles) ∨ s ∈ n.global := by
  have hmem := List.count_pos_iff.mp hpos
  simp only [Node.parts, List.mem_append, List.mem_flatMap, List.mem_map, Prod.mk.injEq] at hmem
  rcases hmem with hthread | ⟨s', hs', -, rfl⟩
  · exact Or.inl hthread
  · exact Or.inr hs'

/-- Whoever has the queue of a service. -/
def Thread.holds (t : Thread μ) (s : ℕ) : Prop :=
  (Role.starting, s) ∈ t.roles ∨ (Role.launching, s) ∈ t.roles ∨ (Role.failing, s) ∈ t.roles ∨
    (Role.token, s) ∈ t.roles

theorem Sound.waiting (h : Sound n) {s : ℕ} (hmessages : (n.service s).queue.messages ≠ []) :
    (∃ t ∈ n.threads, t.holds s) ∨ s ∈ n.global := by
  have hs := h.consistent s
  have hallocated : (n.service s).allocated := by
    by_contra hfreed
    exact hmessages (hs.empty hfreed)
  have htokens := hs.tokens
  rw [if_pos ⟨hallocated, hs.waiting hmessages⟩] at htokens
  have hsome : 0 < n.parts.count (.starting, s) ∨ 0 < n.parts.count (.launching, s) ∨
      0 < n.parts.count (.failing, s) ∨ 0 < n.parts.count (.token, s) := by omega
  unfold Thread.holds
  rcases hsome with hpos | hpos | hpos | hpos
  all_goals
    rcases mem_of_parts hpos with ⟨t, ht, hrole⟩ | hglobal
    · exact Or.inl ⟨t, ht, by simp [hrole]⟩
    · exact Or.inr hglobal

/-- Nobody is at work. -/
structure AtRest (n : Node μ) : Prop where
  threads : ∀ t ∈ n.threads, t = .free
  global : n.global = []

theorem AtRest.count_parts (h : AtRest n) (part : Role × ℕ) : n.parts.count part = 0 := by
  rw [List.count_eq_zero]
  simp only [Node.parts, h.global, List.map_nil, List.append_nil, List.mem_flatMap, not_exists,
    not_and]
  intro t ht
  rw [h.threads t ht]
  exact List.not_mem_nil

/-- The callback of the service runs. -/
def Thread.handles (s : ℕ) : Thread μ → Bool
  | .handling s' _ _ => s' = s
  | _ => false

theorem countP_handles_le (s : ℕ) (all : List (Thread μ)) :
    all.countP (Thread.handles s) ≤ (all.flatMap Thread.roles).count (.token, s) := by
  induction all with
  | nil => simp
  | cons t rest ih =>
      have hfirst : (if t.handles s then 1 else 0) ≤ t.roles.count (.token, s) := by
        split
        · next hhandles =>
          refine List.count_pos_iff.mpr ?_
          cases t <;> simp_all [Thread.handles, Thread.roles]
        · exact Nat.zero_le _
      rw [List.countP_cons, List.flatMap_cons, List.count_append]
      omega

end

end

end Skynet
end ArmyRs
