import ArmyRs.Combat.CombatServers
import ArmyRs.Foundation.Tables

/-!
# The payload of a combat server

The counter of a registered server is the number of its combats whose removal is
not over, as long as a run is careful (`balanced_of_run`).

* The periodic clear removes rooms without releasing their payload.
* A room that is made again after its removal, one whose combat was allocated
  before the server registered again, and one that was never allocated all release
  payload that is not theirs; at 0 that does nothing.
-/

namespace ArmyRs
namespace Combat

open Foundation

/-- The counter of a registered server is the number of its combats. -/
def Cluster.Balanced (s : Cluster) : Prop :=
  ∀ srv count, s.count.lookup srv = some count → count = (s.allocated srv).length

/-- A release is of a combat that counts, and the periodic clear removes none. -/
def Cluster.Careful (s : Cluster) : ClusterEvent → Prop
  | .releasePayload srv token =>
      ∀ count ∈ s.count.lookup srv, token ∈ s.allocated srv ∨ count = 0
  | .checkClearPeriodic srv now =>
      srv ∈ s.count → ∀ token ∈ (s.servers srv).timedOut now, token ∉ s.allocated srv
  | _ => True

instance Cluster.decidableCareful (s : Cluster) : ∀ event, Decidable (s.Careful event)
  | .releasePayload srv token =>
      inferInstanceAs (Decidable (∀ count ∈ s.count.lookup srv,
        token ∈ s.allocated srv ∨ count = 0))
  | .checkClearPeriodic srv now =>
      inferInstanceAs (Decidable (srv ∈ s.count →
        ∀ token ∈ (s.servers srv).timedOut now, token ∉ s.allocated srv))
  | .getServer _ _ _ | .boot _ | .start _ _ | .startResumed _ | .registerServer _
  | .unregisterServer _ | .clearTimeoutServers _ _ | .keepAlive _ _ | .getRoom _ _ _ _ _
  | .removeRoom _ _ | .roomRemoved _ _ => inferInstanceAs (Decidable True)

section

variable {s s' : Cluster} {srv : Srv} {token : Token}

/-- Counters that are there or gone, for the same combats. -/
theorem Cluster.Balanced.subset (balanced : s.Balanced)
    (hcount : ∀ srv count, s'.count.lookup srv = some count → s.count.lookup srv = some count)
    (hallocated : s'.allocated = s.allocated) : s'.Balanced := by
  intro srv count hlookup
  rw [hallocated]
  exact balanced srv count (hcount srv count hlookup)

theorem Cluster.Balanced.same (balanced : s.Balanced) (hcount : s'.count = s.count)
    (hallocated : s'.allocated = s.allocated) : s'.Balanced :=
  balanced.subset (fun srv count hlookup => by rw [← hcount]; exact hlookup) hallocated

/-- One server gets a counter and combats that fit. -/
theorem balanced_set (balanced : s.Balanced) {count : Int} {tokens : List Token}
    (hcount : s'.count = s.count.insert srv count)
    (hallocated : s'.allocated = Function.update s.allocated srv tokens)
    (hfits : count = tokens.length) : s'.Balanced := by
  intro other count' hlookup
  rw [hcount] at hlookup
  rw [hallocated]
  by_cases hother : other = srv
  · subst hother
    rw [AList.lookup_insert, Option.some_inj] at hlookup
    rw [Function.update_self, ← hlookup]
    exact hfits
  · rw [AList.lookup_insert_ne hother] at hlookup
    rw [Function.update_of_ne hother]
    exact balanced other count' hlookup

/-! ## Allocation -/

/-- What the last loop of `GET_SERVER` finds is one of the counters. -/
theorem mem_of_foldl_lessPayload {status : Table Srv SrvStatus} {entries : List (Srv × Int)}
    {start : Option (Srv × Int)} {found : Srv × Int}
    (h : entries.foldl (lessPayload status) start = some found) :
    found ∈ entries ∨ start = some found := by
  induction entries generalizing start with
  | nil => exact .inr h
  | cons entry entries ih =>
      rcases ih h with hmem | hround
      · exact .inl (List.mem_cons_of_mem _ hmem)
      · unfold lessPayload at hround
        split at hround
        · split at hround
          · cases hround
            exact .inl List.mem_cons_self
          · split at hround
            · cases hround
              exact .inl List.mem_cons_self
            · exact .inr hround
        · exact .inr hround

theorem balanced_getServer (balanced : s.Balanced) (token : Token) (now : Int)
    (order : List Srv) : (s.getServer token now order).Balanced := by
  unfold Cluster.getServer
  dsimp only
  split
  · exact balanced.same rfl rfl
  · next srv min hfound =>
    -- the counter is the one that is there
    have hmin : s.count.lookup srv = some min := by
      rcases mem_of_foldl_lessPayload hfound with hmem | hnone
      · obtain ⟨other, -, hentry⟩ := List.mem_filterMap.mp hmem
        obtain ⟨count, hcount, heq⟩ := Option.map_eq_some_iff.mp hentry
        cases heq
        exact hcount
      · cases hnone
    apply balanced_set balanced rfl rfl
    rw [balanced srv min hmin, List.length_cons]
    rfl

/-! ## The maintenance service -/

theorem balanced_registerServer (balanced : s.Balanced) (srv : Srv) :
    (s.registerServer srv).Balanced :=
  balanced_set balanced rfl rfl rfl

theorem balanced_unregisterServer (balanced : s.Balanced) (srv : Srv) :
    (s.unregisterServer srv).Balanced := by
  unfold Cluster.unregisterServer
  split
  · apply balanced.subset
    · intro other count hlookup
      have herased : (s.count.erase srv).lookup other = some count := hlookup
      exact (lookup_erase_eq_some.mp herased).1
    · rfl
  · exact balanced

/-- Erasing servers only takes counters away. -/
theorem lookup_of_foldl_erase {srvs : List Srv} {table : Table Srv Int} {count : Int}
    (h : (srvs.foldl (fun table srv => table.erase srv) table).lookup srv = some count) :
    table.lookup srv = some count := by
  induction srvs generalizing table with
  | nil => exact h
  | cons first srvs ih =>
      have hlookup : (table.erase first).lookup srv = some count := ih h
      exact (lookup_erase_eq_some.mp hlookup).1

theorem balanced_clearTimeoutServers (balanced : s.Balanced) (now : Int) :
    (s.clearTimeoutServers now).Balanced :=
  balanced.subset (fun _ _ hlookup => lookup_of_foldl_erase hlookup) rfl

/-! ## The end of a combat -/

/-- Payload is released rightly exactly when it is of a combat that counts, when
there is none, or when the server is not registered. -/
theorem balanced_releasePayload_iff (balanced : s.Balanced)
    (hcount : s'.count = (s.releasePayload srv).count)
    (hallocated : s'.allocated =
      Function.update s.allocated srv ((s.allocated srv).erase token)) :
    s'.Balanced ↔ ∀ count ∈ s.count.lookup srv, token ∈ s.allocated srv ∨ count = 0 := by
  unfold Cluster.releasePayload at hcount
  cases hlookup : s.count.lookup srv with
  | none =>
      rw [hlookup] at hcount
      constructor
      · exact fun _ _ hcount => nomatch hcount
      · intro _ other count hother
        rw [hcount] at hother
        have hne : other ≠ srv := by
          rintro rfl
          rw [hlookup] at hother
          cases hother
        rw [hallocated, Function.update_of_ne hne]
        exact balanced other count hother
  | some count =>
      rw [hlookup] at hcount
      dsimp only at hcount
      have hlength := balanced srv count hlookup
      constructor
      · intro balanced' count' hcount'
        cases hcount'
        by_cases hmem : token ∈ s.allocated srv
        · exact .inl hmem
        · have hafter := balanced' srv (if count - 1 < 0 then 0 else count - 1)
            (by rw [hcount, AList.lookup_insert])
          rw [hallocated, Function.update_self, List.erase_of_not_mem hmem] at hafter
          right
          split at hafter <;> omega
      · intro h
        apply balanced_set balanced hcount hallocated
        rcases h count rfl with hmem | hzero
        · have hpos := List.length_pos_of_mem hmem
          rw [List.length_erase_of_mem hmem]
          split <;> omega
        · have hnil : s.allocated srv = [] := by
            rw [← List.length_eq_zero_iff]
            omega
          rw [hnil, hzero]
          rfl

/-- Nothing is taken away exactly when nothing of it was there. -/
theorem length_diff_eq_iff {tokens removed : List Token} :
    (tokens.diff removed).length = tokens.length ↔ ∀ token ∈ removed, token ∉ tokens := by
  induction removed generalizing tokens with
  | nil => exact ⟨fun _ _ h => absurd h List.not_mem_nil, fun _ => rfl⟩
  | cons first removed ih =>
      rw [List.diff_cons, List.forall_mem_cons]
      by_cases hfirst : first ∈ tokens
      · have hle : ((tokens.erase first).diff removed).length ≤ (tokens.erase first).length :=
          (List.diff_sublist _ _).length_le
        have hlt : (tokens.erase first).length < tokens.length := by
          rw [List.length_erase_of_mem hfirst]
          exact Nat.sub_lt (List.length_pos_of_mem hfirst) Nat.one_pos
        exact ⟨fun h => absurd h (by omega), fun h => absurd hfirst h.1⟩
      · rw [List.erase_of_not_mem hfirst, ih]
        exact ⟨fun h => ⟨hfirst, h⟩, And.right⟩

theorem balanced_checkClear_iff (balanced : s.Balanced) {removed : List Token}
    (hcount : s'.count = s.count)
    (hallocated : s'.allocated =
      Function.update s.allocated srv ((s.allocated srv).diff removed)) :
    s'.Balanced ↔ (srv ∈ s.count → ∀ token ∈ removed, token ∉ s.allocated srv) := by
  rw [← length_diff_eq_iff]
  constructor
  · intro balanced' hsrv
    obtain ⟨count, hlookup⟩ := exists_lookup hsrv
    have hafter := balanced' srv count (by rw [hcount]; exact hlookup)
    rw [hallocated, Function.update_self, balanced srv count hlookup] at hafter
    exact_mod_cast hafter.symm
  · intro h other count hlookup
    rw [hcount] at hlookup
    rw [hallocated]
    by_cases hother : other = srv
    · subst hother
      rw [Function.update_self, balanced other count hlookup]
      exact_mod_cast (h (mem_of_lookup hlookup)).symm
    · rw [Function.update_of_ne hother]
      exact balanced other count hlookup

/-! ## Runs -/

theorem onServer_eq_some {next : CombatServer → Cluster}
    (h : s.onServer srv next = some s') : s' = next (s.servers srv) := by
  unfold Cluster.onServer at h
  split at h
  · exact (Option.some_inj.mp h).symm
  · cases h

/-- After a step the counters are right exactly when the step is careful. -/
theorem balanced_step_iff (balanced : s.Balanced) {event : ClusterEvent}
    (hstep : s.step event = some s') : s'.Balanced ↔ s.Careful event := by
  cases event with
  | getServer token now order =>
      obtain ⟨-, hstep⟩ := Option.ite_none_right_eq_some.mp hstep
      cases hstep
      exact ⟨fun _ => trivial, fun _ => balanced_getServer balanced token now order⟩
  | boot srv =>
      cases hstep
      exact ⟨fun _ => trivial, fun _ => balanced.same rfl rfl⟩
  | start srv now =>
      simp only [Cluster.step] at hstep
      rw [onServer_eq_some hstep]
      refine ⟨fun _ => trivial, fun _ => ?_⟩
      split
      · exact balanced
      · exact (balanced_clearTimeoutServers balanced now).same rfl rfl
  | startResumed srv =>
      simp only [Cluster.step] at hstep
      obtain ⟨-, hstep⟩ := Option.ite_none_right_eq_some.mp hstep
      rw [onServer_eq_some hstep]
      exact ⟨fun _ => trivial, fun _ => (balanced_registerServer balanced srv).same rfl rfl⟩
  | registerServer srv =>
      simp only [Cluster.step] at hstep
      rw [onServer_eq_some hstep]
      exact ⟨fun _ => trivial, fun _ => balanced_registerServer balanced srv⟩
  | unregisterServer srv =>
      simp only [Cluster.step] at hstep
      rw [onServer_eq_some hstep]
      exact ⟨fun _ => trivial, fun _ => balanced_unregisterServer balanced srv⟩
  | clearTimeoutServers srv now =>
      simp only [Cluster.step] at hstep
      rw [onServer_eq_some hstep]
      exact ⟨fun _ => trivial, fun _ => balanced_clearTimeoutServers balanced now⟩
  | keepAlive srv now =>
      simp only [Cluster.step] at hstep
      obtain ⟨-, hstep⟩ := Option.ite_none_right_eq_some.mp hstep
      rw [onServer_eq_some hstep]
      exact ⟨fun _ => trivial, fun _ => balanced.same rfl rfl⟩
  | getRoom srv pid token entered now =>
      simp only [Cluster.step] at hstep
      rw [onServer_eq_some hstep]
      exact ⟨fun _ => trivial, fun _ => balanced.same rfl rfl⟩
  | removeRoom srv token =>
      simp only [Cluster.step] at hstep
      rw [onServer_eq_some hstep]
      exact ⟨fun _ => trivial, fun _ => balanced.same rfl rfl⟩
  | roomRemoved srv token =>
      simp only [Cluster.step] at hstep
      obtain ⟨-, hstep⟩ := Option.ite_none_right_eq_some.mp hstep
      rw [onServer_eq_some hstep]
      exact ⟨fun _ => trivial, fun _ => balanced.same rfl rfl⟩
  | releasePayload srv token =>
      simp only [Cluster.step] at hstep
      obtain ⟨-, hstep⟩ := Option.ite_none_right_eq_some.mp hstep
      rw [onServer_eq_some hstep]
      have hallocated : (s.releasePayload srv).allocated = s.allocated := by
        unfold Cluster.releasePayload
        split <;> rfl
      refine balanced_releasePayload_iff balanced ?_ ?_
      · rfl
      · show Function.update (s.releasePayload srv).allocated srv _ = _
        rw [hallocated]
  | checkClearPeriodic srv now =>
      simp only [Cluster.step] at hstep
      rw [onServer_eq_some hstep]
      exact balanced_checkClear_iff balanced rfl rfl

/-- In every careful run the counter of every registered server is the number of
its combats, and a step keeps that exactly when it is careful. -/
theorem balanced_of_run {events : List ClusterEvent}
    (hrun : Run Cluster.step Cluster.Careful Cluster.new events s) :
    s.Balanced ∧ ∀ event s', s.step event = some s' → (s'.Balanced ↔ s.Careful event) := by
  have balanced : s.Balanced := by
    apply hrun.invariant
    · exact fun srv count hlookup => nomatch hlookup
    · exact fun s event s' balanced hcareful hstep =>
        (balanced_step_iff balanced hstep).mpr hcareful
  exact ⟨balanced, fun event s' hstep => balanced_step_iff balanced hstep⟩

end

/-! ## One server -/

def srv1 : Srv := "10.0.0.1_9000"

/-- A combat is allocated and its room is removed. -/
def played : List ClusterEvent :=
  [.boot srv1, .start srv1 100, .startResumed srv1, .keepAlive srv1 101,
    .getServer "room" 102 [srv1], .getRoom srv1 (.number 1) "room" false 500,
    .removeRoom srv1 "room", .roomRemoved srv1 "room", .releasePayload srv1 "room"]

def playedEnd : Cluster :=
  (exec Cluster.step Cluster.Careful Cluster.new played).getD Cluster.new

theorem balanced_played :
    playedEnd.Balanced ∧ ∀ event s', playedEnd.step event = some s' →
      (s'.Balanced ↔ playedEnd.Careful event) := by
  have hrun : Run Cluster.step Cluster.Careful Cluster.new played playedEnd :=
    run_exec_getD _ (by decide +kernel)
  exact balanced_of_run hrun

/-- The room is cleared after an hour. -/
def cleared : List ClusterEvent :=
  [.boot srv1, .start srv1 100, .startResumed srv1, .keepAlive srv1 101,
    .getServer "room" 102 [srv1], .getRoom srv1 (.number 1) "room" false 500,
    .checkClearPeriodic srv1 360500]

def clearedEnd : Cluster :=
  (exec Cluster.step free Cluster.new cleared).getD Cluster.new

/-- The counter stays at 1 without any combat. -/
theorem not_balanced_cleared :
    ¬ ∀ (events : List ClusterEvent) (s : Cluster),
      Run Cluster.step free Cluster.new events s → s.Balanced := by
  intro h
  have hrun : Run Cluster.step free Cluster.new cleared clearedEnd :=
    run_exec_getD _ (by decide +kernel)
  have hcount : clearedEnd.count.lookup srv1 = some 1 := by decide +kernel
  have hallocated : clearedEnd.allocated srv1 = [] := by decide +kernel
  have hbalanced := h _ _ hrun srv1 1 hcount
  rw [hallocated] at hbalanced
  cases hbalanced

end Combat
end ArmyRs
