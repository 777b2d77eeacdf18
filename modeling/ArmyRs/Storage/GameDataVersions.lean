import ArmyRs.Storage.GameData

/-!
# Which updates see the latest commit

The version of a model without a failed attempt says whether it is up to date:
it is the stored version when the model comes from the latest commit, and
smaller when it does not (`Tracks`).  The update script then rejects every
model that is behind.  A failed attempt breaks the correspondence, because the
raised version stays in the model: after one more try it can pass the check
without having seen the commit that made the first try fail.
-/

namespace ArmyRs
namespace Storage
namespace GameData

open Foundation

variable {κ Field Data : Type*}

/-- What a handle's numbers say about the stored hash. -/
structure Tracks (w : World κ Field Data) (h : Handle Field Data) : Prop where
  base_le : h.base ≤ w.commits
  sources : ∀ field value, h.model.fields field = some value →
    h.base ≤ h.sources field ∧ h.sources field ≤ w.commits
  current : h.failures = 0 → h.base = w.commits → ∀ stored, w.blob = some stored →
    h.model.version = stored.version
  behind : h.failures = 0 → h.base < w.commits → ∀ stored, w.blob = some stored →
    h.model.version < stored.version

/-- Every handle tracks the stored hash, and all commits so far were derived. -/
structure Lineage (w : World κ Field Data) : Prop where
  handles : ∀ k h, w.handles k = some h → Tracks w h
  derived : Derived w

theorem lineage_initial (blob : Option (Blob Field Data)) :
    Lineage (initial blob : World κ Field Data) :=
  ⟨fun _ _ h => (by cases h), fun _ h => (by cases h)⟩

/-- A handle that differs in its flags or in its values only still tracks. -/
theorem Tracks.congr {w : World κ Field Data} {h g : Handle Field Data} (hh : Tracks w h)
    (hversion : g.model.version = h.model.version) (hbase : g.base = h.base)
    (hsources : g.sources = h.sources) (hfailures : g.failures = h.failures)
    (hfields : ∀ field value, g.model.fields field = some value →
      ∃ old, h.model.fields field = some old) : Tracks w g := by
  refine ⟨hbase ▸ hh.base_le, fun field value hvalue => ?_, ?_, ?_⟩
  · obtain ⟨old, hold⟩ := hfields field value hvalue
    rw [hbase, hsources]
    exact hh.sources field old hold
  · rw [hversion, hbase, hfailures]
    exact hh.current
  · rw [hversion, hbase, hfailures]
    exact hh.behind

theorem tracks_freshHandle {w : World κ Field Data} {stored : Blob Field Data}
    (hblob : w.blob = some stored) : Tracks w (freshHandle w stored) := by
  refine ⟨le_rfl, fun field value hvalue => (by cases hvalue), fun _ _ other hother => ?_,
    fun _ hlt => absurd hlt (Nat.lt_irrefl _)⟩
  rw [hblob] at hother
  cases hother
  rfl

/-- A field loaded later comes from a commit between the model's and the
latest one. -/
theorem tracks_loadField [DecidableEq Field] {w : World κ Field Data} {h : Handle Field Data}
    (hh : Tracks w h) (field : Field) : Tracks w (loadField w h field) := by
  unfold loadField
  cases hloaded : h.model.fields field with
  | some value => exact hh
  | none =>
      cases hstored : w.blob.bind fun stored => stored.fields field with
      | none => exact hh
      | some value =>
          refine ⟨hh.base_le, fun other found hfound => ?_, hh.current, hh.behind⟩
          by_cases hother : other = field
          · subst hother
            simp only [Function.update_self]
            exact ⟨hh.base_le, le_rfl⟩
          · simp only [Function.update_of_ne hother] at hfound ⊢
            exact hh.sources other found hfound

/-- After a failed attempt nothing is claimed about the version. -/
theorem Tracks.failed {w : World κ Field Data} {h g : Handle Field Data} (hh : Tracks w h)
    (hfields : g.model.fields = h.model.fields) (hbase : g.base = h.base)
    (hsources : g.sources = h.sources) (hfailures : g.failures = h.failures + 1) :
    Tracks w g := by
  refine ⟨hbase ▸ hh.base_le, fun field value hvalue => ?_, fun hzero => ?_, fun hzero => ?_⟩
  · rw [hfields] at hvalue
    rw [hbase, hsources]
    exact hh.sources field value hvalue
  · omega
  · omega

/-- What the update script accepts. -/
theorem updateBlob_eq_some {blob : Option (Blob Field Data)} {m : Model Field Data}
    {stored : Blob Field Data} (h : updateBlob blob m = some stored) :
    ∃ old, blob = some old ∧ old.version < m.version ∧ stored = hmset old m := by
  cases blob with
  | none => cases h
  | some old =>
      simp only [updateBlob] at h
      split at h
      · next hlt =>
        cases h
        exact ⟨old, rfl, hlt, rfl⟩
      · cases h

/-- A successful update under the guard comes from the latest commit: without a
failed attempt a model that is behind has a smaller version and is rejected. -/
theorem Tracks.base_eq_of_update {w : World κ Field Data} {h : Handle Field Data}
    (hh : Tracks w h) (hguard : h.failures = 0 ∨ h.base = w.commits)
    {old : Blob Field Data} (hblob : w.blob = some old)
    (hlt : old.version < h.model.version + 1) : h.base = w.commits := by
  rcases hguard with hzero | heq
  · rcases Nat.eq_or_lt_of_le hh.base_le with heq | hbehind
    · exact heq
    · have := hh.behind hzero hbehind old hblob
      omega
  · exact heq

/-- A commit puts every other model behind. -/
theorem Lineage.commit {w w' : World κ Field Data} {h : Handle Field Data} (hw : Lineage w)
    (hh : Tracks w h) (hbase : h.base = w.commits) {old stored : Blob Field Data}
    (hold : w.blob = some old) (hlt : old.version < stored.version)
    (hblob : w'.blob = some stored) (hcommits : w'.commits = w.commits + 1)
    (hhandles : w'.handles = w.handles) (hhistory : w'.history = w.history ++ [originOf w h]) :
    Lineage w' := by
  refine ⟨fun k g hg => ?_, fun write hwrite => ?_⟩
  · rw [hhandles] at hg
    have htracks := hw.handles k g hg
    have hle := htracks.base_le
    refine ⟨by omega, fun field value hvalue => ?_, fun _ heq => by omega,
      fun hzero _ new hnew => ?_⟩
    · have := htracks.sources field value hvalue
      omega
    · rw [hblob] at hnew
      cases hnew
      rcases Nat.eq_or_lt_of_le hle with heq | hbehind
      · have := htracks.current hzero heq old hold
        omega
      · have := htracks.behind hzero hbehind old hold
        omega
  · rw [hhistory] at hwrite
    rcases List.mem_append.mp hwrite with hwrite | hwrite
    · exact hw.derived write hwrite
    · rw [List.mem_singleton] at hwrite
      subst hwrite
      refine ⟨hbase, fun field source hsource => ?_⟩
      simp only [originOf, Option.map_eq_some_iff] at hsource
      obtain ⟨value, hvalue, rfl⟩ := hsource
      have := hh.sources field value hvalue
      show h.sources field = w.commits
      omega

variable [DecidableEq κ]

/-- Setting a handle keeps the invariant when the new handle tracks the hash. -/
theorem Lineage.setHandle {w : World κ Field Data} {k : κ} {h : Handle Field Data}
    (hw : Lineage w) (hh : Tracks w h) : Lineage (w.setHandle k h) := by
  refine ⟨fun j g hg => ?_, hw.derived⟩
  have htracks : Tracks w g := by
    by_cases hj : j = k
    · subst hj
      simp only [World.setHandle, Function.update_self] at hg
      cases hg
      exact hh
    · simp only [World.setHandle, Function.update_of_ne hj] at hg
      exact hw.handles j g hg
  exact ⟨htracks.base_le, htracks.sources, htracks.current, htracks.behind⟩

theorem Lineage.update {w : World κ Field Data} {k : κ} {h : Handle Field Data}
    (hw : Lineage w) (hh : Tracks w h) (hguard : h.failures = 0 ∨ h.base = w.commits)
    (attempt : Attempt) : Lineage (update w k h attempt) := by
  have hfailed : ∀ g : Handle Field Data, g.model.fields = h.model.fields → g.base = h.base →
      g.sources = h.sources → g.failures = h.failures + 1 → Lineage (w.setHandle k g) :=
    fun g h₁ h₂ h₃ h₄ => hw.setHandle (hh.failed h₁ h₂ h₃ h₄)
  unfold GameData.update
  split
  · exact hw.setHandle (hh.congr rfl rfl rfl rfl fun _ value hvalue => ⟨value, hvalue⟩)
  split
  · exact hw.setHandle (hh.congr rfl rfl rfl rfl fun _ value hvalue => ⟨value, hvalue⟩)
  simp only
  split
  · exact hfailed _ rfl rfl rfl rfl
  split
  · exact hfailed _ rfl rfl rfl rfl
  · next stored hstored =>
    obtain ⟨old, hold, hlt, rfl⟩ := updateBlob_eq_some hstored
    have hbase := hh.base_eq_of_update hguard hold hlt
    refine Lineage.setHandle (hw.commit hh hbase hold hlt rfl rfl rfl rfl) ?_
    refine ⟨le_rfl, fun _ _ _ => ⟨le_rfl, le_rfl⟩, fun _ _ other hother => ?_,
      fun _ hbehind => absurd hbehind (Nat.lt_irrefl _)⟩
    cases hother
    rfl

/-- One event keeps the invariant, when it is no stale retry. -/
theorem Lineage.step [DecidableEq Field] {w w' : World κ Field Data}
    {event : Event κ Field Data} (hw : Lineage w) (hguard : NoStaleRetry w event)
    (hstep : step w event = some w') : Lineage w' := by
  cases event with
  | read k =>
      obtain ⟨stored, hblob, rfl⟩ := Option.map_eq_some_iff.mp hstep
      exact hw.setHandle (tracks_freshHandle hblob)
  | loadField k field =>
      obtain ⟨h, hh, rfl⟩ := Option.map_eq_some_iff.mp hstep
      exact hw.setHandle (tracks_loadField (hw.handles k h hh) field)
  | edit k model fields =>
      obtain ⟨h, hh, rfl⟩ := Option.map_eq_some_iff.mp hstep
      refine hw.setHandle ((hw.handles k h hh).congr rfl rfl rfl rfl fun field value hvalue => ?_)
      obtain ⟨old, hold, -⟩ := Option.map_eq_some_iff.mp hvalue
      exact ⟨old, hold⟩
  | putToDb k =>
      obtain ⟨h, hh, rfl⟩ := Option.map_eq_some_iff.mp hstep
      have hflags : ∀ g : Handle Field Data, g.model = h.model → g.base = h.base →
          g.sources = h.sources → g.failures = h.failures → Lineage (w.setHandle k g) := by
        intro g hmodel hbase hsources hfailures
        refine hw.setHandle ((hw.handles k h hh).congr (by rw [hmodel]) hbase hsources hfailures
          fun field value hvalue => ⟨value, ?_⟩)
        rw [← hmodel]
        exact hvalue
      unfold putToDb
      split
      · exact hflags _ rfl rfl rfl rfl
      split
      · exact hflags _ rfl rfl rfl rfl
      · exact hflags _ rfl rfl rfl rfl
  | update k attempt =>
      obtain ⟨h, hh, rfl⟩ := Option.map_eq_some_iff.mp hstep
      exact hw.update (hw.handles k h hh) (hguard h hh) attempt

/-- In every run without a stale retry every successful update was derived from
the latest committed version, each of its fields included. -/
theorem derived_of_run [DecidableEq Field] {blob : Option (Blob Field Data)}
    {events : List (Event κ Field Data)} {w : World κ Field Data}
    (hrun : Run step NoStaleRetry (initial blob) events w) : Derived w := by
  have hlineage : Lineage w := hrun.invariant (lineage_initial blob)
    fun _ _ _ hw hguard hstep => hw.step hguard hstep
  exact hlineage.derived

/-- A stored hash of version zero with one further field. -/
def storedExample : World (Fin 2) Unit Nat := initial (some ⟨0, 10, fun _ => some 20⟩)

/-- The first model loses the version check, is read again and then written. -/
def freshRetry : List (Event (Fin 2) Unit Nat) :=
  [.read 0, .read 1, .update 1 {}, .update 0 {}, .read 0, .loadField 0 (),
    .edit 0 11 fun _ value => value + 1, .putToDb 0, .update 0 {}]

def freshRetryEnd : World (Fin 2) Unit Nat :=
  (exec step NoStaleRetry storedExample freshRetry).getD storedExample

theorem derived_freshRetry :
    freshRetryEnd.blob.map (fun stored => (stored.version, stored.model, stored.fields ())) =
        some (2, 11, some 21) ∧
      freshRetryEnd.history.length = 2 ∧ Derived freshRetryEnd := by
  have hrun : Run step NoStaleRetry storedExample freshRetry freshRetryEnd :=
    run_exec_getD _ (by decide)
  exact ⟨by decide, by decide, derived_of_run hrun⟩

/-- Both models are read at version zero and the second one commits.  The first
one loses the version check, tries again with the same model and wins. -/
def staleRetry : List (Event (Fin 2) Unit Nat) :=
  [.read 0, .read 1, .putToDb 0, .edit 1 11 fun _ value => value, .putToDb 1, .update 1 {},
    .update 0 {}, .putToDb 0, .update 0 {}]

def staleRetryEnd : World (Fin 2) Unit Nat :=
  (exec step free storedExample staleRetry).getD storedExample

/-- The retried update overwrites a commit it has not seen: the model stored in
the end is the one read at the start. -/
theorem not_derived_staleRetry :
    Run step free storedExample staleRetry staleRetryEnd ∧
      staleRetryEnd.blob.map (fun stored => (stored.version, stored.model)) = some (2, 10) ∧
      ¬ Derived staleRetryEnd := by
  refine ⟨run_exec_getD _ (by decide), by decide, fun hderived => ?_⟩
  have hlast := (hderived _ (List.getLast_mem (by decide))).1
  exact absurd hlast (by decide)

end GameData
end Storage
end ArmyRs
