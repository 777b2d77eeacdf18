import ArmyRs.Foundation.Transition

/-!
# Checkers and their zones

`CSRouter` spreads the zones over the checker servers (`get_zone_checker`), and answers
which of the open zones a server checks (`get_checker_zones`).  The answers are cached
for each server; one stamp for all of them, the number of open zones at the last
computation, tells whether they are still valid.

After a change of that number, the first query of any server renews the stamp, and the
cached answers of the other servers pass for valid.  `RouterHistory` remembers for which
number the answer of each server was computed.  Every query is answered rightly exactly
as long as no such answer is given after one of the server's zones was opened or closed
(`run_exact_iff`).
-/

namespace ArmyRs
namespace Server

open Foundation

/-- `AppConfig.checker_servers`; there is always one. -/
structure CheckerServers (Name : Type*) where
  first : Name
  rest : List Name
  deriving DecidableEq, Repr

inductive CheckerGroup
  | basic
  | archive
  | zones
  deriving DecidableEq, Repr

namespace CheckerServers

variable {Name : Type*}

/-- The mappings that `init_checker_groups` makes. -/
def checkerMappings (srvs : CheckerServers Name) : CheckerGroup → List Name
  | .basic => [srvs.first]
  | .archive => [srvs.first]
  | .zones => if srvs.rest.length = 0 then [srvs.first] else srvs.rest

theorem length_checkerMappings_pos (srvs : CheckerServers Name) (group : CheckerGroup) :
    0 < (srvs.checkerMappings group).length := by
  cases group with
  | basic => exact Nat.one_pos
  | archive => exact Nat.one_pos
  | zones =>
      show 0 < (if srvs.rest.length = 0 then [srvs.first] else srvs.rest).length
      split
      · exact Nat.one_pos
      · next hrest => exact Nat.pos_of_ne_zero hrest

/-- `get_checker_by_index` -/
def getCheckerByIndex (srvs : CheckerServers Name) (group : CheckerGroup) (index : Nat) : Name :=
  (srvs.checkerMappings group).get ⟨index % (srvs.checkerMappings group).length,
    Nat.mod_lt index (srvs.length_checkerMappings_pos group)⟩

/-- `get_zone_checker` -/
def getZoneChecker (srvs : CheckerServers Name) (zone : Nat) : Name :=
  srvs.getCheckerByIndex .zones zone

/-- The zones of the server, of the first `count`. -/
def selectZones [DecidableEq Name] (srvs : CheckerServers Name) (count : Nat) (server : Name) :
    List Nat :=
  (List.range' 1 count).filter fun zone => srvs.getZoneChecker zone = server

end CheckerServers

structure CSRouter (Name : Type*) where
  numOpenZones : Nat
  checkerZones : Name → Option (List Nat)
  lastNumOpenZones : Option Nat

namespace CSRouter

variable {Name : Type*} [DecidableEq Name]

def new (numOpenZones : Nat) : CSRouter Name where
  numOpenZones := numOpenZones
  checkerZones := fun _ => none
  lastNumOpenZones := none

/-- The answer of the server is computed. -/
def Renews (r : CSRouter Name) (server : Name) : Prop :=
  r.lastNumOpenZones ≠ some r.numOpenZones ∨ r.checkerZones server = none

instance decidableRenews (r : CSRouter Name) (server : Name) : Decidable (r.Renews server) :=
  inferInstanceAs (Decidable (_ ∨ _))

/-- `get_checker_zones`, with the router that it leaves. -/
def getCheckerZones (srvs : CheckerServers Name) (r : CSRouter Name) (server : Name) :
    Option (List Nat) × CSRouter Name :=
  let queried :=
    if r.Renews server then
      { r with
        checkerZones :=
          Function.update r.checkerZones server (some (srvs.selectZones r.numOpenZones server))
        lastNumOpenZones := some r.numOpenZones }
    else r
  (queried.checkerZones server, queried)

end CSRouter

/-- A router, with the number of open zones at which each answer was computed. -/
structure RouterHistory (Name : Type*) where
  router : CSRouter Name
  computedFor : Name → Nat

inductive RouterEvent (Name : Type*)
  | setNumOpenZones (count : Nat)
  | getCheckerZones (server : Name)
  deriving DecidableEq, Repr

namespace RouterHistory

variable {Name : Type*} [DecidableEq Name]

def new (numOpenZones : Nat) : RouterHistory Name where
  router := .new numOpenZones
  computedFor := fun _ => 0

def step (srvs : CheckerServers Name) (h : RouterHistory Name) :
    RouterEvent Name → Option (RouterHistory Name)
  | .setNumOpenZones count => some { h with router := { h.router with numOpenZones := count } }
  | .getCheckerZones server =>
      some
        { router := (h.router.getCheckerZones srvs server).2
          computedFor :=
            if h.router.Renews server then
              Function.update h.computedFor server h.router.numOpenZones
            else h.computedFor }

/-- The answer lists exactly the open zones that the server checks. -/
def Exact (srvs : CheckerServers Name) (r : CSRouter Name) (server : Name) : Prop :=
  ∃ zones, (r.getCheckerZones srvs server).1 = some zones ∧
    ∀ zone, zone ∈ zones ↔
      1 ≤ zone ∧ zone ≤ r.numOpenZones ∧ srvs.getZoneChecker zone = server

/-- A query is answered exactly. -/
def Keeps (srvs : CheckerServers Name) (h : RouterHistory Name) : RouterEvent Name → Prop
  | .setNumOpenZones _ => True
  | .getCheckerZones server => Exact srvs h.router server

/-- The answer is computed, or no zone of the server was opened or closed since it was. -/
def Fresh (srvs : CheckerServers Name) (h : RouterHistory Name) : RouterEvent Name → Prop
  | .setNumOpenZones _ => True
  | .getCheckerZones server =>
      h.router.Renews server ∨
        ∀ zone, 1 ≤ zone → srvs.getZoneChecker zone = server →
          (zone ≤ h.computedFor server ↔ zone ≤ h.router.numOpenZones)

end RouterHistory

section

variable {Name : Type*} [DecidableEq Name] {srvs : CheckerServers Name} {r : CSRouter Name}
  {count zone : Nat} {server : Name}

/-! ## One query -/

theorem mem_selectZones :
    zone ∈ srvs.selectZones count server ↔
      1 ≤ zone ∧ zone ≤ count ∧ srvs.getZoneChecker zone = server := by
  rw [CheckerServers.selectZones, List.mem_filter, List.mem_range'_1, decide_eq_true_eq]
  constructor
  · rintro ⟨⟨hone, hless⟩, hchecker⟩
    exact ⟨hone, by omega, hchecker⟩
  · rintro ⟨hone, hle, hchecker⟩
    exact ⟨⟨hone, by omega⟩, hchecker⟩

theorem getCheckerZones_of_renews (h : r.Renews server) :
    (r.getCheckerZones srvs server).1 = some (srvs.selectZones r.numOpenZones server) := by
  simp [CSRouter.getCheckerZones, h]

theorem getCheckerZones_of_not_renews (h : ¬ r.Renews server) :
    r.getCheckerZones srvs server = (r.checkerZones server, r) := by
  simp [CSRouter.getCheckerZones, h]

theorem numOpenZones_getCheckerZones (srvs : CheckerServers Name) (r : CSRouter Name)
    (server : Name) : (r.getCheckerZones srvs server).2.numOpenZones = r.numOpenZones := by
  unfold CSRouter.getCheckerZones
  dsimp only
  split <;> rfl

end

namespace RouterHistory

variable {Name : Type*} [DecidableEq Name] {srvs : CheckerServers Name}
  {h next : RouterHistory Name} {event : RouterEvent Name} {server : Name}

/-- Every cached answer is that of the number it was computed for. -/
def Cached (srvs : CheckerServers Name) (h : RouterHistory Name) : Prop :=
  ∀ server zones, h.router.checkerZones server = some zones →
    zones = srvs.selectZones (h.computedFor server) server

theorem cached_new (srvs : CheckerServers Name) (count : Nat) : Cached srvs (new count) := by
  intro server zones hzones
  cases hzones

theorem Cached.step (h' : Cached srvs h) (hstep : h.step srvs event = some next) :
    Cached srvs next := by
  cases event with
  | setNumOpenZones count =>
      cases hstep
      exact h'
  | getCheckerZones server =>
      cases hstep
      by_cases hrenews : h.router.Renews server
      · intro other zones hzones
        simp only [CSRouter.getCheckerZones, if_pos hrenews] at hzones ⊢
        rw [Function.update_apply] at hzones ⊢
        split
        · next heq =>
          rw [if_pos heq] at hzones
          rw [heq]
          exact (Option.some.inj hzones).symm
        · next hne =>
          rw [if_neg hne] at hzones
          exact h' other zones hzones
      · rw [getCheckerZones_of_not_renews hrenews, if_neg hrenews]
        exact h'

theorem exact_of_renews (hrenews : h.router.Renews server) : Exact srvs h.router server :=
  ⟨_, getCheckerZones_of_renews hrenews, fun _ => mem_selectZones⟩

/-- What a query answers is right exactly when the answer is fresh. -/
theorem Cached.keeps_iff_fresh (h' : Cached srvs h) (event : RouterEvent Name) :
    Keeps srvs h event ↔ Fresh srvs h event := by
  cases event with
  | setNumOpenZones count => exact Iff.rfl
  | getCheckerZones server =>
      by_cases hrenews : h.router.Renews server
      · exact iff_of_true (exact_of_renews hrenews) (.inl hrenews)
      · -- the cached answer is given
        have hcached : ∃ zones, h.router.checkerZones server = some zones := by
          rw [← Option.ne_none_iff_exists']
          exact fun hnone => hrenews (.inr hnone)
        obtain ⟨zones, hzones⟩ := hcached
        have hanswer : (h.router.getCheckerZones srvs server).1 = some zones := by
          rw [getCheckerZones_of_not_renews hrenews]
          exact hzones
        have hselected := h' server zones hzones
        constructor
        · rintro ⟨others, hothers, hexact⟩
          rw [hanswer, Option.some.injEq] at hothers
          subst hothers
          refine .inr fun zone hone hchecker => ?_
          have hmem := hexact zone
          rw [hselected, mem_selectZones] at hmem
          tauto
        · intro hfresh
          have hsame := hfresh.resolve_left hrenews
          refine ⟨zones, hanswer, fun zone => ?_⟩
          rw [hselected, mem_selectZones]
          have hzone := hsame zone
          tauto

/-- Over any sequence of changes and queries: every query is answered exactly, as long as
no answer is given that was computed before a zone of the server was opened or closed, and
no longer. -/
theorem run_exact_iff (srvs : CheckerServers Name) (count : Nat)
    (events : List (RouterEvent Name)) (h : RouterHistory Name) :
    Run (step srvs) (Keeps srvs) (new count) events h ↔
      Run (step srvs) (Fresh srvs) (new count) events h := by
  constructor
  · refine Run.mono_of_invariant (cached_new srvs count) ?_ ?_
    · intro state event hcached hkeeps
      exact (hcached.keeps_iff_fresh event).mp hkeeps
    · intro state event next hcached _ hstep
      exact hcached.step hstep
  · refine Run.mono_of_invariant (cached_new srvs count) ?_ ?_
    · intro state event hcached hfresh
      exact (hcached.keeps_iff_fresh event).mpr hfresh
    · intro state event next hcached _ hstep
      exact hcached.step hstep

/-- When every server is answered exactly, each open zone is in the answer of one server
and of no other. -/
theorem existsUnique_checker {r : CSRouter Name} (hexact : ∀ server, Exact srvs r server)
    {zone : Nat} (hone : 1 ≤ zone) (hle : zone ≤ r.numOpenZones) :
    ∃! server, ∃ zones, (r.getCheckerZones srvs server).1 = some zones ∧ zone ∈ zones := by
  refine ⟨srvs.getZoneChecker zone, ?_, fun server => ?_⟩
  · obtain ⟨zones, hzones, hmem⟩ := hexact (srvs.getZoneChecker zone)
    exact ⟨zones, hzones, (hmem zone).mpr ⟨hone, hle, rfl⟩⟩
  · rintro ⟨zones, hzones, hin⟩
    obtain ⟨others, hothers, hmem⟩ := hexact server
    rw [hzones, Option.some.injEq] at hothers
    subst hothers
    exact ((hmem zone).mp hin).2.2.symm

/-- Two checkers are queried, the number of zones changes, and the first is queried. -/
def queryTwice : List (RouterEvent Nat) :=
  [.getCheckerZones 1, .getCheckerZones 2, .setNumOpenZones 3, .getCheckerZones 1]

/-- The second checker is then told nothing of the third zone. -/
theorem not_exact_queryTwice :
    ¬ ∀ (srvs : CheckerServers Nat) (count : Nat) (events : List (RouterEvent Nat))
      (h : RouterHistory Nat), Run (step srvs) free (new count) events h →
        ∀ server, Exact srvs h.router server := by
  intro hall
  obtain ⟨zones, hzones, hmem⟩ :=
    hall ⟨0, [1, 2]⟩ 1 queryTwice _ (run_exec_getD (new 1) (by decide)) 2
  have hanswer : some zones = some [1] := hzones.symm
  cases hanswer
  have hthird := (hmem 3).mpr (by decide)
  revert hthird
  decide

end RouterHistory
end Server
end ArmyRs
