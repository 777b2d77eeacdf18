import ArmyRs.Foundation.Thresholds

/-!
# Experience

`alter_exp` gives experience to a player.  As long as the experience is enough for
the level and the level is not the last one, the loop takes the need of the level
and raises it; at the last level nothing is kept.

What a level needs is looked up by the name of its number, and the last level is
the number of levels that the table has.
-/

namespace ArmyRs
namespace Player

open Foundation

/-- An entry of `GameConfig.levelup`. -/
structure LevelType where
  needExp : Option Int
  deriving DecidableEq, Repr

/-- `GameConfig.levelup`: an entry may be `null`. -/
abbrev LevelTable := List (String × Option LevelType)

/-- `GameConfig.max_level` -/
def LevelTable.maxLevel (levelup : LevelTable) : Nat :=
  levelup.countP fun entry => entry.2.isSome

/-- `level_up_exp`, unless it raises or is `nil`. -/
def LevelTable.levelUpExp (levelup : LevelTable) (level : Nat) : Option Int :=
  (levelup.lookup (toString level)).bind fun entry => entry.bind LevelType.needExp

/-- The level and the experience of a player. -/
structure Progress where
  level : Nat
  exp : Int
  deriving DecidableEq, Repr

/-- `levelup?`; it raises when the table does not say what the level needs. -/
def Progress.levelup (levelup : LevelTable) (s : Progress) : Option Bool :=
  if s.level < levelup.maxLevel then
    (levelup.levelUpExp s.level).map fun need => decide (need ≤ s.exp)
  else some false

/-- The body of the loop. -/
def Progress.raiseLevel (s : Progress) (need : Int) : Progress := ⟨s.level + 1, s.exp - need⟩

/-- `while levelup?`, and whether it ends without raising.  The level is below the
last one as long as the loop goes on. -/
def Progress.levelUps (levelup : LevelTable) (s : Progress) : Progress × Bool :=
  if s.level < levelup.maxLevel then
    match levelup.levelUpExp s.level with
    | none => (s, false)
    | some need => if need ≤ s.exp then (s.raiseLevel need).levelUps levelup else (s, true)
  else (s, true)
termination_by levelup.maxLevel - s.level
decreasing_by simp only [raiseLevel]; omega

/-- What `alter_exp` answers. -/
structure ExpChange where
  diffExp : Int
  levelUp : Bool
  deriving DecidableEq, Repr

/-- `@exp += num` -/
def Progress.plus (s : Progress) (num : Int) : Progress := { s with exp := s.exp + num }

/-- `alter_exp`, without an answer when it raises. -/
def Progress.alterExp (levelup : LevelTable) (s : Progress) (num : Int) :
    Progress × Option ExpChange :=
  let raised := s.plus num
  match raised.levelup levelup with
  | none => (raised, none)
  | some levelUp =>
      match raised.levelUps levelup with
      | (climbed, false) => (climbed, none)
      | (climbed, true) =>
          if levelup.maxLevel ≤ climbed.level then
            ({ climbed with exp := 0 }, some ⟨s.exp, levelUp⟩)
          else (climbed, some ⟨climbed.exp - s.exp, levelUp⟩)

/-! ## The loop is a climb -/

section

variable {levelup : LevelTable} {s : Progress}

/-- The table says what the levels from here to the last one need. -/
def LevelTable.Needs (levelup : LevelTable) (level : Nat) : Prop :=
  ∀ lower, level ≤ lower → lower < levelup.maxLevel →
    ∃ need, levelup.levelUpExp lower = some need ∧ 0 < need

/-- The need of a level that has one. -/
def LevelTable.need (levelup : LevelTable) (level : Nat) : Int :=
  (levelup.levelUpExp level).getD 0

theorem LevelTable.Needs.mono (hneeds : levelup.Needs s.level) {level : Nat}
    (hlevel : s.level ≤ level) : levelup.Needs level :=
  fun lower hle hlt => hneeds lower (hlevel.trans hle) hlt

theorem LevelTable.Needs.levelUpExp_eq (hneeds : levelup.Needs s.level)
    (hlevel : s.level < levelup.maxLevel) :
    levelup.levelUpExp s.level = some (levelup.need s.level) := by
  obtain ⟨need, hneed, -⟩ := hneeds s.level le_rfl hlevel
  rw [LevelTable.need, hneed]
  rfl

/-- Where the levels end from here. -/
def Progress.climbed (levelup : LevelTable) (s : Progress) : Progress :=
  let reached := climb levelup.need levelup.maxLevel s.level s.exp
  ⟨reached.1, reached.2⟩

theorem levelUps_eq (hneeds : levelup.Needs s.level) :
    s.levelUps levelup = (s.climbed levelup, true) := by
  fun_induction Progress.levelUps levelup s with
  | case1 s hlevel hnone =>
      rw [hneeds.levelUpExp_eq hlevel] at hnone
      cases hnone
  | case2 s hlevel need hneed hle ih =>
      have heq : levelup.need s.level = need := by rw [LevelTable.need, hneed]; rfl
      rw [ih (hneeds.mono (Nat.le_succ _))]
      unfold Progress.climbed
      rw [climb_of_le hlevel (heq.le.trans hle), heq]
      rfl
  | case3 s hlevel need hneed hlt =>
      have heq : levelup.need s.level = need := by rw [LevelTable.need, hneed]; rfl
      unfold Progress.climbed
      rw [climb_of_lt fun _ => by rw [heq]; omega]
  | case4 s hlevel =>
      unfold Progress.climbed
      rw [climb_of_lt fun h => absurd h hlevel]

theorem levelup_isSome (hneeds : levelup.Needs s.level) :
    ∃ levelUp, s.levelup levelup = some levelUp := by
  unfold Progress.levelup
  split
  · next hlevel =>
    rw [hneeds.levelUpExp_eq hlevel]
    exact ⟨_, rfl⟩
  · exact ⟨false, rfl⟩

/-- At the last level nothing is kept. -/
def Progress.capped (levelup : LevelTable) (s : Progress) : Progress :=
  if levelup.maxLevel ≤ s.level then { s with exp := 0 } else s

/-- The level and the experience after some experience was given. -/
def Progress.given (levelup : LevelTable) (s : Progress) (num : Int) : Progress :=
  ((s.plus num).climbed levelup).capped levelup

theorem alterExp_eq (hneeds : levelup.Needs s.level) (num : Int) :
    ∃ change, s.alterExp levelup num = (s.given levelup num, some change) := by
  obtain ⟨levelUp, hlevelUp⟩ := @levelup_isSome levelup (s.plus num) hneeds
  unfold Progress.alterExp
  dsimp only
  rw [hlevelUp, @levelUps_eq levelup (s.plus num) hneeds]
  unfold Progress.given Progress.capped
  dsimp only
  split
  · exact ⟨_, rfl⟩
  · exact ⟨_, rfl⟩

/-! ## What is reached -/

@[simp] theorem capped_level : (s.capped levelup).level = s.level := by
  unfold Progress.capped
  split <;> rfl

theorem capped_exp_of_le (hmax : levelup.maxLevel ≤ s.level) : (s.capped levelup).exp = 0 := by
  simp [Progress.capped, hmax]

theorem capped_of_lt (hlevel : s.level < levelup.maxLevel) : s.capped levelup = s := by
  simp [Progress.capped, not_le.mpr hlevel]

theorem level_le_given (num : Int) : s.level ≤ (s.given levelup num).level := by
  simp [Progress.given, Progress.climbed, Progress.plus, le_climb]

theorem given_level_le (hlevel : s.level ≤ levelup.maxLevel) (num : Int) :
    (s.given levelup num).level ≤ levelup.maxLevel := by
  simp [Progress.given, Progress.climbed, Progress.plus, climb_le_last hlevel]

/-- Below the last level the experience is not enough for the next one. -/
theorem given_exp_lt {num : Int} (hlast : (s.given levelup num).level < levelup.maxLevel) :
    (s.given levelup num).exp < levelup.need (s.given levelup num).level := by
  have hreached : ((s.plus num).climbed levelup).level < levelup.maxLevel := by
    simpa [Progress.given] using hlast
  rw [Progress.given, capped_of_lt hreached]
  exact climb_lt_need hreached

theorem given_exp_maxLevel {num : Int}
    (hlast : (s.given levelup num).level = levelup.maxLevel) : (s.given levelup num).exp = 0 := by
  refine capped_exp_of_le ?_
  simpa [Progress.given] using hlast.ge

/-! ## Two amounts -/

theorem plus_plus (a b : Int) : (s.plus a).plus b = s.plus (a + b) := by
  simp [Progress.plus, add_assoc]

/-- Experience that comes after the climb may come before it. -/
theorem climbed_plus {more : Int} (hmore : 0 ≤ more) :
    (s.plus more).climbed levelup = ((s.climbed levelup).plus more).climbed levelup := by
  unfold Progress.climbed Progress.plus
  dsimp only
  rw [climb_add hmore]

theorem climbed_of_le (hmax : levelup.maxLevel ≤ s.level) : s.climbed levelup = s := by
  simp [Progress.climbed, climb_of_lt fun h => absurd h (not_lt.mpr hmax)]

/-- The cap may be reached with the first amount, with the second, or not at all. -/
theorem given_given (a : Int) {b : Int} (hb : 0 ≤ b) :
    (s.given levelup a).given levelup b = s.given levelup (a + b) := by
  unfold Progress.given
  rw [← plus_plus, @climbed_plus levelup (s.plus a) b hb]
  generalize (s.plus a).climbed levelup = reached
  by_cases hmax : levelup.maxLevel ≤ reached.level
  · -- nothing is kept of either amount
    have hfirst : levelup.maxLevel ≤ ((reached.capped levelup).plus b).level := by
      simpa [Progress.plus] using hmax
    have hboth : levelup.maxLevel ≤ (reached.plus b).level := hmax
    rw [climbed_of_le hfirst, climbed_of_le hboth]
    simp [Progress.capped, Progress.plus, hmax]
  · rw [capped_of_lt (not_le.mp hmax)]

/-- For every table that says what the levels need, `alter_exp` ends, the level is
at most the last one, the experience is below the need of the level and nothing is
kept at the last one, and two amounts one after the other do what their sum does. -/
theorem alterExp_additive {a b : Int} (hneeds : levelup.Needs s.level)
    (hlevel : s.level ≤ levelup.maxLevel) (hb : 0 ≤ b) :
    ∃ t u change change' change'', s.alterExp levelup a = (t, some change) ∧
      t.level ≤ levelup.maxLevel ∧
      (t.level < levelup.maxLevel → ∃ need ∈ levelup.levelUpExp t.level, t.exp < need) ∧
      (t.level = levelup.maxLevel → t.exp = 0) ∧
      t.alterExp levelup b = (u, some change') ∧
      s.alterExp levelup (a + b) = (u, some change'') := by
  have hmore : levelup.Needs (s.given levelup a).level := hneeds.mono (level_le_given a)
  obtain ⟨change, hfirst⟩ := alterExp_eq hneeds a
  obtain ⟨change', hsecond⟩ := alterExp_eq hmore b
  obtain ⟨change'', hsum⟩ := alterExp_eq hneeds (a + b)
  rw [given_given a hb] at hsecond
  refine ⟨_, _, change, change', change'', hfirst, given_level_le hlevel a, fun hlast => ?_,
    given_exp_maxLevel, hsecond, hsum⟩
  exact ⟨_, hmore.levelUpExp_eq hlast, given_exp_lt hlast⟩

end

/-! ## Three levels -/

def threeLevels : LevelTable :=
  [("1", some ⟨some 100⟩), ("2", some ⟨some 300⟩), ("3", some ⟨some 500⟩)]

theorem needs_threeLevels : threeLevels.Needs 1 := by
  intro level hle hlt
  have hmax : threeLevels.maxLevel = 3 := by decide
  obtain rfl | rfl : level = 1 ∨ level = 2 := by omega
  · exact ⟨100, by decide, by decide⟩
  · exact ⟨300, by decide, by decide⟩

/-- The first amount reaches the second level, the second one passes the last. -/
theorem alterExp_threeLevels :
    ∃ t u change change' change'',
      Progress.alterExp threeLevels ⟨1, 20⟩ 150 = (t, some change) ∧
      t.level ≤ threeLevels.maxLevel ∧
      (t.level < threeLevels.maxLevel →
        ∃ need ∈ threeLevels.levelUpExp t.level, t.exp < need) ∧
      (t.level = threeLevels.maxLevel → t.exp = 0) ∧
      t.alterExp threeLevels 400 = (u, some change') ∧
      Progress.alterExp threeLevels ⟨1, 20⟩ 550 = (u, some change'') :=
  @alterExp_additive threeLevels ⟨1, 20⟩ 150 400 needs_threeLevels (by decide) (by decide)

end Player
end ArmyRs
