import ArmyRs.Foundation.Decimals
import ArmyRs.Foundation.SortedSets
import ArmyRs.Foundation.Transition

/-!
# The queue before the login

The queue of a zone is a sorted set with the seconds at which the players joined as
scores.  `enqueue_jump` looks up the player who holds the place to jump to and takes
his score less 0.1, so that it comes out at that place only if nobody else has a
score in between.

Players who joined in the same second, and players who jumped to places close by, do
have such scores.  `Careful` says when no one has, and `run_intended_iff` that this
is exactly when a jump ends at the place it was meant for.  The others never change
their order.
-/

namespace ArmyRs
namespace Sessions

open Foundation

/-! ## Scores

A score is a double.  It is given as a number of units of 2⁻⁵⁶, in which the double
that is nearest to 0.1 is whole, and hence every score that comes up. -/

/-- The nearest double. -/
def roundScore (n : ℤ) : ℤ :=
  if n < 0 then -(roundDouble n.natAbs : ℤ) else roundDouble n.natAbs

/-- A time stamp as a score. -/
def ofSeconds (now : ℤ) : ℤ :=
  roundScore (now * 2 ^ 56)

/-- The double nearest to 0.1. -/
def tenth : ℤ := 7205759403792794

/-- `range[2] - 0.1`. -/
def lowered (s : ℤ) : ℤ :=
  roundScore (s - tenth)

/-! ## The queue -/

/-- The queue of one zone; the members are the ids of the players. -/
abbrev QueuingDb := SortedSet ℤ (List Char)

namespace QueuingDb

/-- `enqueue`. -/
def enqueue (q : QueuingDb) (playerId : List Char) (now : ℤ) : QueuingDb :=
  q.zadd (ofSeconds now) playerId

/-- The place that a jump is meant for. -/
def place (q : QueuingDb) (forward : ℤ) : Nat :=
  ((q.zcard : ℤ) - forward).toNat

/-- The script `ENQUEUE_JUMP`. -/
def luaEnqueueJump (q : QueuingDb) (playerId : List Char) (forward now : ℤ) : QueuingDb :=
  match q.zrange (q.place forward) (q.place forward) with
  | entry :: _ => q.zadd (lowered (score entry)) playerId
  | [] => q.zadd (ofSeconds now) playerId

/-- `enqueue_jump`. -/
def enqueueJump (q : QueuingDb) (playerId : List Char) (forward now : ℤ) :
    Except String QueuingDb :=
  if forward ≤ 0 then .error ("QueuingDb: enqueue_jump with forward=" ++ toString forward)
  else .ok (q.luaEnqueueJump playerId forward now)

/-- `dequeue`, with the players it answers with. -/
def dequeue (q : QueuingDb) (count : ℤ) : Except String (List (List Char) × QueuingDb) :=
  if count < 1 then .error ("QueuingDb: dequeue with count=" ++ toString count ++ "!")
  else
    let playerIds := (q.zrange 0 (count - 1).toNat).map member
    .ok (playerIds, q.zrem playerIds)

end QueuingDb

inductive QueuingEvent
  | enqueue (playerId : List Char) (now : ℤ)
  | enqueueJump (playerId : List Char) (forward now : ℤ)
  | dequeue (count : ℤ)
  deriving DecidableEq, Repr

namespace QueuingDb

/-- A call that raises leaves the queue as it is. -/
def step (q : QueuingDb) : QueuingEvent → Option QueuingDb
  | .enqueue playerId now => some (q.enqueue playerId now)
  | .enqueueJump playerId forward now =>
      match q.enqueueJump playerId forward now with
      | .ok next => some next
      | .error _ => some q
  | .dequeue count =>
      match q.dequeue count with
      | .ok (_, next) => some next
      | .error _ => some q

/-! ## Jumps -/

/-- A jump of a new player takes him as many places from the end as it should, at
most to the front, and the others keep their order. -/
def Intended (q : QueuingDb) : QueuingEvent → Prop
  | .enqueueJump playerId forward now =>
      0 < forward → playerId ∉ q.members →
        ∀ next, step q (.enqueueJump playerId forward now) = some next →
          next.zrank playerId = some (q.place forward) ∧
            next.others playerId = q.members
  | _ => True

/-- The lowered score and the id come before the player at the place, and after the
one ahead of him. -/
def Careful (q : QueuingDb) : QueuingEvent → Prop
  | .enqueueJump playerId forward _ =>
      0 < forward → playerId ∉ q.members →
        ∀ entry, q.entries[q.place forward]? = some entry →
          toLex (lowered (score entry), playerId) < entry ∧
            ∀ i ahead, i + 1 = q.place forward → q.entries[i]? = some ahead →
              ahead < toLex (lowered (score entry), playerId)
  | _ => True

section

variable {q next : QueuingDb} {playerId : List Char} {forward now : ℤ} {event : QueuingEvent}
  {events : List QueuingEvent}

theorem place_lt (hforward : 0 < forward) (hq : q.entries ≠ []) :
    q.place forward < q.entries.length := by
  have hlength : 0 < q.entries.length := List.length_pos_of_ne_nil hq
  unfold place SortedSet.zcard
  omega

theorem zrange_self (q : QueuingDb) (pos : Nat) : q.zrange pos pos = q.entries[pos]?.toList := by
  have hone : pos + 1 - pos = 1 := by omega
  unfold SortedSet.zrange
  rw [hone, List.take_one, List.head?_drop]

/-- The script takes the score of the player at the place, if the queue is not empty. -/
theorem luaEnqueueJump_of_get {entry : ℤ ×ₗ List Char}
    (hentry : q.entries[q.place forward]? = some entry) :
    q.luaEnqueueJump playerId forward now = q.zadd (lowered (score entry)) playerId := by
  unfold luaEnqueueJump
  rw [zrange_self, hentry]
  rfl

theorem step_enqueueJump (hforward : 0 < forward) :
    step q (.enqueueJump playerId forward now) =
      some (q.luaEnqueueJump playerId forward now) := by
  have hnot : ¬ forward ≤ 0 := not_le.mpr hforward
  simp [step, enqueueJump, hnot]

/-- The others keep their order, wherever the new player comes. -/
theorem others_zadd_of_not_mem (hid : playerId ∉ q.members) (s : ℤ) :
    (q.zadd s playerId).others playerId = q.members := by
  rw [SortedSet.others_zadd, SortedSet.others_of_not_mem hid]

theorem zrank_zadd_of_not_mem (hid : playerId ∉ q.members) (s : ℤ) :
    (q.zadd s playerId).zrank playerId =
      some (q.entries.filter (· < toLex (s, playerId))).length := by
  have hsame : q.zrem [playerId] = q := SortedSet.zrem_of_not_mem (by simpa using hid)
  rw [SortedSet.zrank_zadd, SortedSet.below, hsame]

/-- A jump ends at its place exactly when the lowered score fits in there. -/
theorem intended_iff_careful (q : QueuingDb) (event : QueuingEvent) :
    Intended q event ↔ Careful q event := by
  cases event with
  | enqueue playerId now => exact Iff.rfl
  | dequeue count => exact Iff.rfl
  | enqueueJump playerId forward now =>
      refine forall_congr' fun hforward => forall_congr' fun hid => ?_
      rw [step_enqueueJump hforward]
      simp only [Option.some.injEq, forall_eq']
      have hmembers : ∀ s, (toLex (s, playerId) : ℤ ×ₗ List Char) ∉ q.entries := by
        intro s hmem
        exact hid (SortedSet.mem_members.mpr ⟨s, hmem⟩)
      by_cases hempty : q.entries = []
      · -- nobody is in the queue
        have hplace : q.place forward = 0 := by
          unfold place SortedSet.zcard
          rw [hempty, List.length_nil]
          omega
        have hnone : q.entries[q.place forward]? = none := by simp [hempty]
        have hjump : q.luaEnqueueJump playerId forward now = q.zadd (ofSeconds now) playerId := by
          unfold luaEnqueueJump
          rw [zrange_self, hnone]
          rfl
        refine iff_of_true ⟨?_, ?_⟩ ?_
        · rw [hjump, zrank_zadd_of_not_mem hid, hempty, hplace]
          rfl
        · rw [hjump]
          exact others_zadd_of_not_mem hid _
        · intro entry hentry
          rw [hnone] at hentry
          cases hentry
      · have hlt := place_lt hforward hempty
        have hentry := List.getElem?_eq_getElem hlt
        generalize q.entries[q.place forward] = entry at hentry
        rw [luaEnqueueJump_of_get hentry, zrank_zadd_of_not_mem hid, Option.some.injEq,
          length_filter_lt_eq_iff q.sorted (hmembers _) hlt.le, hentry]
        simp only [Option.some.injEq, forall_eq', others_zadd_of_not_mem hid, and_true]
        exact and_comm

/-- Over any history of the queue: every jump of a new player ends at the place it is
meant for, exactly when every lowered score fits in there. -/
theorem run_intended_iff :
    Run step Intended .empty events q ↔ Run step Careful .empty events q :=
  ⟨Run.mono fun q event => (intended_iff_careful q event).mp,
    Run.mono fun q event => (intended_iff_careful q event).mpr⟩

end

/-! ## Examples -/

/-- Two players join in the same second. -/
def sameSecond : List QueuingEvent :=
  [.enqueue ['1'] 1551600000, .enqueue ['2'] 1551600000]

/-- A third player who jumps over one of them comes out at the front. -/
theorem not_intended_sameSecond :
    ¬ ∀ (events : List QueuingEvent) (q : QueuingDb), Run step free .empty events q →
      ∀ playerId forward now, Intended q (.enqueueJump playerId forward now) := by
  intro hall
  have hintended := hall sameSecond _ (run_exec_getD .empty (by decide)) ['3'] 1 1551600007
    (by decide) (by decide) _ rfl
  revert hintended
  decide +kernel

end QueuingDb
end Sessions
end ArmyRs
