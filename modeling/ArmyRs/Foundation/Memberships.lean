import Mathlib.Tactic

/-!
# Clubs and the tables beside them

A registry keeps its clubs under keys and, beside them, two tables that can be
read off the clubs: which club a person is a member of, and which club a person
owns.  `Consistent` says that the tables agree with the clubs.  There is one
lemma for each operation, with what has to hold before it.

Both tables are indices of a relation between keys and persons (`Indexes`), and
an operation changes the relation at one key or for some persons.
-/

namespace ArmyRs
namespace Foundation

variable {Person Key : Type*}

/-! ## Indices -/

/-- The table answers with the key that a person is related to. -/
def Indexes (table : Person → Option Key) (related : Key → Person → Prop) : Prop :=
  ∀ p k, table p = some k ↔ related k p

section

variable {table : Person → Option Key} {related next : Key → Person → Prop}

theorem Indexes.congr (h : Indexes table related) (hnext : ∀ key q, next key q ↔ related key q) :
    Indexes table next :=
  fun q key => (h q key).trans (hnext key q).symm

variable [DecidableEq Person]

/-- A person that nothing is related to gets a key. -/
theorem Indexes.insert (h : Indexes table related) {p : Person} {k : Key} (hp : table p = none)
    (hnext : ∀ key q, next key q ↔ related key q ∨ key = k ∧ q = p) :
    Indexes (Function.update table p (some k)) next := by
  intro q key
  rw [hnext]
  by_cases hq : q = p
  · subst hq
    rw [Function.update_self, Option.some_inj, ← h q key, hp]
    constructor
    · exact fun heq => .inr ⟨heq.symm, rfl⟩
    · rintro (hnone | ⟨rfl, -⟩)
      · cases hnone
      · rfl
  · rw [Function.update_of_ne hq, h q key]
    constructor
    · exact .inl
    · rintro (hrelated | ⟨-, heq⟩)
      · exact hrelated
      · exact absurd heq hq

/-- Some persons lose their keys. -/
theorem Indexes.erase (h : Indexes table related) (persons : List Person)
    (hnext : ∀ key q, next key q ↔ related key q ∧ q ∉ persons) :
    Indexes (fun q => if q ∈ persons then none else table q) next := by
  intro q key
  rw [hnext]
  dsimp only
  split
  · next hq => exact ⟨fun hnone => (nomatch hnone), fun hboth => absurd hq hboth.2⟩
  · next hq => exact ⟨fun hsome => ⟨(h q key).mp hsome, hq⟩, fun hboth => (h q key).mpr hboth.1⟩

theorem erase_singleton (table : Person → Option Key) (p : Person) :
    (fun q => if q ∈ [p] then none else table q) = Function.update table p none := by
  funext q
  by_cases hq : q = p
  · subst hq
    rw [Function.update_self, if_pos (List.mem_singleton_self q)]
  · rw [Function.update_of_ne hq, if_neg (mt List.mem_singleton.mp hq)]

theorem Indexes.eraseOne (h : Indexes table related) (p : Person)
    (hnext : ∀ key q, next key q ↔ related key q ∧ q ≠ p) :
    Indexes (Function.update table p none) next := by
  have herase : Indexes (fun q => if q ∈ [p] then none else table q) next :=
    h.erase [p] fun key q => by rw [hnext, List.mem_singleton]
  rwa [erase_singleton] at herase

end

/-! ## Registries -/

structure Club (Person : Type*) where
  owner : Person
  members : List Person

structure Registry (Person Key : Type*) where
  clubs : Key → Option (Club Person)
  memberOf : Person → Option Key
  ownerOf : Person → Option Key

namespace Registry

/-- `p` is a member of the club under `k`. -/
def Member (r : Registry Person Key) (k : Key) (p : Person) : Prop :=
  ∃ club, r.clubs k = some club ∧ p ∈ club.members

/-- `p` owns the club under `k`. -/
def Owner (r : Registry Person Key) (k : Key) (p : Person) : Prop :=
  ∃ club, r.clubs k = some club ∧ club.owner = p

/-- The tables and the clubs agree, and the owner of a club is a member. -/
structure Consistent (r : Registry Person Key) : Prop where
  memberOf : Indexes r.memberOf r.Member
  ownerOf : Indexes r.ownerOf r.Owner
  owner_mem : ∀ k club, r.clubs k = some club → club.owner ∈ club.members

section

variable {r : Registry Person Key} {k other : Key} {club : Club Person} {p : Person}

/-- Nobody is in two clubs. -/
theorem Consistent.member_unique (h : r.Consistent) (hk : r.Member k p)
    (hother : r.Member other p) : k = other := by
  have hsame : some k = some other :=
    ((h.memberOf p k).mpr hk).symm.trans ((h.memberOf p other).mpr hother)
  exact Option.some_inj.mp hsame

/-- Nobody owns two clubs. -/
theorem Consistent.owner_unique (h : r.Consistent) (hk : r.Owner k p)
    (hother : r.Owner other p) : k = other := by
  have hsame : some k = some other :=
    ((h.ownerOf p k).mpr hk).symm.trans ((h.ownerOf p other).mpr hother)
  exact Option.some_inj.mp hsame

/-- Who is in no club owns none. -/
theorem Consistent.ownerOf_eq_none (h : r.Consistent) (hp : r.memberOf p = none) :
    r.ownerOf p = none := by
  by_contra hsome
  obtain ⟨key, hkey⟩ := Option.ne_none_iff_exists'.mp hsome
  obtain ⟨club, hclub, rfl⟩ := (h.ownerOf p key).mp hkey
  have hmember : r.memberOf club.owner = some key :=
    (h.memberOf club.owner key).mpr ⟨club, hclub, h.owner_mem key club hclub⟩
  rw [hp] at hmember
  cases hmember

end

/-! ## Operations -/

variable [DecidableEq Person] [DecidableEq Key]

/-- A new club with one member. -/
def found (r : Registry Person Key) (k : Key) (p : Person) : Registry Person Key where
  clubs := Function.update r.clubs k (some ⟨p, [p]⟩)
  memberOf := Function.update r.memberOf p (some k)
  ownerOf := Function.update r.ownerOf p (some k)

/-- A club goes. -/
def dissolve (r : Registry Person Key) (k : Key) (club : Club Person) : Registry Person Key where
  clubs := Function.update r.clubs k none
  memberOf := fun p => if p ∈ club.members then none else r.memberOf p
  ownerOf := Function.update r.ownerOf club.owner none

/-- A person becomes a member. -/
def enrol (r : Registry Person Key) (k : Key) (club : Club Person) (p : Person) :
    Registry Person Key :=
  { r with
    clubs := Function.update r.clubs k (some ⟨club.owner, club.members ++ [p]⟩)
    memberOf := Function.update r.memberOf p (some k) }

/-- A person is no member any more. -/
def expel (r : Registry Person Key) (k : Key) (club : Club Person) (p : Person) :
    Registry Person Key :=
  { r with
    clubs := Function.update r.clubs k
      (some ⟨club.owner, club.members.filter fun other => other ≠ p⟩)
    memberOf := Function.update r.memberOf p none }

variable {r : Registry Person Key} {k : Key} {club : Club Person} {p : Person}

omit [DecidableEq Person] in
/-- What holds of a club after its key was written. -/
theorem exists_update_iff {clubs : Key → Option (Club Person)} {new : Option (Club Person)}
    {key : Key} {good : Club Person → Prop} :
    (∃ club, Function.update clubs k new key = some club ∧ good club) ↔
      (key = k ∧ ∃ club, new = some club ∧ good club) ∨
        key ≠ k ∧ ∃ club, clubs key = some club ∧ good club := by
  by_cases heq : key = k
  · subst heq
    simp only [Function.update_self, true_and, ne_eq, not_true, false_and, or_false]
  · simp only [Function.update_of_ne heq, heq, false_and, false_or, ne_eq, not_false_eq_true,
      true_and]

/-- A club is founded under a new key by a person without club. -/
theorem Consistent.found (h : r.Consistent) (hnew : r.clubs k = none) (hp : r.memberOf p = none) :
    (r.found k p).Consistent := by
  have hother : ∀ (key : Key) (good : Club Person → Prop),
      (key ≠ k ∧ ∃ club, r.clubs key = some club ∧ good club) ↔
        ∃ club, r.clubs key = some club ∧ good club := by
    intro key good
    refine ⟨And.right, fun hclub => ⟨?_, hclub⟩⟩
    rintro rfl
    obtain ⟨club, hclub, -⟩ := hclub
    rw [hnew] at hclub
    cases hclub
  constructor
  · refine h.memberOf.insert hp fun key q => ?_
    unfold Member Registry.found
    rw [exists_update_iff, hother, or_comm]
    simp
  · refine h.ownerOf.insert (h.ownerOf_eq_none hp) fun key q => ?_
    unfold Owner Registry.found
    rw [exists_update_iff, hother, or_comm]
    simp [eq_comm]
  · intro key club hclub
    by_cases hkey : key = k
    · subst hkey
      cases (Function.update_self _ _ _).symm.trans hclub
      exact List.mem_singleton_self p
    · exact h.owner_mem key club ((Function.update_of_ne hkey _ _).symm.trans hclub)

theorem Consistent.dissolve (h : r.Consistent) (hclub : r.clubs k = some club) :
    (r.dissolve k club).Consistent := by
  constructor
  · refine h.memberOf.erase club.members fun key q => ?_
    unfold Member Registry.dissolve
    rw [exists_update_iff]
    constructor
    · rintro (⟨-, other, hnone, -⟩ | ⟨hne, hmember⟩)
      · cases hnone
      · exact ⟨hmember, fun hq => hne (h.member_unique hmember ⟨club, hclub, hq⟩)⟩
    · rintro ⟨⟨other, hother, hq⟩, hnot⟩
      refine .inr ⟨?_, other, hother, hq⟩
      rintro rfl
      rw [hclub] at hother
      cases hother
      exact hnot hq
  · refine h.ownerOf.eraseOne club.owner fun key q => ?_
    unfold Owner Registry.dissolve
    rw [exists_update_iff]
    constructor
    · rintro (⟨-, other, hnone, -⟩ | ⟨hne, howner⟩)
      · cases hnone
      · refine ⟨howner, ?_⟩
        rintro rfl
        exact hne (h.owner_unique howner ⟨club, hclub, rfl⟩)
    · rintro ⟨⟨other, hother, howner⟩, hnot⟩
      refine .inr ⟨?_, other, hother, howner⟩
      rintro rfl
      rw [hclub] at hother
      cases hother
      exact hnot howner.symm
  · intro key other hother
    by_cases hkey : key = k
    · subst hkey
      cases (Function.update_self _ _ _).symm.trans hother
    · exact h.owner_mem key other ((Function.update_of_ne hkey _ _).symm.trans hother)

omit [DecidableEq Person] in
/-- The club keeps its owner. -/
theorem owner_iff_of_update {members : List Person} (hclub : r.clubs k = some club)
    (key : Key) (q : Person) :
    (∃ other, Function.update r.clubs k (some ⟨club.owner, members⟩) key = some other ∧
      other.owner = q) ↔ r.Owner key q := by
  rw [exists_update_iff]
  unfold Owner
  by_cases hkey : key = k
  · subst hkey
    simp [hclub]
  · simp [hkey]

omit [DecidableEq Person] in
theorem owner_mem_of_update (h : r.Consistent) {members : List Person}
    (howner : club.owner ∈ members) (key : Key) (other : Club Person)
    (hother : Function.update r.clubs k (some ⟨club.owner, members⟩) key = some other) :
    other.owner ∈ other.members := by
  by_cases hkey : key = k
  · subst hkey
    cases (Function.update_self _ _ _).symm.trans hother
    exact howner
  · exact h.owner_mem key other ((Function.update_of_ne hkey _ _).symm.trans hother)

/-- Whoever has no club can be enrolled. -/
theorem Consistent.enrol (h : r.Consistent) (hclub : r.clubs k = some club)
    (hp : r.memberOf p = none) : (r.enrol k club p).Consistent := by
  constructor
  · refine h.memberOf.insert hp fun key q => ?_
    unfold Member Registry.enrol
    rw [exists_update_iff]
    by_cases hkey : key = k
    · subst hkey
      simp [hclub]
    · simp [hkey]
  · exact h.ownerOf.congr (owner_iff_of_update hclub)
  · exact owner_mem_of_update h (List.mem_append_left _ (h.owner_mem k club hclub))

/-- Whoever is not the owner can be expelled, and so can who is in no club. -/
theorem Consistent.expel (h : r.Consistent) (hclub : r.clubs k = some club)
    (howner : club.owner ≠ p) (hp : r.memberOf p = none ∨ r.memberOf p = some k) :
    (r.expel k club p).Consistent := by
  constructor
  · refine h.memberOf.eraseOne p fun key q => ?_
    unfold Member Registry.expel
    rw [exists_update_iff]
    by_cases hkey : key = k
    · subst hkey
      simp [hclub]
    · have hnot : ∀ other, r.clubs key = some other → p ∉ other.members := by
        intro other hother hmem
        have hkeyOf := (h.memberOf p key).mpr ⟨other, hother, hmem⟩
        rcases hp with hnone | hsome
        · rw [hnone] at hkeyOf
          cases hkeyOf
        · rw [hsome] at hkeyOf
          exact hkey (Option.some_inj.mp hkeyOf).symm
      simp only [hkey, false_and, false_or, ne_eq, not_false_eq_true, true_and]
      constructor
      · rintro ⟨other, hother, hmem⟩
        refine ⟨⟨other, hother, hmem⟩, ?_⟩
        rintro rfl
        exact hnot other hother hmem
      · exact And.left
  · exact h.ownerOf.congr (owner_iff_of_update hclub)
  · apply owner_mem_of_update h
    exact List.mem_filter.mpr ⟨h.owner_mem k club hclub, decide_eq_true howner⟩

/-- A club that its owner has left first goes like any other. -/
theorem dissolve_expel_owner (r : Registry Person Key) (k : Key) {club : Club Person}
    (hmem : club.owner ∈ club.members) :
    (r.expel k club club.owner).dissolve k
        ⟨club.owner, club.members.filter fun other => other ≠ club.owner⟩ =
      r.dissolve k club := by
  have hclubs : Function.update (Function.update r.clubs k
      (some ⟨club.owner, club.members.filter fun other => other ≠ club.owner⟩)) k none =
        Function.update r.clubs k none := Function.update_idem ..
  have hmembers : (fun p => if p ∈ club.members.filter fun other => other ≠ club.owner then none
      else Function.update r.memberOf club.owner none p) =
        fun p => if p ∈ club.members then none else r.memberOf p := by
    funext p
    by_cases hp : p = club.owner
    · subst hp
      rw [Function.update_self, if_pos hmem]
      split <;> rfl
    · rw [Function.update_of_ne hp]
      simp [hp]
  unfold dissolve expel
  dsimp only
  rw [hclubs, hmembers]

end Registry
end Foundation
end ArmyRs
