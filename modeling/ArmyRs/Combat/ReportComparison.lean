import ArmyRs.Combat.FrameVotes
import ArmyRs.Foundation.Heaps

/-!
# How reports are compared

`compare_stat` and `compare_frameData` go through the keys of the first report,
and go one table deep.  What lies deeper is compared by identity.

A comparison accepts what is structurally the same, and the votes of a ballot are
the sizes of the groups of identical reports, exactly when no report is extended
by another one and no two reports are copies down to tables at the third level
(`groups_iff`).
-/

namespace ArmyRs
namespace Combat
namespace Report

open Foundation

abbrev LuaNode := Node LuaValue

abbrev LuaHeap := Heap LuaValue LuaValue

/-- The statistics of a room: fields of any kind. -/
abbrev Stat := Fields LuaValue LuaValue

/-- The report of a frame: a table for each player.  Another value would be an
error, since its fields are asked for. -/
abbrev FrameData := Table LuaValue Nat

/-- The inner loop of both comparisons. -/
def compareInner (heap : LuaHeap) (v w : Nat) : Bool :=
  (heap v).entries.all fun entry => (heap w).lookup entry.1 = (heap v).lookup entry.1

/-- `compare_stat` -/
def compareStat (heap : LuaHeap) (stat1 stat2 : Stat) : Bool :=
  stat1.entries.all fun entry =>
    match stat2.lookup entry.1 with
    | none => false
    | some other =>
        match entry.2, other with
        | .table v, .table w => compareInner heap v w
        | .table _, .scalar _ => false
        | .scalar v, other => other = .scalar v

/-- `compare_frameData` -/
def compareFrameData (heap : LuaHeap) (stat1 stat2 : FrameData) : Bool :=
  stat1.entries.all fun entry =>
    match stat2.lookup entry.1 with
    | none => false
    | some w => compareInner heap entry.2 w

/-- The fields of statistics. -/
def Stat.fields (stat : Stat) (key : LuaValue) : Option LuaNode :=
  stat.lookup key

/-- The fields of a report of a frame. -/
def FrameData.fields (stat : FrameData) (key : LuaValue) : Option LuaNode :=
  (stat.lookup key).map .table

/-! ## What is compared -/

section

variable (heap : LuaHeap) (a b : LuaValue → Option LuaNode)

/-- The second report has the scalars of the first one, and in its tables the
very values of the first one. -/
structure Within : Prop where
  scalars : ∀ key value, a key = some (.scalar value) → b key = some (.scalar value)
  tables : ∀ key v, a key = some (.table v) → ∃ w, b key = some (.table w) ∧
    ∀ inner node, (heap v).lookup inner = some node → (heap w).lookup inner = some node

/-- The second report has a key that the first one has not, or one of its tables
has. -/
def Longer : Prop :=
  (∃ key, a key = none ∧ b key ≠ none) ∨
    ∃ key v w inner, a key = some (.table v) ∧ b key = some (.table w) ∧
      (heap v).lookup inner = none ∧ (heap w).lookup inner ≠ none

/-- The second report has all that the first one has, and more. -/
def Extended : Prop :=
  Within heap a b ∧ Longer heap a b

/-- The reports are structurally the same, with different tables inside of their
tables. -/
def Copied : Prop :=
  heap.SameFields a b ∧ ∃ key v w inner x y, a key = some (.table v) ∧ b key = some (.table w) ∧
    (heap v).lookup inner = some (.table x) ∧ (heap w).lookup inner = some (.table y) ∧ x ≠ y

end

section

variable {heap : LuaHeap} {a b : LuaValue → Option LuaNode}

theorem within_refl (a : LuaValue → Option LuaNode) : Within heap a a :=
  ⟨fun _ _ h => h, fun _ v h => ⟨v, h, fun _ _ h => h⟩⟩

theorem compareInner_iff {v w : Nat} :
    compareInner heap v w = true ↔
      ∀ inner node, (heap v).lookup inner = some node → (heap w).lookup inner = some node := by
  unfold compareInner
  simp only [List.all_eq_true, decide_eq_true_eq]
  constructor
  · intro h inner node hnode
    rw [h ⟨inner, node⟩ (AList.mem_lookup_iff.mp hnode), hnode]
  · intro h entry hentry
    have hnode : (heap v).lookup entry.1 = some entry.2 := AList.mem_lookup_iff.mpr hentry
    rw [h entry.1 entry.2 hnode, hnode]

theorem compareStat_iff {stat1 stat2 : Stat} :
    compareStat heap stat1 stat2 = true ↔
      Within heap (Stat.fields stat1) (Stat.fields stat2) := by
  unfold compareStat
  rw [List.all_eq_true]
  constructor
  · intro h
    constructor
    · intro key value hvalue
      have hentry := h ⟨key, .scalar value⟩ (AList.mem_lookup_iff.mp hvalue)
      show stat2.lookup key = _
      cases hother : stat2.lookup key with
      | none => simp [hother] at hentry
      | some other => simpa [hother] using hentry
    · intro key v hv
      have hentry := h ⟨key, .table v⟩ (AList.mem_lookup_iff.mp hv)
      cases hother : stat2.lookup key with
      | none => simp [hother] at hentry
      | some other =>
          cases other with
          | scalar value => simp [hother] at hentry
          | table w =>
              simp only [hother] at hentry
              exact ⟨w, hother, compareInner_iff.mp hentry⟩
  · rintro ⟨hscalars, htables⟩ ⟨key, node⟩ hentry
    have hnode : Stat.fields stat1 key = some node := AList.mem_lookup_iff.mpr hentry
    cases node with
    | scalar value =>
        have hother : stat2.lookup key = some (.scalar value) := hscalars key value hnode
        simp [hother]
    | table v =>
        obtain ⟨w, hother, hinner⟩ := htables key v hnode
        have hother : stat2.lookup key = some (.table w) := hother
        simp only [hother]
        exact compareInner_iff.mpr hinner

theorem compareFrameData_iff {stat1 stat2 : FrameData} :
    compareFrameData heap stat1 stat2 = true ↔
      Within heap (FrameData.fields stat1) (FrameData.fields stat2) := by
  unfold compareFrameData
  rw [List.all_eq_true]
  constructor
  · intro h
    constructor
    · intro key value hvalue
      obtain ⟨v, -, hv⟩ := Option.map_eq_some_iff.mp hvalue
      cases hv
    · intro key v hv
      obtain ⟨_, hlookup, htable⟩ := Option.map_eq_some_iff.mp hv
      cases htable
      have hentry := h ⟨key, v⟩ (AList.mem_lookup_iff.mp hlookup)
      cases hother : stat2.lookup key with
      | none => simp [hother] at hentry
      | some w =>
          simp only [hother] at hentry
          exact ⟨w, by simp [FrameData.fields, hother], compareInner_iff.mp hentry⟩
  · rintro ⟨-, htables⟩ ⟨key, v⟩ hentry
    have hlookup : stat1.lookup key = some v := AList.mem_lookup_iff.mpr hentry
    obtain ⟨w, hw, hinner⟩ := htables key v (by simp [FrameData.fields, hlookup])
    obtain ⟨_, hother, htable⟩ := Option.map_eq_some_iff.mp hw
    cases htable
    simp only [hother]
    exact compareInner_iff.mpr hinner

/-- The tables of the report hold what a report without inner tables says. -/
structure Lays (heap : LuaHeap) (stat : FrameData) (detail : Detail) : Prop where
  keys : ∀ q, q ∈ detail ↔ q ∈ stat
  inner : ∀ q v, stat.lookup q = some v →
    ∀ m, (heap v).lookup m = (detail.field q m).map .scalar

/-- On reports without inner tables the comparison is that of the votes. -/
theorem compareFrameData_of_lays {stat1 stat2 : FrameData} {detail1 detail2 : Detail}
    (h1 : Lays heap stat1 detail1) (h2 : Lays heap stat2 detail2) :
    compareFrameData heap stat1 stat2 = Combat.compareFrameData detail1 detail2 := by
  rw [Bool.eq_iff_iff, compareFrameData_iff, Combat.compareFrameData_iff]
  constructor
  · rintro ⟨-, htables⟩ q hq
    obtain ⟨v, hv⟩ := exists_lookup ((h1.keys q).mp hq)
    obtain ⟨w, hw, hinner⟩ := htables q v (by simp [FrameData.fields, hv])
    obtain ⟨_, hother, htable⟩ := Option.map_eq_some_iff.mp hw
    cases htable
    refine ⟨(h2.keys q).mpr (mem_of_lookup hother), ?_⟩
    intro m n hn
    have hthere := hinner m (.scalar n) (by rw [h1.inner q v hv, hn]; rfl)
    rw [h2.inner q w hother, Option.map_eq_some_iff] at hthere
    obtain ⟨_, hfield, hsame⟩ := hthere
    cases hsame
    exact hfield
  · intro h
    constructor
    · intro q value hvalue
      obtain ⟨v, -, hv⟩ := Option.map_eq_some_iff.mp hvalue
      cases hv
    · intro q v hv
      obtain ⟨_, hlookup, htable⟩ := Option.map_eq_some_iff.mp hv
      cases htable
      have hq : q ∈ stat1 := mem_of_lookup hlookup
      obtain ⟨hthere, hfields⟩ := h q ((h1.keys q).mpr hq)
      obtain ⟨w, hw⟩ := exists_lookup ((h2.keys q).mp hthere)
      refine ⟨w, by simp [FrameData.fields, hw], ?_⟩
      intro m node hnode
      rw [h1.inner q v hlookup, Option.map_eq_some_iff] at hnode
      obtain ⟨n, hn, rfl⟩ := hnode
      rw [h2.inner q w hw, hfields m n hn]
      rfl

/-- What has all and no more is the same. -/
theorem sameFields_of_within (hwithin : Within heap a b) (hlonger : ¬ Longer heap a b) :
    heap.SameFields a b := by
  apply Heap.sameFields_of
  · intro key ha
    by_contra hb
    exact hlonger (.inl ⟨key, ha, hb⟩)
  · intro key node ha
    cases node with
    | scalar value => exact ⟨_, hwithin.scalars key value ha, Heap.Same.refl _⟩
    | table v =>
        obtain ⟨w, hb, hinner⟩ := hwithin.tables key v ha
        refine ⟨_, hb, Heap.same_table.mpr (Heap.sameFields_of ?_ ?_)⟩
        · intro inner hnone
          by_contra hthere
          exact hlonger (.inr ⟨key, v, w, inner, ha, hb, hnone, hthere⟩)
        · exact fun inner node hnode => ⟨node, hinner inner node hnode, Heap.Same.refl node⟩

/-- What is longer is not the same. -/
theorem not_sameFields_of_longer (hlonger : Longer heap a b) : ¬ heap.SameFields a b := by
  intro hsame
  rcases hlonger with ⟨key, ha, hb⟩ | ⟨key, v, w, inner, ha, hb, hnone, hthere⟩
  · exact hb (hsame.of_none ha)
  · obtain ⟨other, hother, htable⟩ := hsame.of_some ha
    rw [hb, Option.some_inj] at hother
    subst hother
    exact hthere ((Heap.same_table.mp htable).of_none hnone)

/-- What is the same has all, when the inner tables are the same objects. -/
theorem within_of_sameFields (hsame : heap.SameFields a b) (hcopied : ¬ Copied heap a b) :
    Within heap a b := by
  constructor
  · intro key value ha
    obtain ⟨other, hb, hother⟩ := hsame.of_some ha
    cases other with
    | scalar value' => rw [hb, Heap.same_scalar.mp hother]
    | table w => exact absurd hother Heap.not_same_scalar_table
  · intro key v ha
    obtain ⟨other, hb, hother⟩ := hsame.of_some ha
    cases other with
    | scalar value => exact absurd hother Heap.not_same_table_scalar
    | table w =>
        refine ⟨w, hb, ?_⟩
        intro inner node hnode
        obtain ⟨there, hthere, hinner⟩ := (Heap.same_table.mp hother).of_some hnode
        rw [hthere]
        cases node with
        | scalar value =>
            cases there with
            | scalar value' => rw [Heap.same_scalar.mp hinner]
            | table y => exact absurd hinner Heap.not_same_scalar_table
        | table x =>
            cases there with
            | scalar value => exact absurd hinner Heap.not_same_table_scalar
            | table y =>
                by_contra hne
                refine hcopied ⟨hsame, key, v, w, inner, x, y, ha, hb, hnode, hthere, ?_⟩
                rintro rfl
                exact hne rfl

/-- Copies are not within each other. -/
theorem not_within_of_copied (hcopied : Copied heap a b) : ¬ Within heap a b := by
  rintro ⟨-, htables⟩
  obtain ⟨-, key, v, w, inner, x, y, ha, hb, hx, hy, hne⟩ := hcopied
  obtain ⟨w', hw', hinner⟩ := htables key v ha
  rw [hb, Option.some_inj, Node.table.injEq] at hw'
  subst hw'
  have hsame := hinner inner _ hx
  rw [hy, Option.some_inj, Node.table.injEq] at hsame
  exact hne hsame.symm

/-- Being within is being the same, but for extensions and copies. -/
theorem within_iff_same :
    (Within heap a b ↔ heap.SameFields a b) ↔ ¬ Extended heap a b ∧ ¬ Copied heap a b := by
  constructor
  · intro h
    constructor
    · rintro ⟨hwithin, hlonger⟩
      exact not_sameFields_of_longer hlonger (h.mp hwithin)
    · intro hcopied
      exact not_within_of_copied hcopied (h.mpr hcopied.1)
  · rintro ⟨hextended, hcopied⟩
    constructor
    · exact fun hwithin => sameFields_of_within hwithin fun hlonger => hextended ⟨hwithin, hlonger⟩
    · exact fun hsame => within_of_sameFields hsame hcopied

end

/-! ## The votes -/

/-- On the reports of a ballot the comparison accepts exactly what is the same and
is an equivalence, and everyone has as many votes as there are reports that are
the same as their own. -/
structure Groups {V : Type*} (compare : V → V → Bool) (same : V → V → Prop)
    [DecidableRel same] (ballots : Table Pid V) : Prop where
  exact : ∀ p q a b, ballots.lookup p = some a → ballots.lookup q = some b →
    (compare a b = true ↔ same a b)
  refl : ∀ p a, ballots.lookup p = some a → compare a a = true
  symm : ∀ p q a b, ballots.lookup p = some a → ballots.lookup q = some b →
    compare a b = true → compare b a = true
  trans : ∀ p q r a b c, ballots.lookup p = some a → ballots.lookup q = some b →
    ballots.lookup r = some c → compare a b = true → compare b c = true → compare a c = true
  votes : ∀ p a, ballots.lookup p = some a →
    votes compare ballots p a = ballots.entries.countP fun other => same a other.2

section

variable {V : Type*} {compare : V → V → Bool} {same : V → V → Prop} [DecidableRel same]
  {ballots : Table Pid V}

/-- Exactness is all that has to be shown. -/
theorem groups_of_exact (hrefl : ∀ v, compare v v = true) (hsame : Equivalence same)
    (hexact : ∀ p q a b, ballots.lookup p = some a → ballots.lookup q = some b →
      (compare a b = true ↔ same a b)) : Groups compare same ballots where
  exact := hexact
  refl := fun _ a _ => hrefl a
  symm := by
    intro p q a b ha hb hab
    exact (hexact q p b a hb ha).mpr (hsame.symm ((hexact p q a b ha hb).mp hab))
  trans := by
    intro p q r a b c ha hb hc hab hbc
    exact (hexact p r a c ha hc).mpr
      (hsame.trans ((hexact p q a b ha hb).mp hab) ((hexact q r b c hb hc).mp hbc))
  votes := by
    intro p a ha
    rw [votes_eq_countP hrefl ha]
    refine List.countP_congr fun other hother => ?_
    rw [decide_eq_true_eq]
    exact hexact p other.1 a other.2 ha (AList.mem_lookup_iff.mpr hother)

end

/-- No report of a ballot is extended by another one or copied. -/
def Distinguished {V : Type*} (heap : LuaHeap) (fields : V → LuaValue → Option LuaNode)
    (ballots : Table Pid V) : Prop :=
  ∀ p q a b, ballots.lookup p = some a → ballots.lookup q = some b →
    ¬ Extended heap (fields a) (fields b) ∧ ¬ Copied heap (fields a) (fields b)

open Classical in
/-- The reports are structurally the same. -/
noncomputable instance decidableSame {V : Type*} (heap : LuaHeap)
    (fields : V → LuaValue → Option LuaNode) :
    DecidableRel fun a b => heap.SameFields (fields a) (fields b) :=
  fun _ _ => inferInstance

theorem groups_compare_iff {V : Type*} {heap : LuaHeap} {fields : V → LuaValue → Option LuaNode}
    {compare : V → V → Bool}
    (hcompare : ∀ a b, compare a b = true ↔ Within heap (fields a) (fields b))
    (ballots : Table Pid V) :
    Groups compare (fun a b => heap.SameFields (fields a) (fields b)) ballots ↔
      Distinguished heap fields ballots := by
  constructor
  · intro h p q a b ha hb
    rw [← within_iff_same, ← hcompare]
    exact h.exact p q a b ha hb
  · intro h
    apply groups_of_exact
    · exact fun v => (hcompare v v).mpr (within_refl _)
    · exact ⟨fun _ => Heap.SameFields.refl _, Heap.SameFields.symm, Heap.SameFields.trans⟩
    · intro p q a b ha hb
      rw [hcompare]
      exact within_iff_same.mpr (h p q a b ha hb)

/-- Both comparisons find the groups of identical reports exactly on the ballots
without extensions and copies. -/
theorem groups_iff (heap : LuaHeap) :
    (∀ stalst : Table Pid Stat,
      Groups (compareStat heap) (fun a b => heap.SameFields (Stat.fields a) (Stat.fields b))
          stalst ↔
        Distinguished heap Stat.fields stalst) ∧
    ∀ framedata : Table Pid FrameData,
      Groups (compareFrameData heap)
          (fun a b => heap.SameFields (FrameData.fields a) (FrameData.fields b)) framedata ↔
        Distinguished heap FrameData.fields framedata :=
  ⟨groups_compare_iff fun _ _ => compareStat_iff,
    groups_compare_iff fun _ _ => compareFrameData_iff⟩

/-! ## An extended report -/

def shorterStat : Stat :=
  AList.insert (LuaValue.string "winner") (Node.scalar (LuaValue.number 1)) ∅

/-- One field more. -/
def longerStat : Stat :=
  AList.insert (LuaValue.string "duration") (Node.scalar (LuaValue.number 90)) shorterStat

def twoStats : Table Pid Stat :=
  ((∅ : Table Pid Stat).insert (LuaValue.number 1) shorterStat).insert (LuaValue.number 2)
    longerStat

/-- The first statistics agree with the second ones, which are not the same. -/
theorem not_groups_longerStat :
    ¬ ∀ (heap : LuaHeap) (stalst : Table Pid Stat), Groups (compareStat heap)
      (fun a b => heap.SameFields (Stat.fields a) (Stat.fields b)) stalst := by
  intro h
  have hgroups := h (fun _ => ∅) twoStats
  have hcompare : compareStat (fun _ => ∅) shorterStat longerStat = true := by decide +kernel
  have hfirst : twoStats.lookup (.number 1) = some shorterStat := by
    unfold twoStats
    rw [AList.lookup_insert_ne (by decide), AList.lookup_insert]
  have hsecond : twoStats.lookup (.number 2) = some longerStat := by
    unfold twoStats
    rw [AList.lookup_insert]
  have hsame := (hgroups.exact (.number 1) (.number 2) shorterStat longerStat hfirst hsecond).mp
    hcompare
  have hnone : shorterStat.fields (.string "duration") = none := by decide +kernel
  have hsome : longerStat.fields (.string "duration") = some (.scalar (.number 90)) := by
    decide +kernel
  have hgone := hsame.of_none hnone
  rw [hsome] at hgone
  cases hgone

end Report
end Combat
end ArmyRs
