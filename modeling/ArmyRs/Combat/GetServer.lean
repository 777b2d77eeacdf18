import ArmyRs.Combat.CombatServers
import ArmyRs.Foundation.Decimals
import ArmyRs.Foundation.Tables

/-!
# The script that finds a combat server

`GET_SERVER` looks at the signs of life, and then for the least load among the
servers that are usable.  The loads are compared as the strings that Redis holds,
and the new load is a double that is written back.

The script chooses a server with the least load, and counts the combat there,
when the numeral of the least load comes first among the numerals and has a
successor among the doubles (`chooses_iff`).
-/

namespace ArmyRs
namespace Combat

open Foundation

/-- The hashes of the combat servers.  A status is what `tonumber` makes of it,
if it is a whole number. -/
structure CombatServerDb where
  count : Table Srv String
  status : Table Srv (Option Int)
  tick : Table Srv Int

/-- `STATUS_DISABLE` -/
def statusDisable : Int := 0

/-- `STATUS_ENABLE` -/
def statusEnable : Int := 1

namespace CombatServerDb

/-- The status that the sign of life of a server gives it. -/
def tickStatus (now timeout tick : Int) : Int :=
  if now - tick > timeout then statusDisable else statusEnable

/-- The loop that checks which servers are usable. -/
def checkUsable (db : CombatServerDb) (now timeout : Int) : CombatServerDb :=
  { db with
    status := db.tick.entries.foldl (fun status entry =>
      status.insert entry.1 (some (tickStatus now timeout entry.2))) db.status }

/-- `srvs[srv] == STATUS_ENABLE` -/
def usable (db : CombatServerDb) (srv : Srv) : Bool :=
  decide ((db.status.lookup srv).join = some statusEnable)

/-- One round of the loop over the counts; `found` holds `srv` and `min`. -/
def lessCount (usable : Srv → Bool) (found : Option (Srv × String)) (entry : Srv × String) :
    Option (Srv × String) :=
  if usable entry.1 then
    match found with
    | none => some entry
    | some (srv, min) => if entry.2 < min then some entry else some (srv, min)
  else found

/-- The load that is written back: `min + 1`, for a string of digits. -/
def increased (min : String) : String :=
  format17g (succDouble (ofNumeral min))

/-- `GET_SERVER`.  The entries of a hash come in the order in which the table has
them. -/
def getServer (db : CombatServerDb) (now timeout : Int) : Option Srv × CombatServerDb :=
  let db := db.checkUsable now timeout
  let counts := db.count.entries.map fun entry => (entry.1, entry.2)
  match counts.foldl (lessCount db.usable) none with
  | none => (none, db)
  | some (srv, min) => (some srv, { db with count := db.count.insert srv (increased min) })

/-! ## What is asked for -/

/-- The server is enabled after its sign of life has been checked. -/
def Enabled (db : CombatServerDb) (now timeout : Int) (srv : Srv) : Prop :=
  (∀ tick ∈ db.tick.lookup srv, now - tick ≤ timeout) ∧
    (db.tick.lookup srv = none → db.status.lookup srv = some (some statusEnable))

instance decidableEnabled (db : CombatServerDb) (now timeout : Int) (srv : Srv) :
    Decidable (db.Enabled now timeout srv) :=
  inferInstanceAs (Decidable (_ ∧ _))

/-- The counts are numerals of loads. -/
def Loads (db : CombatServerDb) (load : Srv → Option Nat) : Prop :=
  ∀ srv, db.count.lookup srv = (load srv).map toString

/-- The server has this load and is enabled. -/
def Candidate (db : CombatServerDb) (now timeout : Int) (load : Srv → Option Nat) (srv : Srv)
    (n : Nat) : Prop :=
  load srv = some n ∧ db.Enabled now timeout srv

/-- No candidate has less. -/
def Least (db : CombatServerDb) (now timeout : Int) (load : Srv → Option Nat) (n : Nat) : Prop :=
  ∀ other m, db.Candidate now timeout load other m → n ≤ m

/-- A server with the least load is chosen, if there is a candidate, and the
combat is counted there and nowhere else. -/
structure Chooses (db : CombatServerDb) (now timeout : Int) (load : Srv → Option Nat)
    (answer : Option Srv) (after : CombatServerDb) : Prop where
  least : ∀ srv ∈ answer, ∃ n, db.Candidate now timeout load srv n ∧ db.Least now timeout load n
  none_iff : answer = none ↔ ∀ srv n, ¬ db.Candidate now timeout load srv n
  counts : after.Loads fun srv => (load srv).map fun n => if answer = some srv then n + 1 else n

/-- The numeral of the least load comes first, and the successor of this load is
written as its numeral.  A longer numeral comes before a shorter one when its
leading digits, as many as the shorter one has, are those of a smaller number. -/
def LeastFirst (db : CombatServerDb) (now timeout : Int) (load : Srv → Option Nat) : Prop :=
  ∀ srv n, db.Candidate now timeout load srv n → db.Least now timeout load n →
    (∀ other m, db.Candidate now timeout load other m → n ≤ m / 10 ^ (width m - width n)) ∧
      succDouble n = some (n + 1) ∧ n + 1 < 10 ^ 17

section

variable {db : CombatServerDb} {now timeout : Int} {load : Srv → Option Nat} {srv : Srv} {n : Nat}

theorem usable_checkUsable :
    (db.checkUsable now timeout).usable srv = true ↔ db.Enabled now timeout srv := by
  unfold usable checkUsable Enabled
  rw [decide_eq_true_iff]
  dsimp only
  rw [Foundation.lookup_foldl_insert db.tick.nodupKeys
    fun tick => some (tickStatus now timeout tick)]
  show (Option.or (Option.map _ (db.tick.lookup srv)) (db.status.lookup srv)).join = _ ↔ _
  cases htick : db.tick.lookup srv with
  | none => simp [Option.join_eq_some_iff]
  | some tick =>
      have hne : statusDisable ≠ statusEnable := by decide
      by_cases hlate : now - tick > timeout
      · simp [tickStatus, hlate, hne]
        omega
      · simp [tickStatus, hlate]
        omega

/-! ## The loop over the counts -/

/-- The loop finds the first of the usable numerals in the order of strings. -/
theorem foldl_lessCount (usable : Srv → Bool) (entries : List (Srv × String))
    (found : Option (Srv × String)) :
    match entries.foldl (lessCount usable) found with
    | none => found = none ∧ ∀ entry ∈ entries, usable entry.1 = false
    | some least => (least ∈ entries ∧ usable least.1 = true ∨ found = some least) ∧
        (∀ entry ∈ entries, usable entry.1 = true → least.2 ≤ entry.2) ∧
        ∀ entry ∈ found, least.2 ≤ entry.2 := by
  induction entries generalizing found with
  | nil =>
      cases found with
      | none => simp
      | some least => simp
  | cons entry entries ih =>
      rw [List.foldl_cons]
      have hround : (lessCount usable found entry = found ∧
          (usable entry.1 = true → ∃ least, found = some least ∧ least.2 ≤ entry.2)) ∨
          lessCount usable found entry = some entry ∧ usable entry.1 = true ∧
            ∀ least ∈ found, entry.2 ≤ least.2 := by
        unfold lessCount
        by_cases husable : usable entry.1 = true
        · rw [if_pos husable]
          cases found with
          | none => simp [husable]
          | some least =>
              dsimp only
              split
              · next hlt => simp [husable, hlt.le]
              · next hnot => simp [not_lt.mp hnot]
        · simp [husable]
      have hrest := ih (lessCount usable found entry)
      revert hrest
      rcases hround with ⟨hsame, hkept⟩ | ⟨hnew, husable, hle⟩
      · rw [hsame]
        split
        · rintro ⟨rfl, hnone⟩
          refine ⟨rfl, ?_⟩
          intro other hother
          rcases List.mem_cons.mp hother with rfl | hother
          · by_contra husable
            obtain ⟨least, hleast, -⟩ := hkept (Bool.not_eq_false _ ▸ husable)
            cases hleast
          · exact hnone other hother
        · next least hleast =>
          rintro ⟨hmem, hentries, hfound⟩
          refine ⟨?_, ?_, hfound⟩
          · exact hmem.imp (fun h => ⟨List.mem_cons_of_mem _ h.1, h.2⟩) id
          · intro other hother husable
            rcases List.mem_cons.mp hother with rfl | hother
            · obtain ⟨before, hbefore, hle⟩ := hkept husable
              exact (hfound before hbefore).trans hle
            · exact hentries other hother husable
      · rw [hnew]
        split
        · rintro ⟨hnone, -⟩
          cases hnone
        · next least hleast =>
          rintro ⟨hmem, hentries, hfound⟩
          refine ⟨.inl ?_, ?_, ?_⟩
          · rcases hmem with ⟨hmem, hleastUsable⟩ | heq
            · exact ⟨List.mem_cons_of_mem _ hmem, hleastUsable⟩
            · cases heq
              exact ⟨List.mem_cons_self, husable⟩
          · intro other hother hotherUsable
            rcases List.mem_cons.mp hother with rfl | hother
            · exact hfound other rfl
            · exact hentries other hother hotherUsable
          · intro other hother
            exact (hfound entry rfl).trans (hle other hother)

theorem mem_counts {s : String} :
    (srv, s) ∈ db.count.entries.map (fun entry => (entry.1, entry.2)) ↔
      db.count.lookup srv = some s := by
  rw [show db.count.lookup srv = db.count.entries.dlookup srv from rfl, ← Option.mem_def,
    List.mem_dlookup_iff db.count.nodupKeys]
  simp

theorem candidate_of_count (hload : db.Loads load) {s : String}
    (hcount : db.count.lookup srv = some s) (husable : (db.checkUsable now timeout).usable srv) :
    ∃ n, s = toString n ∧ db.Candidate now timeout load srv n := by
  rw [hload, Option.map_eq_some_iff] at hcount
  obtain ⟨n, hn, rfl⟩ := hcount
  exact ⟨n, rfl, hn, usable_checkUsable.mp husable⟩

/-- The script finds nothing, or a candidate whose numeral comes first. -/
theorem getServer_cases (hload : db.Loads load) :
    ((db.getServer now timeout).1 = none ∧ (db.getServer now timeout).2.count = db.count ∧
      ∀ srv n, ¬ db.Candidate now timeout load srv n) ∨
    ∃ srv n, db.Candidate now timeout load srv n ∧ (db.getServer now timeout).1 = some srv ∧
      (db.getServer now timeout).2.count = db.count.insert srv (format17g (succDouble n)) ∧
      ∀ other m, db.Candidate now timeout load other m → toString n ≤ toString m := by
  have hscan := foldl_lessCount (db.checkUsable now timeout).usable
    (db.count.entries.map fun entry => (entry.1, entry.2)) none
  have hentry : ∀ other m, db.Candidate now timeout load other m →
      (other, toString m) ∈ db.count.entries.map (fun entry => (entry.1, entry.2)) ∧
        (db.checkUsable now timeout).usable other = true := by
    rintro other m ⟨hm, henabled⟩
    refine ⟨mem_counts.mpr ?_, usable_checkUsable.mpr henabled⟩
    rw [hload, hm, Option.map_some]
  unfold getServer
  dsimp only
  rw [show (db.checkUsable now timeout).count = db.count from rfl]
  generalize (db.count.entries.map fun entry => (entry.1, entry.2)).foldl
    (lessCount (db.checkUsable now timeout).usable) none = found at hscan ⊢
  cases found with
  | none =>
      refine .inl ⟨rfl, rfl, ?_⟩
      intro other m hcandidate
      obtain ⟨hmem, husable⟩ := hentry other m hcandidate
      rw [hscan.2 _ hmem] at husable
      cases husable
  | some found =>
      obtain ⟨srv, min⟩ := found
      obtain ⟨hmem, hfirst, -⟩ := hscan
      obtain ⟨hmem, husable⟩ := hmem.resolve_right (nomatch ·)
      obtain ⟨n, hmin, hcandidate⟩ := candidate_of_count hload (mem_counts.mp hmem) husable
      cases hmin
      refine .inr ⟨srv, n, hcandidate, rfl, ?_, ?_⟩
      · show db.count.insert srv (increased (toString n)) = _
        unfold increased
        rw [ofNumeral_toString]
      · intro other m hother
        obtain ⟨hotherMem, hotherUsable⟩ := hentry other m hother
        exact hfirst (other, toString m) hotherMem hotherUsable

/-- Where there is a candidate, there is one with the least load. -/
theorem exists_least (h : db.Candidate now timeout load srv n) :
    ∃ least k, db.Candidate now timeout load least k ∧ db.Least now timeout load k := by
  classical
  have hex : ∃ k least, db.Candidate now timeout load least k := ⟨n, srv, h⟩
  obtain ⟨least, hleast⟩ := Nat.find_spec hex
  exact ⟨least, Nat.find hex, hleast, fun other m hother => Nat.find_min' hex ⟨other, hother⟩⟩

/-- The script chooses right exactly when the least load comes first and has a
successor. -/
theorem chooses_iff (hload : db.Loads load) :
    db.Chooses now timeout load (db.getServer now timeout).1 (db.getServer now timeout).2 ↔
      db.LeastFirst now timeout load := by
  rcases @getServer_cases db now timeout load hload with
    ⟨hanswer, hcount, hnone⟩ | ⟨chosen, k, hchosen, hanswer, hcount, hfirst⟩
  · constructor
    · intro _ srv n hcandidate
      exact absurd hcandidate (hnone srv n)
    · intro _
      rw [hanswer]
      refine ⟨fun srv hsrv => (nomatch hsrv), ⟨fun _ => hnone, fun _ => rfl⟩, ?_⟩
      intro srv
      rw [hcount, hload]
      simp only [reduceCtorEq, if_false, Option.map_id']
  · have hafter : (db.getServer now timeout).2.count.lookup chosen =
        some (format17g (succDouble k)) := by
      rw [hcount, AList.lookup_insert]
    rw [hanswer]
    constructor
    · intro h srv n hcandidate hleast
      -- the load of the chosen server is the least one
      obtain ⟨n', hn', hleast'⟩ := h.least chosen rfl
      have hchosenLoad : n' = k := Option.some_inj.mp (hn'.1.symm.trans hchosen.1)
      have hsame : n = k := by
        rw [← hchosenLoad]
        exact le_antisymm (hleast chosen n' hn') (hleast' srv n hcandidate)
      subst hsame
      refine ⟨?_, ?_⟩
      · intro other m hother
        by_contra hlt
        exact (hfirst other m hother).not_gt
          ((toString_lt_iff (hleast other m hother)).mpr (Nat.lt_of_not_le hlt))
      · have hcounts := h.counts chosen
        simp only [hafter, hchosen.1, Option.map_some, if_pos, Option.some_inj] at hcounts
        exact format17g_eq_iff.mp hcounts
    · intro h
      obtain ⟨least, n, hcandidate, hleast⟩ := exists_least hchosen
      obtain ⟨hleading, hsucc, hbound⟩ := h least n hcandidate hleast
      -- the numeral of the least load is the first one
      have hsame : n = k := by
        apply toString_injective
        apply le_antisymm
        · rw [← not_lt, toString_lt_iff (hleast chosen k hchosen)]
          exact Nat.not_lt.mpr (hleading chosen k hchosen)
        · exact hfirst least n hcandidate
      subst hsame
      refine ⟨?_, ?_, ?_⟩
      · rintro srv ⟨⟩
        exact ⟨n, hchosen, hleast⟩
      · simp only [reduceCtorEq, false_iff, not_forall, not_not]
        exact ⟨chosen, n, hchosen⟩
      · intro srv
        by_cases heq : srv = chosen
        · subst heq
          simp only [hafter, hchosen.1, Option.map_some, if_pos, Option.some_inj]
          exact format17g_eq_iff.mpr ⟨hsucc, hbound⟩
        · have hne : ¬ chosen = srv := fun h => heq h.symm
          rw [hcount, AList.lookup_insert_ne heq, hload]
          simp only [Option.some_inj, hne, if_false, Option.map_id']

end

/-! ## Three servers -/

/-- Two servers with signs of life, and one that has been silent. -/
def threeServers (first second : Nat) : CombatServerDb where
  count := (((∅ : Table Srv String).insert "10.0.0.1_3001" (toString first)).insert
    "10.0.0.2_3001" (toString second)).insert "10.0.0.3_3001" (toString 0)
  status := ∅
  tick := (((∅ : Table Srv Int).insert "10.0.0.1_3001" 1000).insert "10.0.0.2_3001" 1000).insert
    "10.0.0.3_3001" 900

def threeLoads (first second : Nat) : Srv → Option Nat :=
  Function.update (Function.update (Function.update (fun _ => none) "10.0.0.1_3001" (some first))
    "10.0.0.2_3001" (some second)) "10.0.0.3_3001" (some 0)

/-- Writing the numeral of a load. -/
theorem Loads.insert {db : CombatServerDb} {load : Srv → Option Nat} (h : db.Loads load) (srv : Srv)
    (n : Nat) : ({ db with count := db.count.insert srv (toString n) } : CombatServerDb).Loads
      (Function.update load srv (some n)) := by
  intro other
  by_cases heq : other = srv
  · subst heq
    simp
  · simp only [AList.lookup_insert_ne heq, Function.update_of_ne heq]
    exact h other

/-- The silent server is no candidate. -/
theorem candidate_threeServers {first second n : Nat} {srv : Srv}
    (h : (threeServers first second).Candidate 1005 10 (threeLoads first second) srv n) :
    n = first ∨ n = second := by
  obtain ⟨hload, htick, -⟩ := h
  by_cases hthird : srv = "10.0.0.3_3001"
  · subst hthird
    have hlate := htick 900 (by simp [threeServers])
    omega
  · rw [threeLoads, Function.update_of_ne hthird] at hload
    by_cases hsecond : srv = "10.0.0.2_3001"
    · subst hsecond
      rw [Function.update_self, Option.some_inj] at hload
      exact .inr hload.symm
    · rw [Function.update_of_ne hsecond] at hload
      by_cases hfirst : srv = "10.0.0.1_3001"
      · subst hfirst
        rw [Function.update_self, Option.some_inj] at hload
        exact .inl hload.symm
      · rw [Function.update_of_ne hfirst] at hload
        cases hload

theorem loads_threeServers (first second : Nat) :
    (threeServers first second).Loads (threeLoads first second) := by
  have hempty : (⟨∅, ∅, (threeServers first second).tick⟩ : CombatServerDb).Loads
      fun _ => none := fun _ => rfl
  have hfirst := hempty.insert "10.0.0.1_3001" first
  have hsecond := hfirst.insert "10.0.0.2_3001" second
  exact hsecond.insert "10.0.0.3_3001" 0

/-- The second server has the least load of the two that are enabled. -/
theorem chooses_threeServers :
    (threeServers 79 7).Chooses 1005 10 (threeLoads 79 7)
      ((threeServers 79 7).getServer 1005 10).1 ((threeServers 79 7).getServer 1005 10).2 := by
  refine (chooses_iff (loads_threeServers 79 7)).mpr ?_
  intro srv n hcandidate hleast
  have hseven := hleast "10.0.0.2_3001" 7 ⟨by decide +kernel, by decide +kernel⟩
  have hn : n = 7 := by
    have := candidate_threeServers hcandidate
    omega
  subst hn
  refine ⟨?_, succDouble_of_lt (by decide), by decide⟩
  intro other m hother
  rcases candidate_threeServers hother with rfl | rfl
  · decide +kernel
  · simp

/-- The numeral of ten comes before that of nine. -/
theorem not_chooses_threeServers :
    ¬ ∀ (db : CombatServerDb) (now timeout : Int) (load : Srv → Option Nat), db.Loads load →
      db.Chooses now timeout load (db.getServer now timeout).1 (db.getServer now timeout).2 := by
  intro h
  have hchooses := h (threeServers 9 10) 1005 10 (threeLoads 9 10) (loads_threeServers 9 10)
  have hanswer : ((threeServers 9 10).getServer 1005 10).1 = some "10.0.0.2_3001" := by
    decide +kernel
  obtain ⟨n, ⟨hn, -⟩, hleast⟩ := hchooses.least _ hanswer
  have hten : n = 10 := by
    have hload : threeLoads 9 10 "10.0.0.2_3001" = some 10 := by decide +kernel
    exact Option.some_inj.mp (hn.symm.trans hload)
  have hnine : (threeServers 9 10).Candidate 1005 10 (threeLoads 9 10) "10.0.0.1_3001" 9 :=
    ⟨by decide +kernel, by decide +kernel⟩
  have hle := hleast _ _ hnine
  omega

end CombatServerDb

end Combat
end ArmyRs
