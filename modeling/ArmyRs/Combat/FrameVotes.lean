import ArmyRs.Combat.FrameResolution

/-!
# What a vote stores

The views of the players with the most votes are written with `data.detail`: the
report that has come last, whoever sent it.  And a report has the vote of every
other one that contains it, so that a player who reports less than the majority
can win.

`majorityStored_iff` says when the players of a majority get what they have
reported: no part of their report has more votes, and the last report leaves the
same in their views as theirs.
-/

namespace ArmyRs
namespace Combat

open Foundation

/-! ## Fields -/

/-- A field of a report. -/
def Detail.field (data : Detail) (q : Pid) (m : LuaValue) : Option LuaValue :=
  (data.lookup q).bind fun pstat => pstat.lookup m

/-- The statistics of a player in a view, on the side where it is. -/
def PlayerData.pstat (view : PlayerData) (q : Pid) : Option PStat :=
  (view.side0.pstats.lookup q).or (view.side1.pstats.lookup q)

def PlayerData.field (view : PlayerData) (q : Pid) (m : LuaValue) : Option LuaValue :=
  (view.pstat q).bind fun pstat => pstat.lookup m

/-- Two views with the same statistics. -/
def SameFields (view view' : PlayerData) : Prop :=
  ∀ q m, view.field q m = view'.field q m

theorem pstat_modify (view : PlayerData) (p q : Pid) (change : PStat → PStat) :
    (view.modify p change).pstat q =
      if q = p then (view.pstat p).map change else view.pstat q := by
  unfold PlayerData.modify PlayerData.pstat
  by_cases hq : q = p
  · subst hq
    rw [if_pos rfl]
    cases hside0 : view.side0.pstats.lookup q with
    | some pstat =>
        dsimp only
        rw [AList.lookup_insert, Option.some_or, Option.some_or, Option.map_some]
    | none =>
        dsimp only
        cases hside1 : view.side1.pstats.lookup q with
        | some pstat =>
            dsimp only
            rw [hside0, AList.lookup_insert, Option.none_or, Option.none_or, Option.map_some]
        | none =>
            dsimp only
            rw [hside0, hside1]
            rfl
  · rw [if_neg hq]
    cases view.side0.pstats.lookup p with
    | some pstat =>
        dsimp only
        rw [AList.lookup_insert_ne hq]
    | none =>
        dsimp only
        cases view.side1.pstats.lookup p with
        | some pstat =>
            dsimp only
            rw [AList.lookup_insert_ne hq]
        | none => rfl

/-- Setting fields of one player leaves the others alone. -/
theorem pstat_foldl_modify (fields : List (Sigma fun _ : LuaValue => LuaValue))
    (view : PlayerData) (p q : Pid) :
    (fields.foldl (fun view field => view.modify p fun pstat => pstat.insert field.1 field.2)
      view).pstat q =
      if q = p then (view.pstat p).map fun pstat =>
        fields.foldl (fun pstat field => pstat.insert field.1 field.2) pstat
      else view.pstat q := by
  induction fields generalizing view with
  | nil =>
      split
      · next hq =>
        rw [hq, List.foldl_nil]
        simp only [List.foldl_nil, Option.map_id']
      · rfl
  | cons field fields ih =>
      rw [List.foldl_cons, ih, pstat_modify, pstat_modify, if_pos rfl, Option.map_map]
      split
      · rfl
      · rfl

/-- `set_playerdata` changes the players that are reported. -/
theorem pstat_set (view : PlayerData) (data : Detail) (q : Pid) :
    (view.set data).pstat q =
      match data.lookup q with
      | none => view.pstat q
      | some reported => (view.pstat q).map fun pstat =>
          reported.entries.foldl (fun pstat field => pstat.insert field.1 field.2) pstat := by
  obtain ⟨entries, hnodup⟩ := data
  unfold PlayerData.set
  show (entries.foldl _ view).pstat q = match entries.dlookup q with | none => _ | some _ => _
  induction entries generalizing view with
  | nil => rfl
  | cons entry entries ih =>
      obtain ⟨hnotMem, hrest⟩ := List.nodupKeys_cons.mp hnodup
      rw [List.foldl_cons, ih _ hrest, pstat_foldl_modify]
      by_cases hq : q = entry.1
      · subst hq
        rw [List.dlookup_eq_none.mpr hnotMem, if_pos rfl, List.dlookup_cons_eq]
      · rw [if_neg hq, List.dlookup_cons_ne _ _ hq]

/-- Setting fields one by one is looking them up first. -/
theorem lookup_foldl_insert {fields : List (Sigma fun _ : LuaValue => LuaValue)}
    (hnodup : fields.NodupKeys) (pstat : PStat) (m : LuaValue) :
    (fields.foldl (fun pstat field => pstat.insert field.1 field.2) pstat).lookup m =
      (fields.dlookup m).or (pstat.lookup m) := by
  induction fields generalizing pstat with
  | nil => rfl
  | cons field fields ih =>
      obtain ⟨hnotMem, hrest⟩ := List.nodupKeys_cons.mp hnodup
      rw [List.foldl_cons, ih hrest]
      by_cases hm : m = field.1
      · subst hm
        rw [List.dlookup_eq_none.mpr hnotMem, AList.lookup_insert, List.dlookup_cons_eq]
        rfl
      · rw [AList.lookup_insert_ne hm, List.dlookup_cons_ne _ _ hm]

theorem field_set (view : PlayerData) (data : Detail) (q : Pid) (m : LuaValue) :
    (view.set data).field q m =
      (view.pstat q).bind fun pstat => (data.field q m).or (pstat.lookup m) := by
  unfold PlayerData.field Detail.field
  rw [pstat_set]
  cases data.lookup q with
  | none => rfl
  | some reported =>
      cases view.pstat q with
      | none => rfl
      | some pstat => exact lookup_foldl_insert reported.nodupKeys pstat m

/-! ## Reports that are the same -/

/-- The same players and fields. -/
def sameDetail (stat1 stat2 : Detail) : Bool :=
  compareFrameData stat1 stat2 && compareFrameData stat2 stat1

theorem compareFrameData_iff {stat1 stat2 : Detail} :
    compareFrameData stat1 stat2 = true ↔
      ∀ q ∈ stat1, q ∈ stat2 ∧ ∀ m n, stat1.field q m = some n → stat2.field q m = some n := by
  unfold compareFrameData Detail.field
  rw [List.all_eq_true]
  constructor
  · intro h q hq
    obtain ⟨pstat1, hpstat1⟩ := exists_lookup hq
    have hentry := h ⟨q, pstat1⟩ (AList.mem_lookup_iff.mp hpstat1)
    dsimp only at hentry
    cases hpstat2 : stat2.lookup q with
    | none =>
        rw [hpstat2] at hentry
        cases hentry
    | some pstat2 =>
        rw [hpstat2] at hentry
        refine ⟨mem_of_lookup hpstat2, fun m n hn => ?_⟩
        rw [hpstat1] at hn
        have hfield := List.all_eq_true.mp hentry ⟨m, n⟩ (AList.mem_lookup_iff.mp hn)
        exact of_decide_eq_true hfield
  · rintro h ⟨q, pstat1⟩ hentry
    have hpstat1 : stat1.lookup q = some pstat1 := AList.mem_lookup_iff.mpr hentry
    obtain ⟨hq, hfields⟩ := h q (mem_of_lookup hpstat1)
    obtain ⟨pstat2, hpstat2⟩ := exists_lookup hq
    dsimp only
    rw [hpstat2]
    dsimp only
    rw [List.all_eq_true]
    rintro ⟨m, n⟩ hfield
    have hn := hfields m n (by rw [hpstat1]; exact AList.mem_lookup_iff.mpr hfield)
    rw [hpstat2] at hn
    exact decide_eq_true hn

theorem compareFrameData_refl (stat : Detail) : compareFrameData stat stat = true :=
  compareFrameData_iff.mpr fun _ hq => ⟨hq, fun _ _ hn => hn⟩

theorem compareFrameData_trans {stat1 stat2 stat3 : Detail}
    (h12 : compareFrameData stat1 stat2 = true) (h23 : compareFrameData stat2 stat3 = true) :
    compareFrameData stat1 stat3 = true := by
  rw [compareFrameData_iff] at *
  intro q hq
  obtain ⟨hq2, hfields12⟩ := h12 q hq
  obtain ⟨hq3, hfields23⟩ := h23 q hq2
  exact ⟨hq3, fun m n hn => hfields23 m n (hfields12 m n hn)⟩

theorem sameDetail_iff {stat1 stat2 : Detail} :
    sameDetail stat1 stat2 = true ↔
      compareFrameData stat1 stat2 = true ∧ compareFrameData stat2 stat1 = true := by
  unfold sameDetail
  rw [Bool.and_eq_true]

/-! ## Votes -/

section

variable {V : Type*} {agree : V → V → Bool}

/-- A player's votes are all ballots that agree with its own, itself included. -/
theorem votes_eq_countP (hrefl : ∀ v, agree v v = true) {ballots : Table Pid V} {k : Pid} {v : V}
    (hk : ballots.lookup k = some v) :
    votes agree ballots k v = ballots.entries.countP fun other => agree v other.2 := by
  unfold votes
  have hmem : ⟨k, v⟩ ∈ ballots.entries := AList.mem_lookup_iff.mp hk
  obtain ⟨before, after, hsplit⟩ := List.append_of_mem hmem
  have hnodup := ballots.nodupKeys
  rw [hsplit] at hnodup ⊢
  -- the other ballots are of other players
  have hothers : ∀ other ∈ before ++ after, k ≠ other.1 := by
    have hperm : (⟨k, v⟩ :: (before ++ after) : List (Sigma fun _ : Pid => V)).NodupKeys :=
      (List.perm_nodupKeys List.perm_middle).mp hnodup
    intro other hother heq
    apply (List.nodupKeys_cons.mp hperm).1
    show k ∈ (before ++ after).keys
    rw [heq]
    exact List.mem_keys_of_mem hother
  have hself : (⟨k, v⟩ :: (before ++ after) : List (Sigma fun _ : Pid => V)).countP
      (fun other => decide (k ≠ other.1) && agree v other.2) =
        (before ++ after).countP fun other => decide (k ≠ other.1) && agree v other.2 := by
    apply List.countP_cons_of_neg
    simp only [ne_eq, not_true_eq_false, decide_false, Bool.false_and, Bool.false_eq_true,
      not_false_eq_true]
  have hall : (⟨k, v⟩ :: (before ++ after) : List (Sigma fun _ : Pid => V)).countP
      (fun other => agree v other.2) =
        ((before ++ after).countP fun other => agree v other.2) + 1 :=
    List.countP_cons_of_pos (hrefl v)
  rw [List.perm_middle.countP_eq, List.perm_middle.countP_eq, hself, hall, Nat.add_comm]
  refine congrArg (· + 1) (List.countP_congr fun other hother => ?_)
  rw [Bool.and_eq_true, decide_eq_true_eq]
  exact and_iff_right (hothers other hother)

theorem mem_counts {ballots : Table Pid V} {cnt : Pid × Nat} :
    cnt ∈ counts agree ballots ↔
      ∃ v, ballots.lookup cnt.1 = some v ∧ cnt.2 = votes agree ballots cnt.1 v := by
  unfold counts
  constructor
  · intro h
    obtain ⟨ballot, hballot, rfl⟩ := List.mem_map.mp h
    exact ⟨ballot.2, AList.mem_lookup_iff.mpr hballot, rfl⟩
  · rintro ⟨v, hv, hcnt⟩
    exact List.mem_map.mpr ⟨⟨cnt.1, v⟩, AList.mem_lookup_iff.mp hv, Prod.ext rfl hcnt.symm⟩

theorem map_fst_counts (ballots : Table Pid V) :
    (counts agree ballots).map Prod.fst = ballots.keys := by
  unfold counts
  rw [List.map_map]
  rfl

theorem maxCnt_le_iff {cnts : List (Pid × Nat)} {n : Nat} :
    maxCnt cnts ≤ n ↔ ∀ cnt ∈ cnts, cnt.2 ≤ n := by
  have hfold : ∀ (cnts : List (Pid × Nat)) (most : Nat),
      cnts.foldl (fun most cnt => if most < cnt.2 then cnt.2 else most) most ≤ n ↔
        most ≤ n ∧ ∀ cnt ∈ cnts, cnt.2 ≤ n := by
    intro cnts
    induction cnts with
    | nil => simp
    | cons cnt cnts ih =>
        intro most
        rw [List.foldl_cons, ih, List.forall_mem_cons, ← and_assoc]
        refine and_congr_left fun _ => ?_
        split <;> omega
  unfold maxCnt
  rw [hfold]
  exact and_iff_right (Nat.zero_le n)

/-- Writing for players that are there succeeds, and reaches those with the most
votes. -/
theorem lookup_writeVotes (most : Nat) (detail : Detail) {cnts : List (Pid × Nat)}
    (hnodup : (cnts.map Prod.fst).Nodup) {playerdata : Table Pid PlayerData}
    (hmem : ∀ cnt ∈ cnts, cnt.1 ∈ playerdata) :
    (writeVotes most detail cnts playerdata).2 = true ∧
      ∀ p, (writeVotes most detail cnts playerdata).1.lookup p =
        if ∃ cnt ∈ cnts, cnt.1 = p ∧ most ≤ cnt.2 then
          (playerdata.lookup p).map fun view => view.set detail
        else playerdata.lookup p := by
  induction cnts generalizing playerdata with
  | nil =>
      refine ⟨rfl, fun p => ?_⟩
      rw [if_neg (by simp)]
      rfl
  | cons cnt cnts ih =>
      rw [List.map_cons, List.nodup_cons] at hnodup
      have hrest : ∀ other ∈ cnts, other.1 ∈ playerdata :=
        fun other hother => hmem other (List.mem_cons_of_mem _ hother)
      unfold writeVotes
      split
      · next hfew =>
        obtain ⟨hok, hlookup⟩ := ih hnodup.2 hrest
        refine ⟨hok, fun p => ?_⟩
        rw [hlookup p]
        refine if_congr ?_ rfl rfl
        rw [List.exists_mem_cons_iff]
        exact (or_iff_right fun h => absurd h.2 (Nat.not_le.mpr hfew)).symm
      · next hmany =>
        obtain ⟨view, hview⟩ := exists_lookup (hmem cnt List.mem_cons_self)
        have hset : setPlayerdata playerdata cnt.1 detail =
            some (playerdata.insert cnt.1 (view.set detail)) := by
          unfold setPlayerdata
          rw [hview]
        rw [hset]
        dsimp only
        have hstill : ∀ other ∈ cnts, other.1 ∈ playerdata.insert cnt.1 (view.set detail) :=
          fun other hother => (AList.mem_insert _).mpr (.inr (hrest other hother))
        obtain ⟨hok, hlookup⟩ := ih hnodup.2 hstill
        refine ⟨hok, fun p => ?_⟩
        rw [hlookup p]
        by_cases hp : p = cnt.1
        · subst hp
          have hlater : ¬ ∃ other ∈ cnts, other.1 = cnt.1 ∧ most ≤ other.2 := by
            rintro ⟨other, hother, heq, -⟩
            exact hnodup.1 (List.mem_map.mpr ⟨other, hother, heq⟩)
          rw [if_neg hlater, if_pos ⟨cnt, List.mem_cons_self, rfl, Nat.not_lt.mp hmany⟩,
            AList.lookup_insert, hview]
          rfl
        · rw [AList.lookup_insert_ne hp]
          refine if_congr ?_ rfl rfl
          rw [List.exists_mem_cons_iff]
          exact (or_iff_right fun h => hp h.1.symm).symm

end

/-! ## All reports of a frame -/

/-- The reports arrive in this order. -/
def StatModel.reportAll (s : StatModel) (frame : Frame) (reports : List (Pid × Detail)) :
    StatModel :=
  reports.foldl (fun s report => s.modifyPlayerdata report.1 frame report.2) s

/-- With how many reports a report agrees. -/
def agreeing (reports : List (Pid × Detail)) (detail : Detail) : Nat :=
  reports.countP fun other => compareFrameData detail other.2

/-- No part of the report agrees with more reports. -/
def Unbeaten (reports : List (Pid × Detail)) (detail : Detail) : Prop :=
  ∀ report ∈ reports, compareFrameData report.2 detail = true →
    agreeing reports report.2 ≤ agreeing reports detail

instance (reports : List (Pid × Detail)) (detail : Detail) : Decidable (Unbeaten reports detail) :=
  inferInstanceAs (Decidable (∀ report ∈ reports, _ → _))

/-- Everybody who has reported this gets it stored. -/
def MajorityStored (s : StatModel) (frame : Frame) (reports : List (Pid × Detail))
    (detail : Detail) : Prop :=
  ∀ report ∈ reports, sameDetail report.2 detail = true →
    ∀ view, s.playerdata.lookup report.1 = some view →
      ∃ view', (s.reportAll frame reports).playerdata.lookup report.1 = some view' ∧
        SameFields view' (view.set detail)

/-- Storing either of two reports leaves the same in the views of everybody who
has reported this. -/
def SameInViews (s : StatModel) (reports : List (Pid × Detail)) (detail other : Detail) : Prop :=
  ∀ report ∈ reports, sameDetail report.2 detail = true →
    ∀ view, s.playerdata.lookup report.1 = some view →
      SameFields (view.set other) (view.set detail)

/-- The messages of a frame while somebody is missing. -/
structure Collected (s s' : StatModel) (frame : Frame) (early : List (Pid × Detail)) : Prop where
  playerdata : s'.playerdata = s.playerdata
  playercnt : s'.playercnt = s.playercnt
  ballots : ((s'.framedata.lookup frame).getD ∅).entries =
    (early.map fun report => (⟨report.1, report.2⟩ : Sigma fun _ : Pid => Detail)).reverse
  counter : (s'.framepcnt.lookup frame).getD 0 = early.length

section

variable {s s' : StatModel} {frame : Frame} {early reports : List (Pid × Detail)} {pid : Pid}
  {detail majority : Detail}

theorem reportAll_concat (s : StatModel) (frame : Frame) (early : List (Pid × Detail))
    (last : Pid × Detail) :
    s.reportAll frame (early ++ [last]) =
      (s.reportAll frame early).modifyPlayerdata last.1 frame last.2 := by
  unfold StatModel.reportAll
  rw [List.foldl_append, List.foldl_cons, List.foldl_nil]

theorem Collected.collect (collected : Collected s s' frame early)
    (hpid : pid ∉ early.map Prod.fst) :
    Collected s (s'.collect pid frame detail) frame (early ++ [(pid, detail)]) where
  playerdata := collected.playerdata
  playercnt := collected.playercnt
  ballots := by
    have hnotMem : pid ∉ (s'.framedata.lookup frame).getD ∅ := by
      rw [AList.mem_keys]
      unfold AList.keys List.keys
      rw [collected.ballots, List.map_reverse, List.mem_reverse, List.map_map]
      exact hpid
    show (((s'.framedata.insert frame _).lookup frame).getD ∅).entries = _
    rw [AList.lookup_insert, Option.getD_some, AList.entries_insert_of_notMem hnotMem,
      collected.ballots, List.map_append, List.reverse_append]
    rfl
  counter := by
    show ((s'.framepcnt.insert frame _).lookup frame).getD 0 = _
    rw [AList.lookup_insert, Option.getD_some, collected.counter, List.length_append]
    rfl

/-- Reports of different players are collected as long as somebody is missing. -/
theorem collected_reportAll (hframedata : s.framedata.lookup frame = none)
    (hframepcnt : s.framepcnt.lookup frame = none) (hnodup : (early.map Prod.fst).Nodup)
    (hmem : ∀ report ∈ early, report.1 ∈ s.playerdata)
    (hearly : (early.length : Int) < s.playercnt) :
    Collected s (s.reportAll frame early) frame early := by
  induction early using List.reverseRecOn with
  | nil =>
      refine ⟨rfl, rfl, ?_, ?_⟩
      · show ((s.framedata.lookup frame).getD ∅).entries = _
        rw [hframedata]
        rfl
      · show (s.framepcnt.lookup frame).getD 0 = _
        rw [hframepcnt]
        rfl
  | append_singleton early report ih =>
      rw [List.length_append, List.length_singleton] at hearly
      rw [List.map_append, List.map_singleton, ← List.concat_eq_append, List.nodup_concat] at hnodup
      have collected := ih hnodup.2
        (fun other hother => hmem other (List.mem_append_left _ hother)) (by omega)
      have hreport : report.1 ∈ s.playerdata :=
        hmem report (List.mem_append_right _ List.mem_cons_self)
      rw [reportAll_concat, modifyPlayerdata_eq]
      have hmissing : ¬ (s.reportAll frame early).Completes report.1 frame := by
        rintro ⟨-, hequal⟩
        rw [collected.counter, collected.playercnt] at hequal
        omega
      have hthere : report.1 ∈ (s.reportAll frame early).playerdata := by
        rw [collected.playerdata]
        exact hreport
      rw [if_neg hmissing, if_pos hthere]
      exact collected.collect hnodup.1

/-- Two reports that are the same agree with the same reports. -/
theorem agreeing_congr (h : sameDetail detail majority = true) :
    agreeing reports detail = agreeing reports majority := by
  obtain ⟨hto, hfrom⟩ := sameDetail_iff.mp h
  refine List.countP_congr fun other _ => ?_
  exact ⟨compareFrameData_trans hfrom, compareFrameData_trans hto⟩

/-- Only parts of what a majority has reported can have as many votes. -/
theorem unbeaten_iff
    (hmajority : reports.length <
      2 * reports.countP fun report => sameDetail report.2 majority) :
    Unbeaten reports majority ↔
      ∀ report ∈ reports, agreeing reports report.2 ≤ agreeing reports majority := by
  constructor
  · intro hunbeaten report hreport
    by_cases hpart : compareFrameData report.2 majority = true
    · exact hunbeaten report hreport hpart
    · -- it agrees with nobody of the majority
      have hothers : agreeing reports report.2 ≤
          reports.countP fun other => !sameDetail other.2 majority := by
        apply List.countP_mono_left
        intro other _ hagrees
        rw [Bool.not_eq_true', ← Bool.not_eq_true]
        exact fun hsame => hpart (compareFrameData_trans hagrees (sameDetail_iff.mp hsame).1)
      have hown : (reports.countP fun other => sameDetail other.2 majority) ≤
          agreeing reports majority :=
        List.countP_mono_left fun other _ hsame => (sameDetail_iff.mp hsame).2
      have hlength := List.length_eq_countP_add_countP
        (fun other : Pid × Detail => sameDetail other.2 majority) (l := reports)
      have hcongr : (reports.countP fun other => !sameDetail other.2 majority) =
          reports.countP fun other => decide ¬ sameDetail other.2 majority = true :=
        List.countP_congr fun other _ => by simp
      omega
  · exact fun h report hreport _ => h report hreport

/-- The ballots are these reports. -/
def Ballots (ballots : Table Pid Detail) (reports : List (Pid × Detail)) : Prop :=
  ballots.entries =
    (reports.map fun report => (⟨report.1, report.2⟩ : Sigma fun _ : Pid => Detail)).reverse

theorem Ballots.lookup_iff {ballots : Table Pid Detail} (h : Ballots ballots reports)
    (report : Pid × Detail) :
    ballots.lookup report.1 = some report.2 ↔ report ∈ reports := by
  rw [← Option.mem_def, AList.mem_lookup_iff, h, List.mem_reverse, List.mem_map]
  constructor
  · rintro ⟨same, hsame, heq⟩
    have hreport : same = report := Prod.ext (congrArg Sigma.fst heq) (by injection heq)
    rw [← hreport]
    exact hsame
  · exact fun hreport => ⟨report, hreport, rfl⟩

theorem Ballots.votes_eq {ballots : Table Pid Detail} (h : Ballots ballots reports)
    {report : Pid × Detail} (hreport : report ∈ reports) :
    votes compareFrameData ballots report.1 report.2 = agreeing reports report.2 := by
  rw [votes_eq_countP compareFrameData_refl ((h.lookup_iff report).mpr hreport), h,
    List.countP_reverse, List.countP_map]
  rfl

/-- Nobody has more votes than a player exactly when its report is among the ones
that agree with most. -/
theorem Ballots.most_iff {ballots : Table Pid Detail} (h : Ballots ballots reports)
    {report : Pid × Detail} (hreport : report ∈ reports) :
    (∃ cnt ∈ counts compareFrameData ballots, cnt.1 = report.1 ∧
        maxCnt (counts compareFrameData ballots) ≤ cnt.2) ↔
      ∀ other ∈ reports, agreeing reports other.2 ≤ agreeing reports report.2 := by
  have hown : (report.1, agreeing reports report.2) ∈ counts compareFrameData ballots :=
    mem_counts.mpr ⟨report.2, (h.lookup_iff report).mpr hreport, (h.votes_eq hreport).symm⟩
  constructor
  · rintro ⟨cnt, hcnt, hpid, hmost⟩ other hother
    obtain ⟨v, hv, hvotes⟩ := mem_counts.mp hcnt
    rw [hpid, (h.lookup_iff report).mpr hreport, Option.some_inj] at hv
    rw [hpid, ← hv, h.votes_eq hreport] at hvotes
    rw [hvotes] at hmost
    exact maxCnt_le_iff.mp hmost (other.1, agreeing reports other.2)
      (mem_counts.mpr ⟨other.2, (h.lookup_iff other).mpr hother, (h.votes_eq hother).symm⟩)
  · intro hall
    refine ⟨_, hown, rfl, maxCnt_le_iff.mpr ?_⟩
    intro cnt hcnt
    obtain ⟨v, hv, hvotes⟩ := mem_counts.mp hcnt
    have hmem : (cnt.1, v) ∈ reports := (h.lookup_iff (cnt.1, v)).mp hv
    rw [hvotes, h.votes_eq hmem]
    exact hall _ hmem

/-- What a vote leaves in the view of a player who has reported. -/
theorem lookup_vote (hballots : Ballots ((s.framedata.lookup frame).getD ∅) reports)
    (hmem : ∀ report ∈ reports, report.1 ∈ s.playerdata) {report : Pid × Detail}
    (hreport : report ∈ reports) :
    (s.vote frame detail).playerdata.lookup report.1 =
      if ∀ other ∈ reports, agreeing reports other.2 ≤ agreeing reports report.2 then
        (s.playerdata.lookup report.1).map fun view => view.set detail
      else s.playerdata.lookup report.1 := by
  unfold StatModel.vote
  dsimp only
  generalize hcnts : counts compareFrameData ((s.framedata.lookup frame).getD ∅) = cnts
  have hnodup : (cnts.map Prod.fst).Nodup := by
    rw [← hcnts, map_fst_counts]
    exact AList.keys_nodup _
  have hthere : ∀ cnt ∈ cnts, cnt.1 ∈ s.playerdata := by
    intro cnt hcnt
    rw [← hcnts] at hcnt
    obtain ⟨v, hv, -⟩ := mem_counts.mp hcnt
    exact hmem (cnt.1, v) ((hballots.lookup_iff (cnt.1, v)).mp hv)
  have hwrite := lookup_writeVotes (maxCnt cnts) detail hnodup hthere
  generalize writeVotes (maxCnt cnts) detail cnts s.playerdata = written at hwrite ⊢
  obtain ⟨playerdata, ok⟩ := written
  obtain ⟨rfl, hlookup⟩ := hwrite
  dsimp only at hlookup ⊢
  rw [hlookup report.1]
  refine if_congr ?_ rfl rfl
  rw [← hcnts]
  exact hballots.most_iff hreport

/-- What all reports of a frame leave in the view of a player. -/
theorem lookup_reportAll (hframedata : s.framedata.lookup frame = none)
    (hframepcnt : s.framepcnt.lookup frame = none)
    (hnodup : ((early ++ [(pid, detail)]).map Prod.fst).Nodup)
    (hmem : ∀ report ∈ early ++ [(pid, detail)], report.1 ∈ s.playerdata)
    (hcounted : ((early ++ [(pid, detail)]).length : Int) = s.playercnt)
    {report : Pid × Detail} (hreport : report ∈ early ++ [(pid, detail)]) :
    (s.reportAll frame (early ++ [(pid, detail)])).playerdata.lookup report.1 =
      if ∀ other ∈ early ++ [(pid, detail)], agreeing (early ++ [(pid, detail)]) other.2 ≤
          agreeing (early ++ [(pid, detail)]) report.2 then
        (s.playerdata.lookup report.1).map fun view => view.set detail
      else s.playerdata.lookup report.1 := by
  rw [List.length_append, List.length_singleton] at hcounted
  rw [List.map_append, List.map_singleton, ← List.concat_eq_append, List.nodup_concat] at hnodup
  have collected := collected_reportAll hframedata hframepcnt hnodup.2
    (fun report hreport => hmem report (List.mem_append_left _ hreport)) (by omega)
  -- the last report completes the frame
  have hcompletes : (s.reportAll frame early).Completes pid frame := by
    constructor
    · rw [collected.playerdata]
      exact hmem (pid, detail) (List.mem_append_right _ List.mem_cons_self)
    · rw [collected.counter, collected.playercnt]
      omega
  have hall : Collected s ((s.reportAll frame early).collect pid frame detail) frame
      (early ++ [(pid, detail)]) := collected.collect hnodup.1
  have hthere : ∀ report ∈ early ++ [(pid, detail)],
      report.1 ∈ ((s.reportAll frame early).collect pid frame detail).playerdata := by
    rw [hall.playerdata]
    exact hmem
  rw [reportAll_concat, modifyPlayerdata_eq, if_pos hcompletes,
    lookup_vote hall.ballots hthere hreport, hall.playerdata]

/-- Once as many players have reported a new frame as the room counts, in any
order, the players of a majority have what they have reported exactly when no part
of it has more votes and the last report leaves the same in their views, or when
it has been there before. -/
theorem majorityStored_iff (hframedata : s.framedata.lookup frame = none)
    (hframepcnt : s.framepcnt.lookup frame = none)
    (hnodup : ((early ++ [(pid, detail)]).map Prod.fst).Nodup)
    (hmem : ∀ report ∈ early ++ [(pid, detail)], report.1 ∈ s.playerdata)
    (hcounted : ((early ++ [(pid, detail)]).length : Int) = s.playercnt)
    (hmajority : (early ++ [(pid, detail)]).length <
      2 * (early ++ [(pid, detail)]).countP fun report => sameDetail report.2 majority) :
    MajorityStored s frame (early ++ [(pid, detail)]) majority ↔
      if Unbeaten (early ++ [(pid, detail)]) majority then
        SameInViews s (early ++ [(pid, detail)]) majority detail
      else SameInViews s (early ++ [(pid, detail)]) majority ∅ := by
  have hlookup : ∀ report ∈ early ++ [(pid, detail)], sameDetail report.2 majority = true →
      ∀ view, s.playerdata.lookup report.1 = some view →
        (s.reportAll frame (early ++ [(pid, detail)])).playerdata.lookup report.1 =
          some (view.set (if Unbeaten (early ++ [(pid, detail)]) majority then detail else ∅)) := by
    intro report hreport hsame view hview
    rw [lookup_reportAll hframedata hframepcnt hnodup hmem hcounted hreport, hview,
      agreeing_congr hsame]
    by_cases hunbeaten : Unbeaten (early ++ [(pid, detail)]) majority
    · rw [if_pos hunbeaten, if_pos ((unbeaten_iff hmajority).mp hunbeaten)]
      rfl
    · rw [if_neg hunbeaten, if_neg fun h => hunbeaten ((unbeaten_iff hmajority).mpr h)]
      rfl
  rw [← apply_ite (SameInViews s (early ++ [(pid, detail)]) majority)]
  constructor
  · intro h report hreport hsame view hview
    obtain ⟨view', hview', hfields⟩ := h report hreport hsame view hview
    rw [hlookup report hreport hsame view hview, Option.some_inj] at hview'
    rw [hview']
    exact hfields
  · intro h report hreport hsame view hview
    exact ⟨_, hlookup report hreport hsame view hview, h report hreport hsame view hview⟩

end

/-! ## Three players -/

def threePlayers : Members :=
  [[some ⟨player 1, .string "one", .string "car001"⟩,
      some ⟨player 2, .string "two", .string "car001"⟩],
    [some ⟨player 3, .string "three", .string "car001"⟩]]

def threeStart : StatModel := (StatModel.new none 0).init threePlayers

/-- The first player has made so many kills. -/
def kills (n : ℚ) : Detail :=
  ([⟨player 1, ([⟨.string "kill", .number n⟩] :
      List (Sigma fun _ : LuaValue => LuaValue)).toAList⟩] :
    List (Sigma fun _ : Pid => PStat)).toAList

/-- The second player reports something else, and not as the last one. -/
theorem majorityStored_threePlayers :
    MajorityStored threeStart (.number 1)
      ([(player 1, kills 2), (player 2, kills 9)] ++ [(player 3, kills 2)]) (kills 2) := by
  have hiff := @majorityStored_iff threeStart (.number 1)
    [(player 1, kills 2), (player 2, kills 9)] (player 3) (kills 2) (kills 2) rfl rfl
    (by decide +kernel) (by decide +kernel) (by decide +kernel) (by decide +kernel)
  rw [if_pos (by decide +kernel)] at hiff
  exact hiff.mpr fun _ _ _ _ _ _ _ => rfl

/-- The second player reports something else as the last one. -/
theorem not_majorityStored_last :
    ¬ ∀ (early : List (Pid × Detail)) (pid : Pid) (detail majority : Detail),
      ((early ++ [(pid, detail)]).map Prod.fst).Perm threeStart.playerdata.keys →
      (early ++ [(pid, detail)]).length <
        2 * (early ++ [(pid, detail)]).countP (fun report => sameDetail report.2 majority) →
      MajorityStored threeStart (.number 1) (early ++ [(pid, detail)]) majority := by
  intro h
  have hstored := h [(player 1, kills 2), (player 3, kills 2)] (player 2) (kills 9) (kills 2)
    (by decide +kernel) (by decide +kernel)
  obtain ⟨view, hview⟩ := Option.isSome_iff_exists.mp
    (show (threeStart.playerdata.lookup (player 1)).isSome = true by decide +kernel)
  obtain ⟨view', hview', hfields⟩ :=
    hstored (player 1, kills 2) List.mem_cons_self (by decide +kernel) view hview
  have hgot : ((threeStart.reportAll (.number 1)
      ([(player 1, kills 2), (player 3, kills 2)] ++ [(player 2, kills 9)])).playerdata.lookup
        (player 1)).bind (fun view => view.field (player 1) (.string "kill")) =
          some (.number 9) := by decide +kernel
  have hwanted : (threeStart.playerdata.lookup (player 1)).bind
      (fun view => (view.set (kills 2)).field (player 1) (.string "kill")) =
        some (.number 2) := by decide +kernel
  rw [hview', Option.bind_some, hfields] at hgot
  rw [hview, Option.bind_some, hgot] at hwanted
  cases hwanted

end Combat
end ArmyRs
