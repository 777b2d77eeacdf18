import ArmyRs.Client.TreeCalls

/-!
# A behaviour tree against its semantics

As long as the evaluation is plain (`Tree.plain`), what the `BehaviourTree` is
told in a tick is the result of the standard semantics, and otherwise it is told
nothing (`Tree.ticks_iff`).

By induction on the tree, a node that was made ready behaves as the semantics
says (`Follows`); for a branch node, by induction on the children that are left.
-/

namespace ArmyRs
namespace Client

open Foundation

variable {L : Type*} {s next last : Fields} {root : Tree L} {task : L → Outcome}
  {tree child : Tree L} {p : Path} {control : Control} {method inner : Method} {result : Result}
  {plain : Bool}

/-! ## Branch nodes -/

/-- The branch node has told the child with this number to run. -/
structure Told (root : Tree L) (kind : Composite) (nodes : List (Tree L)) (p : Path)
    (control : Control) (i : Nat) (s : Fields) : Prop where
  here : root.node? p = some (.branch kind nodes)
  control : s.control p = some control
  own : s.node p = some (p ++ [i])
  number : s.actualTask p = i + 1
  back : s.control (p ++ [i]) = some (.node p)
  others : OthersIdle s p i

section

variable {kind : Composite} {nodes : List (Tree L)} {i : Nat} {rest : Result}

theorem Told.alike (h : Told root kind nodes p control i s) (halike : Alike (p ++ [i]) s next) :
    Told root kind nodes p control i next where
  here := h.here
  control := (halike.control p (.inl not_child_below)).trans h.control
  own := (halike.node p not_child_below).trans h.own
  number := (halike.actualTask p not_child_below).trans h.number
  back := (halike.control _ (.inr rfl)).trans h.back
  others := h.others.alike halike

theorem body_report_branch (hhere : root.node? p = some (.branch kind nodes)) (outcome : Outcome)
    (s : Fields) :
    root.body task (.report outcome (.node p), s) = kind.report nodes p outcome s := by
  simp [Tree.body, hhere]

theorem tellControl_eq (hcontrol : s.control p = some control) (outcome : Outcome)
    (after : Fields → Fields) :
    tellControl p outcome s after = .calls (.report outcome control, s) (Return.map after) := by
  simp [tellControl, hcontrol]

/-- A child that has finished lets the node go on, or stops it. -/
theorem report_of_finished (hresult : result.resume = none) (nodes : List (Tree L)) (p : Path)
    (s : Fields) :
    kind.report nodes p result.outcome s =
      if result = kind.proceeds then branchProceed nodes p result.outcome s
      else branchStop p result.outcome s := by
  cases result with
  | running path => cases hresult
  | success =>
      cases kind with
      | sequence => rfl
      | priority => rfl
  | fail =>
      cases kind with
      | sequence => rfl
      | priority => rfl

theorem result_of_finished (hresult : result.resume = none) :
    kind.result i result rest = if result = kind.proceeds then rest else result := by
  unfold Composite.result
  cases result with
  | running path => cases hresult
  | success => simp [eq_comm]
  | fail => simp [eq_comm]

/-- A node whose children have finished is not running. -/
theorem Told.idle_leave (h : Told root kind nodes p control i s) (hidle : Idle s (p ++ [i])) :
    Idle (s.leave p) p := by
  rw [idle_iff]
  refine ⟨Function.update_self _ _ _, fun j q hq => ?_⟩
  have hsame : (s.leave p).nodeRunning q = s.nodeRunning q :=
    Function.update_of_ne (ne_of_child hq) _ _
  rw [hsame]
  by_cases hj : j = i
  · subst hj
    exact hidle q hq
  · exact h.others j hj q hq

theorem Told.running (h : Told root kind nodes p control i s) {path : Path}
    (hnodes : nodes[i]? = some child)
    (hchild : Reports root task child (p ++ [i]) (.node p) method s (.running path)) :
    Reports root task (.branch kind nodes) p control method s (.running (i :: path)) := by
  refine hchild.trans fun last hlast hpaused => ?_
  have htold := h.alike hlast
  have hbody : root.body task (.report .running (.node p), last) = branchRunning p last := by
    rw [body_report_branch h.here]
    cases kind with
    | sequence => rfl
    | priority => rfl
  have hother : ∀ q, q ≠ p → Function.update last.nodeRunning p true q = last.nodeRunning q :=
    fun q hq => Function.update_of_ne hq _ _
  refine ⟨_, [], alike_nodeRunning last p true, ?_, fun q hq => (nomatch hq), ?_, ?_⟩
  · refine Paused.branch (Function.update_self _ _ _) htold.own htold.number htold.back ?_ hnodes ?_
    · intro j hj q hq
      rw [← htold.others j hj q hq]
      exact hother q (ne_of_child hq)
    · exact Paused.congr hpaused (fun q hq => hother q (ne_of_child hq)) (fun _ _ => rfl)
        (fun _ _ _ => rfl) fun _ _ _ => rfl
  · intro q hq hidle
    rw [← hidle]
    exact hother q (ne_of_child hq)
  · intro ret hret
    rw [map_resetAll_nil]
    have hcontrol : { last with
        nodeRunning := Function.update last.nodeRunning p true }.control p = some control :=
      htold.control
    have hcall := returns_of_calls (hbody.trans (tellControl_eq hcontrol _ _)) hret
    cases ret with
    | returned s => exact hcall
    | raised s => exact hcall

/-- The node reports to its control, and resets its number after that. -/
theorem Told.finishes (h : Told root kind nodes p control i s) {final : Result}
    (hresult : result.resume = none) (hfinal : final.resume = none) (leave : Fields → Fields)
    (halike : ∀ last, Told root kind nodes p control i last → Alike p last (leave last))
    (hidle : ∀ last, Told root kind nodes p control i last → Idle last (p ++ [i]) →
      Idle (leave last) p)
    (hbody : ∀ last, Told root kind nodes p control i last →
      root.body task (.report result.outcome (.node p), last) =
        tellControl p final.outcome (leave last) fun s => s.resetActualTask p)
    (hchild : Reports root task child (p ++ [i]) (.node p) method s result) :
    Reports root task (.branch kind nodes) p control method s final := by
  refine hchild.trans fun last hlast hrests => ?_
  rw [hresult] at hrests
  rw [hfinal]
  have htold := h.alike hlast
  have hleft := hidle last htold hrests
  refine ⟨leave last, [p], halike last htold, hleft, ?_, ?_, ?_⟩
  · intro q hq
    rw [List.mem_singleton] at hq
    subst hq
    exact ⟨List.prefix_refl _, hleft _ (List.prefix_refl _)⟩
  · exact fun q hq _ => hleft q (prefix_of_child hq)
  · intro ret hret
    have hcontrol : (leave last).control p = some control :=
      ((halike last htold).control p (.inr rfl)).trans htold.control
    exact returns_of_calls ((hbody last htold).trans (tellControl_eq hcontrol _ _)) hret

theorem length_of_drop {rest : List (Tree L)} (h : nodes.drop i = child :: rest) :
    nodes[i]? = some child ∧ nodes.drop (i + 1) = rest ∧ nodes.length = i + 1 + rest.length := by
  have hlength := congrArg List.length h
  rw [List.length_drop, List.length_cons] at hlength
  refine ⟨?_, ?_, by omega⟩
  · have hget := @List.getElem?_drop _ nodes i 0
    rw [h] at hget
    simpa using hget.symm
  · rw [← List.drop_drop, h]
    rfl

/-- The last child lets the node go on. -/
theorem Told.ends (h : Told root kind nodes p control i s) (hlength : nodes.length = i + 1)
    (hresume : result.resume = none) (hproceeds : result = kind.proceeds)
    (hchild : Reports root task child (p ++ [i]) (.node p) method s result) :
    Reports root task (.branch kind nodes) p control method s kind.proceeds := by
  refine h.finishes hresume (hproceeds ▸ hresume) (fun s => (s.leave p).advance p)
    (fun last _ => (alike_leave last p).trans (alike_advance _ p))
    (fun last htold => htold.idle_leave) (fun last htold => ?_) hchild
  have hnumber : ((last.leave p).advance p).actualTask p = last.actualTask p + 1 :=
    Function.update_self _ _ _
  rw [body_report_branch h.here, report_of_finished hresume, if_pos hproceeds, hproceeds]
  unfold branchProceed
  dsimp only
  rw [if_neg (by rw [hnumber, htold.number]; omega)]

/-- A branch node that is running resumes at a child with its number or a later
one. -/
theorem evalNodes_resume {others : List (Tree L)} {path : Path}
    (h : (evalNodes task kind others i none).resume = some path) :
    ∃ j more, path = j :: more ∧ i ≤ j := by
  induction others generalizing i with
  | nil => cases kind <;> cases h
  | cons node others ih =>
      unfold evalNodes at h
      cases hresult : node.eval task none with
      | running way =>
          simp only [Option.map_none, hresult, Composite.result, Result.resume] at h
          exact ⟨i, way, (Option.some_inj.mp h).symm, Nat.le_refl i⟩
      | success =>
          rw [Option.map_none, hresult, result_of_finished rfl] at h
          split at h
          · obtain ⟨j, more, hpath, hle⟩ := ih h
            exact ⟨j, more, hpath, by omega⟩
          · cases h
      | fail =>
          rw [Option.map_none, hresult, result_of_finished rfl] at h
          split at h
          · obtain ⟨j, more, hpath, hle⟩ := ih h
            exact ⟨j, more, hpath, by omega⟩
          · cases h

/-- The next child has its turn. -/
theorem Told.proceeds (h : Told root kind nodes p control i s) {others : List (Tree L)}
    (hlength : i + 1 < nodes.length) (hresume : result.resume = none)
    (hproceeds : result = kind.proceeds)
    (hchild : Reports root task child (p ++ [i]) (.node p) method s result)
    (hothers : ∀ s, s.control p = some control → s.actualTask p = i + 1 + 1 → Idle s p →
      Behaves root task (.branch kind nodes) p control (.runNode p) s plain
        (evalNodes task kind others (i + 1) none)) :
    Behaves root task (.branch kind nodes) p control method s plain
      (evalNodes task kind others (i + 1) none) := by
  have hnumber : ∀ last, Told root kind nodes p control i last →
      ((last.leave p).advance p).actualTask p = i + 1 + 1 := by
    intro last htold
    have hself : ((last.leave p).advance p).actualTask p = last.actualTask p + 1 :=
      Function.update_self _ _ _
    rw [hself, htold.number]
  have hbody : ∀ last, Told root kind nodes p control i last →
      root.body task (.report result.outcome (.node p), last) =
        .calls (.runNode p, (last.leave p).advance p) id := by
    intro last htold
    rw [body_report_branch h.here, report_of_finished hresume, if_pos hproceeds]
    unfold branchProceed
    dsimp only
    rw [if_pos (by rw [hnumber last htold]; omega)]
  have halike : ∀ last, Alike p last ((last.leave p).advance p) := fun last =>
    (alike_leave last p).trans (alike_advance _ p)
  have hnext : ∀ last, Alike (p ++ [i]) s last → Rests last child (p ++ [i]) result.resume →
      Behaves root task (.branch kind nodes) p control (.report result.outcome (.node p)) last plain
        (evalNodes task kind others (i + 1) none) := by
    intro last hlast hrests
    rw [hresume] at hrests
    have htold := h.alike hlast
    refine Behaves.of_calls (hbody last htold) (halike last) (hothers _ ?_ (hnumber last htold) ?_)
    · exact ((halike last).control p (.inr rfl)).trans htold.control
    · exact htold.idle_leave hrests
  refine ⟨fun hplain => ?_, fun hplain => ?_⟩
  · refine hchild.trans fun last hlast hrests => ?_
    obtain ⟨later, paths, hlater, hfinal, hpaths, hreturns⟩ := (hnext last hlast hrests).1 hplain
    refine ⟨later, paths, hlater, hfinal, hpaths, fun q hq _ => ?_, hreturns⟩
    -- what is running now lies in a later child
    refine hfinal.not_running (prefix_of_child hq) fun path hpath hbelow => ?_
    obtain ⟨j, more, rfl, hle⟩ := evalNodes_resume hpath
    have hj : p ++ [j] <+: p ++ j :: more := ⟨more, by simp⟩
    have hij := eq_of_below (hq.trans hbelow) hj
    omega
  · exact hchild.stalls fun last hlast hrests => (hnext last hlast hrests).2 hplain

/-- What the node does when its child reports, and how it goes on with the rest of
its children. -/
theorem Told.behaves (h : Told root kind nodes p control i s) {others : List (Tree L)}
    (hdrop : nodes.drop i = child :: others)
    (hchild : Reports root task child (p ++ [i]) (.node p) method s result)
    (hothers : others ≠ [] → ∀ s, s.control p = some control → s.actualTask p = i + 1 + 1 →
      Idle s p → Behaves root task (.branch kind nodes) p control (.runNode p) s
        (plainNodes task kind others none) (evalNodes task kind others (i + 1) none)) :
    Behaves root task (.branch kind nodes) p control method s
      (result != kind.proceeds || plainNodes task kind others none)
      (kind.result i result (evalNodes task kind others (i + 1) none)) := by
  obtain ⟨hnodes, -, hlength⟩ := length_of_drop hdrop
  cases hresume : result.resume with
  | some path =>
      cases result with
      | success => cases hresume
      | fail => cases hresume
      | running path =>
          have hne : Result.running path ≠ kind.proceeds := by
            cases kind <;> simp [Composite.proceeds]
          refine ⟨fun _ => h.running hnodes hchild, fun hplain => ?_⟩
          simp [hne] at hplain
  | none =>
      rw [result_of_finished hresume]
      by_cases hproceeds : result = kind.proceeds
      · have hplain : (result != kind.proceeds || plainNodes task kind others none) =
            plainNodes task kind others none := by
          simp [hproceeds]
        rw [if_pos hproceeds, hplain]
        cases others with
        | nil =>
            have hlast : nodes.length = i + 1 := by simpa using hlength
            exact ⟨fun _ => h.ends hlast hresume hproceeds hchild, fun hfalse => nomatch hfalse⟩
        | cons next others =>
            rw [List.length_cons] at hlength
            exact h.proceeds (by omega) hresume hproceeds hchild
              (hothers (List.cons_ne_nil _ _))
      · rw [if_neg hproceeds]
        refine ⟨fun _ => ?_, fun hplain => ?_⟩
        · refine h.finishes hresume hresume (fun s => s.leave p) (fun last _ => alike_leave last p)
            (fun last htold => htold.idle_leave) (fun last htold => ?_) hchild
          rw [body_report_branch h.here, report_of_finished hresume, if_neg hproceeds]
          rfl
        · simp [hproceeds] at hplain

/-- A node that was made ready behaves as the semantics says. -/
def Follows (root : Tree L) (task : L → Outcome) (tree : Tree L) : Prop :=
  ∀ (p : Path) (resume : Option Path) (control : Control) (s : Fields),
    root.node? p = some tree → s.control p = some control → Ready s tree p resume →
      Behaves root task tree p control (.run p) s (tree.plain task resume) (tree.eval task resume)

theorem node?_child (hhere : root.node? p = some (.branch kind nodes))
    (hnodes : nodes[i]? = some child) : root.node? (p ++ [i]) = some child := by
  rw [Tree.node?_append hhere]
  simp [Tree.node?, hnodes]

/-- What follows from what the child does. -/
theorem Told.follows (h : Told root kind nodes p control i s) {others : List (Tree L)}
    (hdrop : nodes.drop i = child :: others) (resume : Option Path)
    (hchild : Behaves root task child (p ++ [i]) (.node p) method s (child.plain task resume)
      (child.eval task resume))
    (hothers : others ≠ [] → ∀ s, s.control p = some control → s.actualTask p = i + 1 + 1 →
      Idle s p → Behaves root task (.branch kind nodes) p control (.runNode p) s
        (plainNodes task kind others none) (evalNodes task kind others (i + 1) none)) :
    Behaves root task (.branch kind nodes) p control method s
      (child.plain task resume &&
        (child.eval task resume != kind.proceeds || plainNodes task kind others none))
      (kind.result i (child.eval task resume) (evalNodes task kind others (i + 1) none)) := by
  cases hplain : child.plain task resume with
  | true => exact h.behaves hdrop (hchild.1 hplain) hothers
  | false => exact ⟨fun hfalse => (by cases hfalse), fun _ => hchild.2 hplain⟩

/-- The children from this number on, one after the other. -/
theorem behaves_runNode (hhere : root.node? p = some (.branch kind nodes))
    (ih : ∀ node ∈ nodes, Follows root task node) {others : List (Tree L)} (hothers : others ≠ [])
    (hdrop : nodes.drop i = others) (hcontrol : s.control p = some control)
    (hnumber : s.actualTask p = i + 1) (hidle : Idle s p) :
    Behaves root task (.branch kind nodes) p control (.runNode p) s
      (plainNodes task kind others none) (evalNodes task kind others i none) := by
  induction others generalizing i s with
  | nil => exact absurd rfl hothers
  | cons child others more =>
      obtain ⟨hnodes, hrest, -⟩ := length_of_drop hdrop
      -- the child is put under this node and started
      generalize hput : ({ s with
        node := Function.update s.node p (some (p ++ [i])) } : Fields).setControl (p ++ [i])
          (.node p) = put
      have hputAlike : Alike p s put := by
        rw [← hput]
        exact (alike_node s p _).trans (alike_setControl _ p i _)
      have hputIdle : Idle put p := by
        rw [← hput]
        exact hidle
      obtain ⟨hstart, hrunning, hstarted⟩ :=
        start_spec child (s := put) (p := p ++ [i]) fun q hq => hputIdle q (prefix_of_child hq)
      have hbody : root.body task (.runNode p, s) =
          .calls (.run (p ++ [i]), child.start (p ++ [i]) put) id := by
        subst hput
        simp [Tree.body, hhere, branchRunNode, hidle p (List.prefix_refl p), hnumber, hnodes]
      have hstartIdle : Idle (child.start (p ++ [i]) put) p := by
        intro q hq
        rw [hrunning]
        exact hputIdle q hq
      have hback : (child.start (p ++ [i]) put).control (p ++ [i]) = some (.node p) := by
        rw [hstart.control _ (.inr rfl), ← hput, control_setControl]
      have hown : (child.start (p ++ [i]) put).node p = some (p ++ [i]) := by
        rw [hstart.node p not_child_below, ← hput]
        exact Function.update_self _ _ _
      have htold : Told root kind nodes p control i (child.start (p ++ [i]) put) := by
        refine ⟨hhere, ?_, hown, ?_, hback, ?_⟩
        · rw [hstart.control p (.inl not_child_below), hputAlike.control p (.inr rfl)]
          exact hcontrol
        · rw [hstart.actualTask p not_child_below, ← hput]
          exact hnumber
        · exact fun j _ q hq => hstartIdle q (prefix_of_child hq)
      have hmem : child ∈ nodes := List.mem_of_getElem? hnodes
      refine Behaves.of_calls hbody (hputAlike.trans hstart.of_child)
        (htold.follows hdrop none ?_ ?_)
      · exact ih child hmem _ none _ _ (node?_child hhere hnodes) hback
          ⟨fun q hq => hstartIdle q (prefix_of_child hq), hstarted⟩
      · exact fun hne s hs hnumber hidle => more hne hrest hs hnumber hidle

/-- The children before the one that is resumed are passed over. -/
theorem evalNodes_skip (task : L → Outcome) (kind : Composite) (nodes : List (Tree L)) (i n : Nat)
    (path : Path) :
    evalNodes task kind nodes n (some (i :: path)) =
        evalNodes task kind (nodes.drop i) (n + i) (some (0 :: path)) ∧
      plainNodes task kind nodes (some (i :: path)) =
        plainNodes task kind (nodes.drop i) (some (0 :: path)) := by
  induction i generalizing nodes n with
  | zero => exact ⟨rfl, rfl⟩
  | succ i ih =>
      cases nodes with
      | nil => simp [evalNodes, plainNodes]
      | cons node nodes =>
          obtain ⟨heval, hplain⟩ := ih nodes (n + 1)
          rw [List.drop_succ_cons]
          have hnumber : n + (i + 1) = n + 1 + i := by omega
          rw [hnumber]
          exact ⟨heval, hplain⟩

end

theorem follows_branch {kind : Composite} {nodes : List (Tree L)}
    (ih : ∀ node ∈ nodes, Follows root task node) : Follows root task (.branch kind nodes) := by
  intro p resume control s hhere hcontrol hready
  have hrun : root.body task (.run p, s) = branchRun nodes p s := by
    simp [Tree.body, hhere]
  cases resume with
  | none =>
      obtain ⟨hidle, hstarted⟩ := hready
      cases hstarted with
      | branch htask =>
        cases nodes with
        | nil =>
            -- a node without children returns, and reports nothing
            refine ⟨fun hfalse => (by cases hfalse), fun _ => ⟨.returned s, ?_, rfl⟩⟩
            refine returns_of_returns (hrun.trans ?_)
            simp [branchRun, htask]
        | cons node nodes =>
            have hcalls : root.body task (.run p, s) = .calls (.runNode p, s) id := by
              rw [hrun]
              simp [branchRun, htask]
            exact Behaves.of_calls hcalls (Alike.refl p s) (behaves_runNode (i := 0) hhere ih
              (List.cons_ne_nil _ _) rfl hcontrol htask hidle)
  | some path =>
      cases hready with
      | @branch _ _ node _ path i hself hown htask hback hothers hnodes hchild =>
        have hlt : i < nodes.length := (List.getElem?_eq_some_iff.mp hnodes).1
        have hdrop : nodes.drop i = node :: nodes.drop (i + 1) := by
          rw [List.drop_eq_getElem_cons hlt, (List.getElem?_eq_some_iff.mp hnodes).2]
        have htold : Told root kind nodes p control i s :=
          ⟨hhere, hcontrol, hown, htask, hback, hothers⟩
        have hcalls : root.body task (.run p, s) = .calls (.runNode p, s) id := by
          rw [hrun]
          exact if_pos (by rw [htask]; omega)
        have hcallsNode : root.body task (.runNode p, s) = .calls (.run (p ++ [i]), s) id := by
          simp [Tree.body, hhere, branchRunNode, hself, hown]
        have hbehaves := htold.follows hdrop (some path)
          (ih node (List.mem_of_getElem? hnodes) _ (some path) _ _ (node?_child hhere hnodes) hback
            hchild)
          fun hne s hs hnumber hidle => behaves_runNode hhere ih hne rfl hs hnumber hidle
        obtain ⟨heval, hplain⟩ := evalNodes_skip task kind nodes i 0 path
        have hnonempty : nodes.isEmpty = false := by
          cases nodes with
          | nil => cases hlt
          | cons node nodes => rfl
        unfold Tree.plain Tree.eval
        rw [heval, hplain, hnonempty, hdrop, Nat.zero_add]
        exact Behaves.of_calls hcalls (Alike.refl p s)
          (Behaves.of_calls hcallsNode (Alike.refl p s) hbehaves)

/-! ## Leaves and decorators -/

theorem follows_leaf (own : L) : Follows root task (.leaf own) := by
  intro p resume control s hhere hcontrol hready
  refine ⟨fun _ => ?_, fun hfalse => (by cases hfalse)⟩
  have hidle : Idle s p := by
    cases resume with
    | none => exact hready.1
    | some path =>
        cases hready with
        | leaf hidle => exact hidle
  have hrun : root.body task (.run p, s) = .calls (.report (task own) (.node p), s) id := by
    simp [Tree.body, hhere]
  have hreport : root.body task (.report (task own) (.node p), s) =
      .calls (.report ((Tree.leaf own).eval task resume).outcome control, s) id := by
    unfold Tree.eval
    cases hown : task own <;> simp [Tree.body, hhere, nodeReport, hcontrol, Outcome.result,
      Result.outcome]
  refine Reports.of_calls hrun (Alike.refl p s) (Reports.of_report [] hreport
    (fun ret => (map_resetAll_nil ret).symm) (Alike.refl p s) ?_ fun q hq => nomatch hq)
  unfold Tree.eval
  cases task own with
  | success => exact hidle
  | fail => exact hidle
  | running => exact Paused.leaf hidle

theorem result_resume (kind : Decorator) (hresult : result.resume = none) :
    (kind.result result).resume = none := by
  cases result with
  | running path => cases hresult
  | success => cases kind <;> rfl
  | fail => cases kind <;> rfl

theorem decorator_report (kind : Decorator) (hresult : result.resume = none) (p : Path)
    (s : Fields) :
    kind.report p result.outcome s = tellControl p (kind.result result).outcome s id := by
  cases result with
  | running path => cases hresult
  | success => cases kind <;> rfl
  | fail => cases kind <;> rfl

/-- The child of a decorator is ready when the decorator is. -/
theorem Ready.decorator {kind : Decorator} {node : Tree L} {resume : Option Path}
    (h : Ready s (.decorator kind node) p resume) :
    s.nodeRunning p = false ∧ s.control (p ++ [0]) = some (.node p) ∧ OthersIdle s p 0 ∧
      Ready s node (p ++ [0]) (resume.map List.tail) := by
  cases resume with
  | none =>
      obtain ⟨hidle, hstarted⟩ := h
      obtain ⟨hself, hchildren⟩ := idle_iff.mp hidle
      cases hstarted with
      | decorator hcontrol hchild =>
        exact ⟨hself, hcontrol, fun j _ => hchildren j, hchildren 0, hchild⟩
  | some path =>
      cases h with
      | decorator hself hcontrol hothers hchild => exact ⟨hself, hcontrol, hothers, hchild⟩

/-- A decorator passes the report of its child on, as it is or as another one. -/
theorem Reports.pass {final : Result}
    (h : Reports root task child (p ++ [0]) (.node p) method s result)
    (hfinal : ∀ last, Alike (p ++ [0]) s last → Rests last child (p ++ [0]) result.resume →
      Rests last tree p final.resume ∧ ∃ rest, (∀ ret, rest ret = ret) ∧
        root.body task (.report result.outcome (.node p), last) =
          .calls (.report final.outcome control, last) rest) :
    Reports root task tree p control method s final := by
  refine h.trans fun last hlast hrests => ?_
  obtain ⟨hfinalRests, rest, hrest, hcalls⟩ := hfinal last hlast hrests
  refine ⟨last, [], Alike.refl p last, hfinalRests, fun q hq => (nomatch hq),
    fun q _ hidle => hidle, fun ret hret => ?_⟩
  have hcall := returns_of_calls hcalls hret
  rw [hrest] at hcall
  rw [map_resetAll_nil]
  exact hcall

/-- A decorator whose own child has reported. -/
theorem decorator_behaves {kind : Decorator} {node : Tree L}
    (hhere : root.node? p = some (.decorator kind node)) (hcontrol : s.control p = some control)
    (hself : s.nodeRunning p = false) (hback : s.control (p ++ [0]) = some (.node p))
    (hothers : OthersIdle s p 0)
    (hchild : Reports root task node (p ++ [0]) (.node p) method s result) :
    Behaves root task (.decorator kind node) p control method s
      (!(decide (kind = .inverter) && decide (result.outcome = .running)))
      (kind.result result) := by
  have hreport : ∀ outcome last,
      root.body task (.report outcome (.node p), last) = kind.report p outcome last := by
    intro outcome last
    simp [Tree.body, hhere]
  have hlastControl : ∀ last, Alike (p ++ [0]) s last → last.control p = some control :=
    fun last hlast => (hlast.control p (.inl not_child_below)).trans hcontrol
  have hlastSelf : ∀ last, Alike (p ++ [0]) s last → last.nodeRunning p = false :=
    fun last hlast => (hlast.nodeRunning p not_child_below).trans hself
  cases hresume : result.resume with
  | none =>
      refine ⟨fun _ => hchild.pass fun last hlast hrests => ?_, fun hfalse => ?_⟩
      · rw [hresume] at hrests
        rw [result_resume kind hresume]
        refine ⟨idle_iff.mpr ⟨hlastSelf last hlast, fun j => ?_⟩, Return.map id, ?_, ?_⟩
        · by_cases hj : j = 0
          · subst hj
            exact hrests
          · exact hothers.alike hlast j hj
        · intro ret
          cases ret <;> rfl
        · rw [hreport, decorator_report kind hresume, tellControl_eq (hlastControl last hlast)]
      · cases result with
        | running path => cases hresume
        | success => simp [Result.outcome] at hfalse
        | fail => simp [Result.outcome] at hfalse
  | some path =>
      cases result with
      | success => cases hresume
      | fail => cases hresume
      | running path =>
        by_cases hkind : kind = .inverter
        · -- the inverter raises an error
          subst hkind
          refine ⟨fun htrue => (nomatch htrue), fun _ => hchild.stalls fun last _ _ => ?_⟩
          exact ⟨_, returns_of_returns (hreport _ last), rfl⟩
        · refine ⟨fun _ => hchild.pass fun last hlast hrests => ?_, fun hfalse => ?_⟩
          · have hresult : kind.result (.running path) = .running (0 :: path) := by
              cases kind <;> rfl
            have hnode : kind.report p .running last = nodeReport p .running last := by
              cases kind with
              | inverter => exact absurd rfl hkind
              | succeeder => rfl
              | failer => rfl
            rw [hresult]
            refine ⟨Paused.decorator (hlastSelf last hlast) ?_ (hothers.alike hlast) hrests, id,
              fun _ => rfl, ?_⟩
            · exact (hlast.control _ (.inr rfl)).trans hback
            · refine ((hreport _ last).trans hnode).trans ?_
              simp [nodeReport, hlastControl last hlast, Result.outcome]
          · simp [hkind] at hfalse

theorem follows_decorator {kind : Decorator} {node : Tree L} (ih : Follows root task node) :
    Follows root task (.decorator kind node) := by
  intro p resume control s hhere hcontrol hready
  obtain ⟨hself, hback, hothers, hchildReady⟩ := hready.decorator
  have hchildHere : root.node? (p ++ [0]) = some node := by
    rw [Tree.node?_append hhere]
    rfl
  have hrun : root.body task (.run p, s) = .calls (.run (p ++ [0]), s) id := by
    simp [Tree.body, hhere]
  have hchild := ih (p ++ [0]) (resume.map List.tail) (.node p) s hchildHere hback hchildReady
  refine Behaves.of_calls hrun (Alike.refl p s) ?_
  show Behaves root task _ p control _ s (node.plain task (resume.map List.tail) && _) _
  cases hplain : node.plain task (resume.map List.tail) with
  | false => exact ⟨fun hfalse => (by cases hfalse), fun _ => hchild.2 hplain⟩
  | true => exact decorator_behaves hhere hcontrol hself hback hothers (hchild.1 hplain)

/-- Every node of the tree behaves as the semantics says. -/
theorem follows (root : Tree L) (task : L → Outcome) (tree : Tree L) : Follows root task tree := by
  induction tree using Tree.induction with
  | leaf own => exact follows_leaf own
  | branch kind nodes ih => exact follows_branch ih
  | decorator kind node ih => exact follows_decorator ih

/-! ## Ticks -/

/-- `BehaviourTree` makes its root ready. -/
theorem ready_root {tree : Tree L} {resume : Option Path} (h : Rests s tree [] resume) :
    let ready := tree.start [] ({ s with started := true, outcomes := [] }.setControl []
      .behaviourTree)
    Ready ready tree [] resume ∧ ready.control [] = some .behaviourTree ∧ ready.outcomes = [] := by
  intro ready
  unfold ready
  generalize hput : ({ s with started := true, outcomes := [] } : Fields).setControl []
    .behaviourTree = put
  have hcontrol : put.control [] = some .behaviourTree := by
    rw [← hput, control_setControl]
  have houtcomes : put.outcomes = [] := by
    rw [← hput]
    rfl
  cases resume with
  | none =>
      have hidle : Idle put [] := by
        rw [← hput]
        exact h
      obtain ⟨halike, hrunning, hstarted⟩ := start_spec tree hidle
      refine ⟨⟨fun q hq => ?_, hstarted⟩, ?_, halike.outcomes.trans houtcomes⟩
      · rw [hrunning]
        exact hidle q hq
      · exact (halike.control [] (.inr rfl)).trans hcontrol
  | some path =>
      have hpaused : Paused put tree [] path := by
        rw [← hput]
        exact Paused.congr h (fun _ _ => rfl) (fun _ _ => rfl) (fun _ _ _ => rfl)
          fun q _ hq => Function.update_of_ne hq _ _
      rw [hpaused.start]
      exact ⟨hpaused, hcontrol, houtcomes⟩

theorem tick_eq (tree : Tree L) (task : L → Outcome) (hstarted : s.started = false)
    (depth : Nat) :
    tree.tick depth task s = perform (tree.body task) depth (.run [],
      tree.start [] ({ s with started := true, outcomes := [] }.setControl [] .behaviourTree)) := by
  simp [Tree.tick, hstarted]

/-- A plain tick tells the result, and leaves the tree where the semantics resumes. -/
theorem tick_plain {tree : Tree L} {resume : Option Path} (h : Rests s tree [] resume)
    (hstarted : s.started = false) (hplain : tree.plain task resume = true) :
    ∃ next, Rests next tree [] (tree.eval task resume).resume ∧ next.started = false ∧
      next.outcomes = [(tree.eval task resume).outcome] ∧
      ∃ bound, ∀ depth ≥ bound, tree.tick depth task s = some (.returned next) := by
  obtain ⟨hready, hcontrol, houtcomes⟩ := ready_root h
  obtain ⟨last, paths, hlast, hrests, hpaths, hreturns⟩ :=
    (follows tree task tree [] resume .behaviourTree _ rfl hcontrol hready).1 hplain
  obtain ⟨told, htold⟩ : ∃ told : Fields, told = { last with
      started := false
      outcomes := last.outcomes ++ [(tree.eval task resume).outcome] } := ⟨_, rfl⟩
  have hreport : tree.body task (.report (tree.eval task resume).outcome .behaviourTree, last) =
      .returns (.returned told) := by
    rw [htold]
    rfl
  obtain ⟨bound, hbound⟩ := (hreturns _ (returns_of_returns hreport)).eventually
  obtain ⟨actualTask, hreset, -⟩ := Fields.resetAll_spec paths told
  have htoldRests : Rests told tree [] (tree.eval task resume).resume := by
    rw [htold]
    cases hresume : (tree.eval task resume).resume with
    | none =>
        rw [hresume] at hrests
        exact hrests
    | some path =>
        rw [hresume] at hrests
        exact Paused.congr hrests (fun _ _ => rfl) (fun _ _ => rfl) (fun _ _ _ => rfl)
          fun _ _ _ => rfl
  refine ⟨told.resetAll paths, htoldRests.resetAll fun q hq => ?_, ?_, ?_, bound, ?_⟩
  · rw [htold]
    exact (hpaths q hq).2
  · rw [hreset, htold]
  · rw [hreset, htold]
    show last.outcomes ++ _ = _
    rw [hlast.outcomes, houtcomes, List.nil_append]
  · intro depth hle
    rw [tick_eq tree task hstarted]
    exact hbound depth hle

/-- Any other tick tells nothing. -/
theorem tick_stalls {tree : Tree L} {resume : Option Path} (h : Rests s tree [] resume)
    (hstarted : s.started = false) (hplain : tree.plain task resume = false) :
    ∃ ret, ret.fields.outcomes = [] ∧
      ∃ bound, ∀ depth ≥ bound, tree.tick depth task s = some ret := by
  obtain ⟨hready, hcontrol, houtcomes⟩ := ready_root h
  obtain ⟨ret, hreturns, hsame⟩ :=
    (follows tree task tree [] resume .behaviourTree _ rfl hcontrol hready).2 hplain
  obtain ⟨bound, hbound⟩ := hreturns.eventually
  refine ⟨ret, hsame.trans houtcomes, bound, fun depth hle => ?_⟩
  rw [tick_eq tree task hstarted]
  exact hbound depth hle

theorem ticks_iff_of_rests (tree : Tree L) (tasks : List (L → Outcome)) {resume : Option Path}
    (h : Rests s tree [] resume) (hstarted : s.started = false) :
    (∃ bound, ∀ depth ≥ bound, tree.ticks depth tasks s =
      (tree.standard tasks resume).map fun outcome => [outcome]) ↔
      tree.plainTicks tasks resume = true := by
  induction tasks generalizing s resume with
  | nil => exact ⟨fun _ => rfl, fun _ => ⟨0, fun _ _ => rfl⟩⟩
  | cons task tasks ih =>
      unfold Tree.plainTicks Tree.standard
      cases hplain : tree.plain task resume with
      | true =>
          obtain ⟨next, hnext, hnotStarted, houtcomes, first, hfirst⟩ :=
            tick_plain h hstarted hplain
          have hticks : ∀ depth ≥ first, tree.ticks depth (task :: tasks) s =
              [(tree.eval task resume).outcome] :: tree.ticks depth tasks next := by
            intro depth hle
            simp [Tree.ticks, hfirst depth hle, Return.fields, houtcomes]
          rw [Bool.true_and, ← ih hnext hnotStarted]
          constructor
          · rintro ⟨bound, hbound⟩
            refine ⟨max first bound, fun depth hle => ?_⟩
            have htick := hbound depth (le_trans (Nat.le_max_right _ _) hle)
            rw [hticks depth (le_trans (Nat.le_max_left _ _) hle), List.map_cons] at htick
            exact (List.cons.inj htick).2
          · rintro ⟨bound, hbound⟩
            refine ⟨max first bound, fun depth hle => ?_⟩
            rw [hticks depth (le_trans (Nat.le_max_left _ _) hle),
              hbound depth (le_trans (Nat.le_max_right _ _) hle), List.map_cons]
      | false =>
          -- the first tick that is not plain tells nothing
          obtain ⟨ret, hnothing, first, hfirst⟩ := tick_stalls h hstarted hplain
          refine ⟨?_, fun hfalse => (by cases hfalse)⟩
          rintro ⟨bound, hbound⟩
          have htick := hbound (max first bound) (Nat.le_max_right _ _)
          simp [Tree.ticks, hfirst _ (Nat.le_max_left first bound), hnothing] at htick

/-- The `BehaviourTree` is told the outcomes of the standard semantics, one in each
tick, exactly when every tick is plain: no branch node without children is
reached, and no inverter whose child is running. -/
theorem Tree.ticks_iff (tree : Tree L) (tasks : List (L → Outcome)) :
    (∃ bound, ∀ depth ≥ bound, tree.ticks depth tasks .new =
      (tree.standard tasks none).map fun outcome => [outcome]) ↔
      tree.plainTicks tasks none = true :=
  ticks_iff_of_rests tree tasks (fun _ _ => rfl) rfl

/-- A tick in which the task of an inverter is running. -/
theorem not_ticks_invertedRunning :
    ¬ ∀ (tree : Tree Nat) (tasks : List (Nat → Outcome)), ∃ bound, ∀ depth ≥ bound,
      tree.ticks depth tasks .new =
        (tree.standard tasks none).map fun outcome => [outcome] := by
  intro h
  obtain ⟨bound, hbound⟩ := h (.decorator .inverter (.leaf 0)) [fun _ => .running]
  have htick := hbound (bound + 4) (Nat.le_add_right _ _)
  simp [Tree.ticks, Tree.tick, perform, Tree.body, Tree.node?, Tree.start, Fields.new,
    Fields.setControl, nodeReport, Decorator.report, Return.fields, Tree.standard, Tree.eval,
    Outcome.result, Decorator.result, Result.outcome] at htick

end Client
end ArmyRs
