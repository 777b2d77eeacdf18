import Mathlib.Data.List.Infix
import ArmyRs.Client.TreeSemantics

/-!
# The calls of a behaviour tree

Between ticks the nodes that are running are those above one leaf, each with the
child on the way to it (`Paused`).  A node that was told to run reports its
result to its control, and what it has to do after that call only concerns nodes
which are not running any more (`Reports`).  Otherwise the chain of calls ends,
and the `BehaviourTree` is told nothing (`Stalls`).
-/

namespace ArmyRs
namespace Client

open Foundation

variable {L : Type*} {s next last : Fields}

/-! ## Trees and paths -/

/-- Induction over a tree, with the children of a branch node as a list. -/
theorem Tree.induction {motive : Tree L → Prop} (leaf : ∀ task, motive (.leaf task))
    (branch : ∀ kind nodes, (∀ node ∈ nodes, motive node) → motive (.branch kind nodes))
    (decorator : ∀ kind node, motive node → motive (.decorator kind node)) :
    ∀ tree, motive tree
  | .leaf task => leaf task
  | .branch kind nodes =>
      branch kind nodes fun node _ => Tree.induction leaf branch decorator node
  | .decorator kind node => decorator kind node (Tree.induction leaf branch decorator node)
termination_by tree => sizeOf tree

theorem Tree.node?_append {tree node : Tree L} {path rest : Path}
    (h : tree.node? path = some node) : tree.node? (path ++ rest) = node.node? rest := by
  induction path generalizing tree with
  | nil =>
      cases h
      rfl
  | cons i path ih =>
      cases tree with
      | leaf task => cases h
      | branch kind nodes =>
          cases hchild : nodes[i]? with
          | none => simp [Tree.node?, hchild] at h
          | some child =>
              simp only [Tree.node?, hchild, List.cons_append] at h ⊢
              exact ih h
      | decorator kind child =>
          by_cases hzero : i = 0
          · simp only [Tree.node?, hzero, if_true, List.cons_append] at h ⊢
            exact ih h
          · simp [Tree.node?, hzero] at h

/-- A path leads into one child. -/
theorem eq_of_below {p q : Path} {i j : Nat} (hi : p ++ [i] <+: q) (hj : p ++ [j] <+: q) :
    i = j := by
  obtain ⟨rest, rfl⟩ := hi
  obtain ⟨other, heq⟩ := hj
  simp only [List.append_assoc, List.append_cancel_left_eq, List.singleton_append,
    List.cons.injEq] at heq
  exact heq.1.symm

theorem prefix_of_child {p q : Path} {i : Nat} (h : p ++ [i] <+: q) : p <+: q :=
  (List.prefix_append p [i]).trans h

theorem ne_of_child {p q : Path} {i : Nat} (h : p ++ [i] <+: q) : q ≠ p := by
  rintro rfl
  have hle := h.length_le
  rw [List.length_append, List.length_singleton] at hle
  omega

theorem ne_of_not_below {p q : Path} (h : ¬ p <+: q) : q ≠ p := by
  rintro rfl
  exact h (List.prefix_refl q)

/-! ## Nodes at rest -/

/-- No node from here on is running. -/
def Idle (s : Fields) (p : Path) : Prop :=
  ∀ q, p <+: q → s.nodeRunning q = false

def OthersIdle (s : Fields) (p : Path) (i : Nat) : Prop :=
  ∀ j, j ≠ i → Idle s (p ++ [j])

theorem idle_iff {p : Path} :
    Idle s p ↔ s.nodeRunning p = false ∧ ∀ i, Idle s (p ++ [i]) := by
  constructor
  · exact fun h => ⟨h p (List.prefix_refl p), fun i q hq => h q (prefix_of_child hq)⟩
  · rintro ⟨hself, hchildren⟩ q ⟨rest, rfl⟩
    cases rest with
    | nil =>
        rw [List.append_nil]
        exact hself
    | cons i rest => exact hchildren i _ ⟨rest, by simp⟩

/-- The nodes above one leaf are running, and know the way to it. -/
inductive Paused (s : Fields) : Tree L → Path → Path → Prop
  | leaf {task : L} {p : Path} (hidle : Idle s p) : Paused s (.leaf task) p []
  | branch {kind : Composite} {nodes : List (Tree L)} {node : Tree L} {p path : Path} {i : Nat}
      (hself : s.nodeRunning p = true) (hnode : s.node p = some (p ++ [i]))
      (htask : s.actualTask p = i + 1) (hcontrol : s.control (p ++ [i]) = some (.node p))
      (hothers : OthersIdle s p i) (hnodes : nodes[i]? = some node)
      (hchild : Paused s node (p ++ [i]) path) : Paused s (.branch kind nodes) p (i :: path)
  | decorator {kind : Decorator} {node : Tree L} {p path : Path}
      (hself : s.nodeRunning p = false) (hcontrol : s.control (p ++ [0]) = some (.node p))
      (hothers : OthersIdle s p 0) (hchild : Paused s node (p ++ [0]) path) :
      Paused s (.decorator kind node) p (0 :: path)

/-- What `start` does to nodes that are not running. -/
inductive Started (s : Fields) : Tree L → Path → Prop
  | leaf {task : L} {p : Path} : Started s (.leaf task) p
  | branch {kind : Composite} {nodes : List (Tree L)} {p : Path} (htask : s.actualTask p = 1) :
      Started s (.branch kind nodes) p
  | decorator {kind : Decorator} {node : Tree L} {p : Path}
      (hcontrol : s.control (p ++ [0]) = some (.node p)) (hchild : Started s node (p ++ [0])) :
      Started s (.decorator kind node) p

/-- Between ticks. -/
def Rests (s : Fields) (tree : Tree L) (p : Path) : Option Path → Prop
  | none => Idle s p
  | some path => Paused s tree p path

/-- Before `run`. -/
def Ready (s : Fields) (tree : Tree L) (p : Path) : Option Path → Prop
  | none => Idle s p ∧ Started s tree p
  | some path => Paused s tree p path

/-- Only what is read of the nodes from here on matters. -/
theorem Paused.congr {tree : Tree L} {p path : Path} (h : Paused s tree p path)
    (hrunning : ∀ q, p <+: q → next.nodeRunning q = s.nodeRunning q)
    (hnode : ∀ q, p <+: q → next.node q = s.node q)
    (htask : ∀ q, p <+: q → s.nodeRunning q = true → next.actualTask q = s.actualTask q)
    (hcontrol : ∀ q, p <+: q → q ≠ p → next.control q = s.control q) :
    Paused next tree p path := by
  induction h with
  | leaf hidle =>
      refine .leaf fun q hq => ?_
      rw [hrunning q hq]
      exact hidle q hq
  | @branch kind nodes node p path i hself hown hnumber hback hothers hnodes hchild ih =>
      have hp := List.prefix_refl p
      have hsub : ∀ q, p ++ [i] <+: q → p <+: q := fun q => prefix_of_child
      refine .branch ?_ ?_ ?_ ?_ ?_ hnodes (ih ?_ ?_ ?_ ?_)
      · rw [hrunning p hp]
        exact hself
      · rw [hnode p hp]
        exact hown
      · rw [htask p hp hself]
        exact hnumber
      · rw [hcontrol _ (List.prefix_append _ _) (ne_of_child (List.prefix_refl _))]
        exact hback
      · intro j hj q hq
        rw [hrunning q (prefix_of_child hq)]
        exact hothers j hj q hq
      · exact fun q hq => hrunning q (hsub q hq)
      · exact fun q hq => hnode q (hsub q hq)
      · exact fun q hq => htask q (hsub q hq)
      · exact fun q hq _ => hcontrol q (hsub q hq) (ne_of_child hq)
  | @decorator kind node p path hself hback hothers hchild ih =>
      have hp := List.prefix_refl p
      have hsub : ∀ q, p ++ [0] <+: q → p <+: q := fun q => prefix_of_child
      refine .decorator ?_ ?_ ?_ (ih ?_ ?_ ?_ ?_)
      · rw [hrunning p hp]
        exact hself
      · rw [hcontrol _ (List.prefix_append _ _) (ne_of_child (List.prefix_refl _))]
        exact hback
      · intro j hj q hq
        rw [hrunning q (prefix_of_child hq)]
        exact hothers j hj q hq
      · exact fun q hq => hrunning q (hsub q hq)
      · exact fun q hq => hnode q (hsub q hq)
      · exact fun q hq => htask q (hsub q hq)
      · exact fun q hq _ => hcontrol q (hsub q hq) (ne_of_child hq)

/-- Nodes that are started already stay as they are. -/
theorem Paused.start {tree : Tree L} {p path : Path} (h : Paused s tree p path) :
    tree.start p s = s := by
  induction h with
  | leaf hidle => rfl
  | branch hself =>
      unfold Tree.start
      rw [if_pos hself]
  | @decorator kind node p path hself hback hothers hchild ih =>
      have hsame : s.setControl (p ++ [0]) (.node p) = s := by
        unfold Fields.setControl
        rw [← hback, Function.update_eq_self]
      unfold Tree.start
      rw [hsame]
      exact ih

/-! ## What stays as it is -/

/-- Only the nodes from here on have changed, and the one here has the control it
had. -/
structure Alike (p : Path) (s next : Fields) : Prop where
  started : next.started = s.started
  outcomes : next.outcomes = s.outcomes
  nodeRunning : ∀ q, ¬ p <+: q → next.nodeRunning q = s.nodeRunning q
  node : ∀ q, ¬ p <+: q → next.node q = s.node q
  actualTask : ∀ q, ¬ p <+: q → next.actualTask q = s.actualTask q
  control : ∀ q, ¬ p <+: q ∨ q = p → next.control q = s.control q

section

variable {p : Path} {i : Nat}

theorem Alike.refl (p : Path) (s : Fields) : Alike p s s :=
  ⟨rfl, rfl, fun _ _ => rfl, fun _ _ => rfl, fun _ _ => rfl, fun _ _ => rfl⟩

theorem Alike.trans (h : Alike p s next) (hnext : Alike p next last) : Alike p s last where
  started := hnext.started.trans h.started
  outcomes := hnext.outcomes.trans h.outcomes
  nodeRunning := fun q hq => (hnext.nodeRunning q hq).trans (h.nodeRunning q hq)
  node := fun q hq => (hnext.node q hq).trans (h.node q hq)
  actualTask := fun q hq => (hnext.actualTask q hq).trans (h.actualTask q hq)
  control := fun q hq => (hnext.control q hq).trans (h.control q hq)

theorem not_child_below : ¬ p ++ [i] <+: p := fun h => ne_of_child h rfl

/-- What changes in a child changes here. -/
theorem Alike.of_child (h : Alike (p ++ [i]) s next) : Alike p s next where
  started := h.started
  outcomes := h.outcomes
  nodeRunning := fun q hq => h.nodeRunning q fun hchild => hq (prefix_of_child hchild)
  node := fun q hq => h.node q fun hchild => hq (prefix_of_child hchild)
  actualTask := fun q hq => h.actualTask q fun hchild => hq (prefix_of_child hchild)
  control := by
    intro q hq
    refine h.control q (.inl ?_)
    rcases hq with hq | rfl
    · exact fun hchild => hq (prefix_of_child hchild)
    · exact not_child_below

theorem OthersIdle.alike (hothers : OthersIdle s p i) (h : Alike (p ++ [i]) s next) :
    OthersIdle next p i := by
  intro j hj q hq
  rw [h.nodeRunning q fun hi => hj (eq_of_below hq hi)]
  exact hothers j hj q hq

end

theorem alike_leave (s : Fields) (p : Path) : Alike p s (s.leave p) :=
  ⟨rfl, rfl, fun _ hq => Function.update_of_ne (ne_of_not_below hq) _ _,
    fun _ hq => Function.update_of_ne (ne_of_not_below hq) _ _, fun _ _ => rfl, fun _ _ => rfl⟩

theorem alike_advance (s : Fields) (p : Path) : Alike p s (s.advance p) :=
  ⟨rfl, rfl, fun _ _ => rfl, fun _ _ => rfl,
    fun _ hq => Function.update_of_ne (ne_of_not_below hq) _ _, fun _ _ => rfl⟩

theorem alike_nodeRunning (s : Fields) (p : Path) (value : Bool) :
    Alike p s { s with nodeRunning := Function.update s.nodeRunning p value } := by
  exact ⟨rfl, rfl, fun _ hq => Function.update_of_ne (ne_of_not_below hq) _ _, fun _ _ => rfl,
    fun _ _ => rfl, fun _ _ => rfl⟩

theorem alike_node (s : Fields) (p : Path) (value : Option Path) :
    Alike p s { s with node := Function.update s.node p value } := by
  exact ⟨rfl, rfl, fun _ _ => rfl, fun _ hq => Function.update_of_ne (ne_of_not_below hq) _ _,
    fun _ _ => rfl, fun _ _ => rfl⟩

@[simp] theorem control_setControl (s : Fields) (p : Path) (control : Control) :
    (s.setControl p control).control p = some control := by
  simp [Fields.setControl]

theorem alike_setControl (s : Fields) (p : Path) (i : Nat) (control : Control) :
    Alike p s (s.setControl (p ++ [i]) control) := by
  refine ⟨rfl, rfl, fun _ _ => rfl, fun _ _ => rfl, fun _ _ => rfl, ?_⟩
  intro q hq
  refine Function.update_of_ne ?_ _ _
  rintro rfl
  rcases hq with hq | hq
  · exact hq (List.prefix_append _ _)
  · exact ne_of_child (List.prefix_refl _) hq

/-- Nodes that are not running are started. -/
theorem start_spec (tree : Tree L) {p : Path} (hidle : Idle s p) :
    Alike p s (tree.start p s) ∧ (tree.start p s).nodeRunning = s.nodeRunning ∧
      Started (tree.start p s) tree p := by
  induction tree using Tree.induction generalizing p s with
  | leaf task => exact ⟨Alike.refl p s, rfl, .leaf⟩
  | branch kind nodes ih =>
      have hself : ¬ s.nodeRunning p = true := by simp [hidle p (List.prefix_refl p)]
      unfold Tree.start
      rw [if_neg hself]
      refine ⟨⟨rfl, rfl, fun _ _ => rfl, fun _ _ => rfl, ?_, fun _ _ => rfl⟩, rfl, .branch ?_⟩
      · exact fun _ hq => Function.update_of_ne (ne_of_not_below hq) _ _
      · exact Function.update_self _ _ _
  | decorator kind node ih =>
      unfold Tree.start
      obtain ⟨halike, hrunning, hstarted⟩ :=
        ih (s := s.setControl (p ++ [0]) (.node p)) (p := p ++ [0]) fun q hq =>
          hidle q (prefix_of_child hq)
      refine ⟨(alike_setControl s p 0 (.node p)).trans halike.of_child, hrunning,
        .decorator ?_ hstarted⟩
      rw [halike.control _ (.inr rfl), control_setControl]

/-! ## What follows a call -/

namespace Fields

def resetAll (s : Fields) (paths : List Path) : Fields :=
  paths.foldl resetActualTask s

/-- Only the `actualTask` of these nodes changes. -/
theorem resetAll_spec (paths : List Path) (s : Fields) :
    ∃ actualTask, s.resetAll paths = { s with actualTask := actualTask } ∧
      ∀ q ∉ paths, actualTask q = s.actualTask q := by
  induction paths generalizing s with
  | nil => exact ⟨s.actualTask, rfl, fun _ _ => rfl⟩
  | cons path paths ih =>
      obtain ⟨actualTask, heq, hrest⟩ := ih (s.resetActualTask path)
      refine ⟨actualTask, heq, fun q hq => ?_⟩
      rw [List.mem_cons, not_or] at hq
      rw [hrest q hq.2]
      exact Function.update_of_ne hq.1 _ _

end Fields

theorem map_resetAll_nil (ret : Return) : ret.map (fun s => s.resetAll []) = ret := by
  cases ret with
  | returned s => rfl
  | raised s => rfl

theorem map_resetAll_append (ret : Return) (paths others : List Path) :
    (ret.map fun s => s.resetAll paths).map (fun s => s.resetAll others) =
      ret.map fun s => s.resetAll (paths ++ others) := by
  cases ret with
  | returned s => simp [Return.map, Fields.resetAll]
  | raised s => rfl

theorem outcomes_map_resetAll (ret : Return) (paths : List Path) :
    (ret.map fun s => s.resetAll paths).fields.outcomes = ret.fields.outcomes := by
  cases ret with
  | returned s =>
      obtain ⟨actualTask, heq, -⟩ := Fields.resetAll_spec paths s
      simp [Return.map, Return.fields, heq]
  | raised s => rfl

/-- Nodes that are not running may be reset. -/
theorem Rests.resetAll {tree : Tree L} {p : Path} {resume : Option Path}
    (h : Rests s tree p resume) {paths : List Path}
    (hpaths : ∀ q ∈ paths, s.nodeRunning q = false) : Rests (s.resetAll paths) tree p resume := by
  obtain ⟨actualTask, heq, hrest⟩ := Fields.resetAll_spec paths s
  rw [heq]
  cases resume with
  | none => exact h
  | some path =>
      refine Paused.congr h (fun _ _ => rfl) (fun _ _ => rfl) ?_ fun _ _ _ => rfl
      intro q _ hrunning
      refine hrest q fun hq => ?_
      rw [hpaths q hq] at hrunning
      cases hrunning

/-- The call ends in a report of the result to the control; what follows the
report resets nodes that are not running. -/
def Reports (root : Tree L) (task : L → Outcome) (tree : Tree L) (p : Path) (control : Control)
    (method : Method) (s : Fields) (result : Result) : Prop :=
  ∃ last paths, Alike p s last ∧ Rests last tree p result.resume ∧
    (∀ q ∈ paths, p <+: q ∧ last.nodeRunning q = false) ∧
    ∀ ret, Returns (root.body task) (.report result.outcome control, last) ret →
      Returns (root.body task) (method, s) (ret.map fun s => s.resetAll paths)

/-- The call ends, and the `BehaviourTree` was told nothing. -/
def Stalls (root : Tree L) (task : L → Outcome) (method : Method) (s : Fields) : Prop :=
  ∃ ret, Returns (root.body task) (method, s) ret ∧ ret.fields.outcomes = s.outcomes

/-- A plain call reports its result, and another one stalls. -/
def Behaves (root : Tree L) (task : L → Outcome) (tree : Tree L) (p : Path) (control : Control)
    (method : Method) (s : Fields) (plain : Bool) (result : Result) : Prop :=
  (plain = true → Reports root task tree p control method s result) ∧
    (plain = false → Stalls root task method s)

variable {root : Tree L} {task : L → Outcome} {tree child : Tree L} {p : Path} {control : Control}
  {method inner : Method} {result : Result} {plain : Bool}

theorem Reports.of_calls (hbody : root.body task (method, s) = .calls (inner, next) id)
    (halike : Alike p s next) (h : Reports root task tree p control inner next result) :
    Reports root task tree p control method s result := by
  obtain ⟨last, paths, hlast, hrests, hpaths, hreturns⟩ := h
  refine ⟨last, paths, halike.trans hlast, hrests, hpaths, fun ret hret => ?_⟩
  have hcall := returns_of_calls hbody (hreturns ret hret)
  exact hcall

theorem Stalls.of_calls (hbody : root.body task (method, s) = .calls (inner, next) id)
    (houtcomes : next.outcomes = s.outcomes) (h : Stalls root task inner next) :
    Stalls root task method s := by
  obtain ⟨ret, hret, hsame⟩ := h
  exact ⟨ret, returns_of_calls hbody hret, hsame.trans houtcomes⟩

theorem Behaves.of_calls (hbody : root.body task (method, s) = .calls (inner, next) id)
    (halike : Alike p s next) (h : Behaves root task tree p control inner next plain result) :
    Behaves root task tree p control method s plain result :=
  ⟨fun hplain => (h.1 hplain).of_calls hbody halike,
    fun hplain => (h.2 hplain).of_calls hbody halike.outcomes⟩

/-- The report is the next call. -/
theorem Reports.of_report (paths : List Path) {rest : Return → Return}
    (hbody : root.body task (method, s) = .calls (.report result.outcome control, last) rest)
    (hrest : ∀ ret, rest ret = ret.map fun s => s.resetAll paths) (halike : Alike p s last)
    (hrests : Rests last tree p result.resume)
    (hpaths : ∀ q ∈ paths, p <+: q ∧ last.nodeRunning q = false) :
    Reports root task tree p control method s result := by
  refine ⟨last, paths, halike, hrests, hpaths, fun ret hret => ?_⟩
  rw [← hrest]
  exact returns_of_calls hbody hret

/-- What a child reports to a node that stalls. -/
theorem Reports.stalls {q : Path} (h : Reports root task child q (.node p) method s result)
    (hstalls : ∀ last, Alike q s last → Rests last child q result.resume →
      Stalls root task (.report result.outcome (.node p)) last) : Stalls root task method s := by
  obtain ⟨last, paths, hlast, hrests, -, hreturns⟩ := h
  obtain ⟨ret, hret, hsame⟩ := hstalls last hlast hrests
  refine ⟨_, hreturns ret hret, ?_⟩
  rw [outcomes_map_resetAll]
  exact hsame.trans hlast.outcomes

/-- A child reports to a node that reports in turn, and leaves the nodes of the
child that are not running. -/
theorem Reports.trans {i : Nat} {final : Result}
    (h : Reports root task child (p ++ [i]) (.node p) method s result)
    (hnext : ∀ last, Alike (p ++ [i]) s last → Rests last child (p ++ [i]) result.resume →
      ∃ later others, Alike p last later ∧ Rests later tree p final.resume ∧
        (∀ q ∈ others, p <+: q ∧ later.nodeRunning q = false) ∧
        (∀ q, p ++ [i] <+: q → last.nodeRunning q = false → later.nodeRunning q = false) ∧
        ∀ ret, Returns (root.body task) (.report final.outcome control, later) ret →
          Returns (root.body task) (.report result.outcome (.node p), last)
            (ret.map fun s => s.resetAll others)) :
    Reports root task tree p control method s final := by
  obtain ⟨last, paths, hlast, hrests, hpaths, hreturns⟩ := h
  obtain ⟨later, others, hlater, hfinal, hothers, hkeep, hreport⟩ := hnext last hlast hrests
  refine ⟨later, others ++ paths, hlast.of_child.trans hlater, hfinal, ?_, ?_⟩
  · intro q hq
    rcases List.mem_append.mp hq with hin | hin
    · exact hothers q hin
    · obtain ⟨hbelow, hidle⟩ := hpaths q hin
      exact ⟨prefix_of_child hbelow, hkeep q hbelow hidle⟩
  · intro ret hret
    rw [← map_resetAll_append]
    exact hreturns _ (hreport ret hret)

/-- The nodes that are running at rest lie above the leaf. -/
theorem Rests.not_running {resume : Option Path} (h : Rests s tree p resume) {q : Path}
    (hq : p <+: q) (hnot : ∀ path, resume = some path → ¬ q <+: p ++ path) :
    s.nodeRunning q = false := by
  cases resume with
  | none => exact h q hq
  | some path =>
      have hpaused : Paused s tree p path := h
      replace hnot : ¬ q <+: p ++ path := hnot path rfl
      clear h
      induction hpaused with
      | leaf hidle => exact hidle q hq
      | @branch kind nodes node p path i hself hown htask hback hothers hnodes hchild ih =>
          obtain ⟨rest, rfl⟩ := hq
          cases rest with
          | nil =>
              rw [List.append_nil] at hnot
              exact absurd (List.prefix_append _ _) hnot
          | cons j rest =>
              by_cases hj : j = i
              · subst hj
                refine ih ⟨rest, by simp⟩ ?_
                simpa using hnot
              · exact hothers j hj _ ⟨rest, by simp⟩
      | @decorator kind node p path hself hback hothers hchild ih =>
          obtain ⟨rest, rfl⟩ := hq
          cases rest with
          | nil =>
              rw [List.append_nil] at hnot
              exact absurd (List.prefix_append _ _) hnot
          | cons j rest =>
              by_cases hj : j = 0
              · subst hj
                refine ih ⟨rest, by simp⟩ ?_
                simpa using hnot
              · exact hothers j hj _ ⟨rest, by simp⟩

end Client
end ArmyRs
