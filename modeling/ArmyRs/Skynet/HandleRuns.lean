import ArmyRs.Skynet.HandleStorage

/-!
# Handles find their services

Every run of the handle storage is a run of the registry in which every call has the same
result, and handles and names are looked up in it (`registry_of_run`).  As long as few
handles have been given out, no handle is given out again (`handles_ascending`).
-/

namespace ArmyRs
namespace Skynet

open Foundation

section

variable {γ : Type*}

/-! ## Slots and handles -/

structure HandleStorage.Sound (s : HandleStorage γ) : Prop where
  size : ∃ e, 2 ≤ e ∧ e ≤ 24 ∧ s.slotSize = 2 ^ e
  harbor : ∃ h, s.harbor = h * 2 ^ 24
  hashed : Hashed Context.handle s.slotSize s.slot
  ours : ∀ handle ctx, direct Context.handle s.slotSize s.slot handle = some ctx →
    s.harbor ≤ handle ∧ handle < s.harbor + 2 ^ 24
  names : Ascending HandleName.name s.name

variable {s s' : HandleStorage γ} {context : γ} {handle i : ℕ}

theorem sound_skynetHandleInit (harbor : ℕ) : (skynetHandleInit harbor : HandleStorage γ).Sound where
  size := ⟨2, le_rfl, by decide, rfl⟩
  harbor := ⟨harbor &&& 0xff, Nat.shiftLeft_eq _ _⟩
  hashed := fun _ _ _ h => by cases h
  ours := fun _ _ h => by cases h
  names := List.Pairwise.nil

namespace HandleStorage.Sound

theorem size_pos (h : s.Sound) : 0 < s.slotSize := by
  obtain ⟨e, -, -, hsize⟩ := h.size
  rw [hsize]
  positivity

theorem size_dvd (h : s.Sound) : s.slotSize ∣ 2 ^ 24 := by
  obtain ⟨e, -, hle, hsize⟩ := h.size
  rw [hsize]
  exact pow_dvd_pow 2 hle

theorem hash_eq (h : s.Sound) (handle : ℕ) : hash s handle = handle % s.slotSize := by
  obtain ⟨e, -, -, hsize⟩ := h.size
  rw [hash, hsize, Nat.and_two_pow_sub_one_eq_mod]

/-- The harbor does not move a handle to another slot. -/
theorem harbor_add_mod (h : s.Sound) (handle : ℕ) :
    (s.harbor + handle) % s.slotSize = handle % s.slotSize := by
  obtain ⟨harbor, hharbor⟩ := h.harbor
  obtain ⟨times, htimes⟩ := h.size_dvd
  rw [hharbor, htimes, show harbor * (s.slotSize * times) = s.slotSize * (times * harbor) by ring,
    Nat.mul_add_mod]

theorem grab_eq (h : s.Sound) (handle : ℕ) :
    skynetHandleGrab s handle =
      (direct Context.handle s.slotSize s.slot handle).map Context.context := by
  unfold skynetHandleGrab direct
  rw [h.hash_eq]
  cases s.slot (handle % s.slotSize) with
  | none => rfl
  | some ctx => by_cases heq : ctx.handle = handle <;> simp [heq, Option.filter]

end HandleStorage.Sound

theorem candidate_eq (s : HandleStorage γ) (i : ℕ) :
    candidate s i = (i + s.handleIndex) % 2 ^ 24 :=
  Nat.and_two_pow_sub_one_eq_mod _ 24

theorem candidate_lt (s : HandleStorage γ) (i : ℕ) : candidate s i < 2 ^ 24 := by
  rw [candidate_eq]
  exact Nat.mod_lt _ (by decide)

/-- A new handle is the candidate and the harbor. -/
theorem HandleStorage.Sound.or_harbor (h : s.Sound) (i : ℕ) :
    candidate s i ||| s.harbor = s.harbor + candidate s i := by
  obtain ⟨harbor, hharbor⟩ := h.harbor
  rw [hharbor, mul_comm, Nat.two_pow_add_eq_or_of_lt (candidate_lt s i), Nat.or_comm]

theorem freeRound_some (h : s.Sound) (hround : freeRound s = some i) :
    i < s.slotSize ∧ s.slot (candidate s i % s.slotSize) = none := by
  have hfree := List.find?_some hround
  rw [h.hash_eq] at hfree
  exact ⟨List.mem_range.mp (List.mem_of_find?_eq_some hround), by simpa using hfree⟩

/-- The rounds try all slots. -/
theorem freeRound_none (h : s.Sound) (hround : freeRound s = none) :
    ∀ j < s.slotSize, (s.slot j).isSome := by
  intro j hj
  have hpos := h.size_pos
  have hmod := Nat.mod_lt s.handleIndex hpos
  -- the round in which the slot is tried
  let round := (j + (s.slotSize - s.handleIndex % s.slotSize)) % s.slotSize
  have htried := List.find?_eq_none.mp hround round (List.mem_range.mpr (Nat.mod_lt _ hpos))
  have hslot : hash s (candidate s round) = j := by
    have hidx := Nat.div_add_mod s.handleIndex s.slotSize
    have hsum : j + (s.slotSize - s.handleIndex % s.slotSize) + s.handleIndex =
        j + s.slotSize * (s.handleIndex / s.slotSize + 1) := by
      rw [Nat.mul_succ]
      omega
    rw [h.hash_eq, candidate_eq, Nat.mod_mod_of_dvd _ h.size_dvd, Nat.mod_add_mod, hsum,
      Nat.add_mul_mod_self_left, Nat.mod_eq_of_lt hj]
  rw [hslot] at htried
  simpa [Option.isSome_iff_ne_none] using htried

theorem takeSlot_eq (h : s.Sound) (i : ℕ) (context : γ) :
    takeSlot s i context =
      (s.harbor + candidate s i,
        { s with
          slot := Function.update s.slot ((s.harbor + candidate s i) % s.slotSize)
            (some ⟨s.harbor + candidate s i, context⟩)
          handleIndex := candidate s i + 1 }) := by
  unfold takeSlot
  dsimp only
  rw [h.hash_eq, h.or_harbor, h.harbor_add_mod]

/-- What a context that is put into a slot changes. -/
theorem takeSlot_spec (h : s.Sound) (hround : freeRound s = some i) (context : γ) :
    (takeSlot s i context).2.Sound ∧
      skynetHandleGrab s (takeSlot s i context).1 = none ∧
      ∀ handle, skynetHandleGrab (takeSlot s i context).2 handle =
        if (takeSlot s i context).1 = handle then some context else skynetHandleGrab s handle := by
  have hfree := (freeRound_some h hround).2
  rw [← h.harbor_add_mod] at hfree
  have hput := fun handle =>
    @direct_put _ Context.handle s.slotSize handle s.slot ⟨s.harbor + candidate s i, context⟩ hfree
  have hsound : (takeSlot s i context).2.Sound := by
    rw [takeSlot_eq h]
    refine ⟨h.size, h.harbor,
      @Hashed.put _ _ _ _ ⟨s.harbor + candidate s i, context⟩ h.hashed, fun handle other hother => ?_,
      h.names⟩
    have hlt := candidate_lt s i
    dsimp only at hput hother ⊢
    rw [hput] at hother
    split at hother
    · omega
    · exact h.ours handle other hother
  refine ⟨hsound, ?_, fun handle => ?_⟩
  · rw [h.grab_eq, direct, takeSlot_eq h, hfree]
    rfl
  · rw [hsound.grab_eq, h.grab_eq, takeSlot_eq h]
    dsimp only at hput ⊢
    rw [hput]
    split <;> rfl

/-- The slots are doubled, and one is free. -/
theorem growSlots_spec (h : s.Sound) (hfull : ∀ j < s.slotSize, (s.slot j).isSome)
    (hroom : s.slotSize < 2 ^ 24) :
    ∃ s' i, growSlots s = some s' ∧ s'.Sound ∧ freeRound s' = some i ∧
      s'.handleIndex = s.handleIndex ∧ s'.harbor = s.harbor ∧ s'.name = s.name ∧
      s'.slotSize = s.slotSize * 2 ∧ ∀ handle, skynetHandleGrab s' handle = skynetHandleGrab s handle := by
  obtain ⟨e, hlow, hhigh, hsize⟩ := h.size
  have hdouble : s.slotSize * 2 = 2 ^ (e + 1) := by rw [hsize, pow_succ]
  have he : e < 24 := (Nat.pow_lt_pow_iff_right (by decide)).mp (hsize ▸ hroom)
  have hle : s.slotSize * 2 ≤ 2 ^ 24 := hdouble ▸ Nat.pow_le_pow_right (by decide) he
  have hassert : s.slotSize * 2 - 1 ≤ HANDLE_MASK := by
    unfold HANDLE_MASK
    omega
  obtain ⟨slot, hslot, hhashed, hsame⟩ :=
    @regrow_spec _ _ (fun ctx => ctx.handle &&& (s.slotSize * 2 - 1)) _ _ h.size_pos h.hashed hfull
      fun ctx => by rw [hdouble, Nat.and_two_pow_sub_one_eq_mod]
  have hsound : HandleStorage.Sound { s with slot, slotSize := s.slotSize * 2 } :=
    ⟨⟨e + 1, by omega, he, hdouble⟩, h.harbor, hhashed,
      fun handle ctx hctx => h.ours handle ctx (hsame handle ▸ hctx), h.names⟩
  have hpos := h.size_pos
  obtain ⟨i, hround⟩ :
      ∃ i, freeRound { s with slot, slotSize := s.slotSize * 2 } = some i := by
    by_contra hnone
    rw [← Option.ne_none_iff_exists', not_not] at hnone
    have hfull' := freeRound_none hsound hnone
    -- two slots of the new table stand for the first one of the old
    obtain ⟨first, hfirst⟩ := Option.isSome_iff_exists.mp (hfull' 0 (by dsimp only; omega))
    obtain ⟨second, hsecond⟩ :=
      Option.isSome_iff_exists.mp (hfull' s.slotSize (by dsimp only; omega))
    have hhomeFirst := hhashed 0 (by omega) first hfirst
    have hhomeSecond := hhashed s.slotSize (by omega) second hsecond
    have holdFirst := direct_eq_some_iff.mp ((hsame first.handle).symm.trans
      (direct_eq_some_iff.mpr ⟨by rw [hhomeFirst]; exact hfirst, rfl⟩))
    have holdSecond := direct_eq_some_iff.mp ((hsame second.handle).symm.trans
      (direct_eq_some_iff.mpr ⟨by rw [hhomeSecond]; exact hsecond, rfl⟩))
    have hzeroFirst : first.handle % s.slotSize = 0 := by
      rw [← Nat.mod_mod_of_dvd _ (Nat.dvd_mul_right s.slotSize 2), hhomeFirst, Nat.zero_mod]
    have hzeroSecond : second.handle % s.slotSize = 0 := by
      rw [← Nat.mod_mod_of_dvd _ (Nat.dvd_mul_right s.slotSize 2), hhomeSecond, Nat.mod_self]
    rw [hzeroFirst] at holdFirst
    rw [hzeroSecond] at holdSecond
    have heq : first = second := Option.some.inj (holdFirst.1.symm.trans holdSecond.1)
    rw [heq, hhomeSecond] at hhomeFirst
    omega
  refine ⟨_, i, ?_, hsound, hround, rfl, rfl, rfl, rfl, fun handle => ?_⟩
  · rw [growSlots, if_pos hassert, hslot]
    rfl
  · rw [hsound.grab_eq, h.grab_eq, hsame]

/-- Nothing that can be seen changes before the context is put into a slot; only when all handles
are in use there is no slot. -/
theorem skynetHandleRegister_cases (h : s.Sound) (context : γ) :
    (∃ s' i, skynetHandleRegister s context = some (takeSlot s' i context) ∧ s'.Sound ∧
      freeRound s' = some i ∧ s'.handleIndex = s.handleIndex ∧ s'.harbor = s.harbor ∧
      s'.name = s.name ∧ s.slotSize ≤ s'.slotSize ∧
      ∀ handle, skynetHandleGrab s' handle = skynetHandleGrab s handle) ∨
    skynetHandleRegister s context = none ∧
      ∀ low < 2 ^ 24, (skynetHandleGrab s (s.harbor + low)).isSome := by
  unfold skynetHandleRegister registerRounds
  cases hround : freeRound s with
  | some i => exact Or.inl ⟨s, i, rfl, h, hround, rfl, rfl, rfl, le_rfl, fun _ => rfl⟩
  | none =>
      have hfull := freeRound_none h hround
      rcases Nat.lt_or_ge s.slotSize (2 ^ 24) with hroom | hmax
      · obtain ⟨s', i, hgrow, hsound, hround', hindex, hharbor, hname, hsize, hsame⟩ :=
          growSlots_spec h hfull hroom
        refine Or.inl ⟨s', i, ?_, hsound, hround', hindex, hharbor, hname, by omega, hsame⟩
        dsimp only
        rw [hgrow]
        dsimp only
        rw [registerRounds, hround']
      · have hsize : s.slotSize = 2 ^ 24 := le_antisymm (Nat.le_of_dvd (by decide) h.size_dvd) hmax
        have hassert : ¬ (s.slotSize * 2 - 1 ≤ HANDLE_MASK) := by
          rw [hsize]
          decide
        refine Or.inr ⟨?_, fun low hlow => ?_⟩
        · dsimp only
          rw [growSlots, if_neg hassert]
        · obtain ⟨ctx, hctx⟩ := Option.isSome_iff_exists.mp (hfull low (by omega))
          have hhome := h.hashed low (by omega) ctx hctx
          have hdirect : direct Context.handle s.slotSize s.slot ctx.handle = some ctx :=
            direct_eq_some_iff.mpr ⟨by rw [hhome]; exact hctx, rfl⟩
          have hours := h.ours _ _ hdirect
          have hhandle : ctx.handle = s.harbor + low := by
            obtain ⟨harbor, hharbor⟩ := h.harbor
            rw [hsize] at hhome
            omega
          rw [← hhandle, h.grab_eq, hdirect]
          rfl

/-! ## The storage is a registry -/

/-- The handle of a name. -/
def handleOf (s : HandleStorage γ) (name : CString) : Option ℕ :=
  (findKey HandleName.name s.name name).map HandleName.handle

theorem skynetHandleFindname_eq (h : s.Sound) (name : CString) :
    skynetHandleFindname s name = (handleOf s name).getD 0 := by
  rw [handleOf, ← bisect_toOption h.names, skynetHandleFindname]
  cases bisect HandleName.name s.name name s.name.length 0 s.name.length <;> rfl

/-- The storage, and the registry it stands for. -/
structure Stands (s : HandleStorage γ) (r : Registry γ) : Prop where
  sound : s.Sound
  live : ∀ handle, skynetHandleGrab s handle = r.live handle
  named : ∀ name, handleOf s name = r.named name

variable {r : Registry γ}

theorem Stands.register (h : Stands s r)
    (hregister : skynetHandleRegister s context = some (handle, s')) :
    ∃ r', registryStep r (.register context handle) = some r' ∧ Stands s' r' := by
  rcases skynetHandleRegister_cases h.sound context with
    ⟨s₁, i, htaken, hsound, hround, -, -, hname, -, hsame⟩ | ⟨hnone, -⟩
  · obtain ⟨hsound', hfresh, hgrab⟩ := takeSlot_spec hsound hround context
    rw [htaken] at hregister
    have hpair := Option.some.inj hregister
    rw [hpair] at hsound' hfresh hgrab
    have hname' : s'.name = s.name := by
      have hkept := congrArg (fun p => p.2.name) hpair
      exact hkept.symm.trans hname
    have hlive : (r.live handle).isNone := by rw [← h.live, ← hsame, hfresh]; rfl
    refine ⟨_, if_pos hlive, hsound', fun other => ?_, fun name => ?_⟩
    · dsimp only
      rw [hgrab, hsame, h.live, Function.update_apply]
      simp only [eq_comm]
    · rw [← h.named, handleOf, handleOf, hname']
  · rw [hnone] at hregister
    cases hregister

theorem Stands.retire (h : Stands s r) (handle : ℕ) :
    ∃ r', registryStep r (.retire handle (skynetHandleRetire s handle).1) = some r' ∧
      Stands (skynetHandleRetire s handle).2 r' := by
  have hlive := h.live handle
  have hgrab := h.sound.grab_eq handle
  unfold skynetHandleRetire
  unfold skynetHandleGrab at hlive
  rw [h.sound.hash_eq] at hlive ⊢
  cases hslot : s.slot (handle % s.slotSize) with
  | none =>
      rw [hslot] at hlive
      refine ⟨r, ?_, h⟩
      simp [registryStep, ← hlive]
  | some ctx =>
      rw [hslot] at hlive
      dsimp only at hlive ⊢
      by_cases heq : ctx.handle = handle
      · rw [if_pos heq] at hlive ⊢
        have hdirect : direct Context.handle s.slotSize s.slot handle = some ctx :=
          direct_eq_some_iff.mpr ⟨hslot, heq⟩
        have hsound : HandleStorage.Sound { s with
            slot := Function.update s.slot (handle % s.slotSize) none
            name := s.name.filter fun n => n.handle ≠ handle } := by
          refine ⟨h.sound.size, h.sound.harbor, h.sound.hashed.clear _, fun other c hc => ?_,
            List.Pairwise.filter _ h.sound.names⟩
          dsimp only at hc
          rw [direct_clear hdirect] at hc
          split at hc
          · cases hc
          · exact h.sound.ours other c hc
        refine ⟨_, by simp only [registryStep, ← hlive]; rfl, hsound, fun other => ?_,
          fun name => ?_⟩
        · dsimp only
          rw [hsound.grab_eq, direct_clear hdirect, Function.update_apply, ← h.live, h.sound.grab_eq]
          split <;> rfl
        · dsimp only
          rw [← h.named, handleOf, handleOf, h.sound.names.findKey_filter]
          cases findKey HandleName.name s.name name with
          | none => rfl
          | some entry => by_cases hother : entry.handle = handle <;> simp [Option.filter, hother]
      · rw [if_neg heq] at hlive ⊢
        refine ⟨r, ?_, h⟩
        simp [registryStep, ← hlive]

/-- What an insertion of a name leaves as it is. -/
theorem insertNameBefore_frame {name : CString} {before : ℕ}
    (hinsert : insertNameBefore s name handle before = some s') :
    s'.name = insertAt s.name before ⟨name, handle⟩ ∧ s'.slot = s.slot ∧
      s'.slotSize = s.slotSize ∧ s'.harbor = s.harbor ∧ s'.handleIndex = s.handleIndex := by
  unfold insertNameBefore at hinsert
  dsimp only at hinsert
  split_ifs at hinsert <;> cases hinsert <;> exact ⟨rfl, rfl, rfl, rfl, rfl⟩

theorem Stands.namehandle (h : Stands s r) {name : CString} {named : Bool}
    (hcall : skynetHandleNamehandle s handle name = some (named, s')) :
    ∃ r', registryStep r (.namehandle handle name named) = some r' ∧ Stands s' r' := by
  have hnamed := h.named name
  rw [handleOf, ← bisect_toOption h.sound.names] at hnamed
  have hanswers := bisect_all h.sound.names name
  unfold skynetHandleNamehandle at hcall
  cases hsearch : bisect HandleName.name s.name name s.name.length 0 s.name.length with
  | ok entry =>
      rw [hsearch] at hcall hnamed
      cases hcall
      refine ⟨r, ?_, h⟩
      simp [registryStep, ← hnamed, Except.toOption]
  | error before =>
      rw [hsearch] at hcall hnamed hanswers
      obtain ⟨hbelow, habove⟩ := hanswers
      have hfree : r.named name = none := hnamed.symm
      have hascending := h.sound.names.insertAt (a := ⟨name, handle⟩) hbelow habove
      obtain ⟨next, hinsert, hpair⟩ := Option.map_eq_some_iff.mp hcall
      cases hpair
      obtain ⟨hname, hslot, hsize, hharbor, -⟩ := insertNameBefore_frame hinsert
      refine ⟨{ r with named := Function.update r.named name (some handle) }, ?_, ⟨?_, ?_, ?_, ?_, ?_⟩,
        fun other => ?_, fun other => ?_⟩
      · simp [registryStep, hfree]
      · rw [hsize]
        exact h.sound.size
      · rw [hharbor]
        exact h.sound.harbor
      · rw [hsize, hslot]
        exact h.sound.hashed
      · rw [hsize, hslot, hharbor]
        exact h.sound.ours
      · rw [hname]
        exact hascending
      · rw [← h.live, skynetHandleGrab, skynetHandleGrab, hash, hash, hsize, hslot]
      · dsimp only
        rw [handleOf, hname, hascending.findKey_insertAt h.sound.names, Function.update_apply,
          ← h.named, handleOf]
        by_cases heq : name = other
        · rw [if_pos heq, if_pos heq.symm]
          rfl
        · rw [if_neg heq, if_neg (Ne.symm heq)]

theorem Stands.step {call : HandleCall γ} (h : Stands s r) (hstep : storageStep s call = some s') :
    ∃ r', registryStep r call = some r' ∧ Stands s' r' := by
  cases call with
  | register context handle =>
      simp only [storageStep] at hstep
      split at hstep
      · next handle' next hregister =>
        split at hstep
        · next heq =>
          cases hstep
          exact h.register (heq ▸ hregister)
        · cases hstep
      · cases hstep
  | retire handle found =>
      simp only [storageStep] at hstep
      split at hstep
      · next hfound =>
        cases hstep
        exact hfound ▸ h.retire handle
      · cases hstep
  | namehandle handle name named =>
      simp only [storageStep] at hstep
      split at hstep
      · next named' next hcall =>
        split at hstep
        · next heq =>
          cases hstep
          exact h.namehandle (heq ▸ hcall)
        · cases hstep
      · cases hstep

theorem stands_of_run {harbor : ℕ} {calls : List (HandleCall γ)}
    (hrun : Run storageStep free (skynetHandleInit harbor) calls s) :
    ∃ r, Run registryStep free ⟨fun _ => none, fun _ => none⟩ calls r ∧ Stands s r := by
  have hstart : Stands (skynetHandleInit harbor : HandleStorage γ) ⟨fun _ => none, fun _ => none⟩ :=
    ⟨sound_skynetHandleInit harbor, fun _ => rfl, fun _ => rfl⟩
  exact hrun.simulate hstart fun _ _ _ _ hstands _ hstep => hstands.step hstep

/-- Five contexts, so that the slots are doubled once.  One of them goes, and takes its name with
it. -/
def fiveContexts : List (HandleCall ℕ) :=
  [.register 11 1, .register 12 2, .register 13 3, .register 14 4, .register 15 5,
    .namehandle 2 [98] true, .namehandle 5 [97, 98] true, .namehandle 4 [97] true,
    .namehandle 3 [97] false, .retire 2 true, .retire 2 false, .register 16 6]

def afterCalls (calls : List (HandleCall ℕ)) : HandleStorage ℕ :=
  (exec storageStep free (skynetHandleInit 0) calls).getD (skynetHandleInit 0)

/-- The handles in the order in which they were given out. -/
def handles : List (HandleCall γ) → List ℕ
  | [] => []
  | .register _ handle :: rest => handle :: handles rest
  | _ :: rest => handles rest

theorem handles_append (calls rest : List (HandleCall γ)) :
    handles (calls ++ rest) = handles calls ++ handles rest := by
  induction calls with
  | nil => rfl
  | cons call calls ih => cases call <;> simp [handles, ih]

/-- The index has not come back to where it began. -/
structure Rising (calls : List (HandleCall γ)) (s : HandleStorage γ) : Prop where
  ascending : (handles calls).Pairwise (· < ·)
  between : ∀ handle ∈ handles calls, s.harbor < handle ∧ handle < s.harbor + s.handleIndex
  index_pos : 0 < s.handleIndex
  index_le : s.handleIndex ≤ 1 + (handles calls).length * s.slotSize

theorem Rising.register {calls : List (HandleCall γ)} (hsound : s.Sound) (h : Rising calls s)
    (hregister : skynetHandleRegister s context = some (handle, s'))
    (hfew : ((handles calls).length + 1) * s'.slotSize < 2 ^ 24) :
    Rising (calls ++ [.register context handle]) s' := by
  rcases skynetHandleRegister_cases hsound context with
    ⟨s₁, i, htaken, hsound', hround, hindex, hharbor, -, hsize, -⟩ | ⟨hnone, -⟩
  · rw [htaken, takeSlot_eq hsound'] at hregister
    cases hregister
    have hi := (freeRound_some hsound' hround).1
    have hle : (handles calls).length * s.slotSize ≤ (handles calls).length * s₁.slotSize :=
      Nat.mul_le_mul_left _ hsize
    have hindexLe := h.index_le
    have hpos := h.index_pos
    dsimp only at hfew
    rw [Nat.succ_mul] at hfew
    have hcandidate : candidate s₁ i = i + s.handleIndex := by
      rw [candidate_eq, hindex, Nat.mod_eq_of_lt (by omega)]
    refine ⟨?_, ?_, Nat.succ_pos _, ?_⟩
    · rw [handles_append]
      refine List.pairwise_append.mpr ⟨h.ascending, List.pairwise_singleton _ _, ?_⟩
      intro earlier hearlier last hlast
      rw [List.mem_singleton.mp hlast, hharbor, hcandidate]
      have hlt := (h.between earlier hearlier).2
      omega
    · intro other hother
      rw [handles_append, List.mem_append] at hother
      dsimp only
      rw [hharbor, hcandidate]
      rcases hother with hother | hother
      · have hbetween := h.between other hother
        omega
      · rw [List.mem_singleton.mp hother, hharbor, hcandidate]
        omega
    · rw [handles_append, List.length_append]
      dsimp only [handles, List.length_singleton]
      rw [Nat.succ_mul, hcandidate]
      omega
  · rw [hnone] at hregister
    cases hregister

/-- The other calls give out no handles. -/
theorem storageStep_frame {call : HandleCall γ} (hcall : handles [call] = [])
    (hstep : storageStep s call = some s') :
    s'.slotSize = s.slotSize ∧ s'.harbor = s.harbor ∧ s'.handleIndex = s.handleIndex := by
  cases call with
  | register context handle => cases hcall
  | retire handle found =>
      simp only [storageStep] at hstep
      split at hstep
      · cases hstep
        unfold skynetHandleRetire
        split
        · split <;> exact ⟨rfl, rfl, rfl⟩
        · exact ⟨rfl, rfl, rfl⟩
      · cases hstep
  | namehandle handle name named =>
      simp only [storageStep] at hstep
      split at hstep
      · next named' next hnamed =>
        split at hstep
        · cases hstep
          unfold skynetHandleNamehandle at hnamed
          split at hnamed
          · cases hnamed
            exact ⟨rfl, rfl, rfl⟩
          · obtain ⟨next, hinsert, hpair⟩ := Option.map_eq_some_iff.mp hnamed
            cases hpair
            exact (insertNameBefore_frame hinsert).2.2
        · cases hstep
      · cases hstep

theorem slotSize_le_of_register (h : s.Sound)
    (hregister : skynetHandleRegister s context = some (handle, s')) :
    s.slotSize ≤ s'.slotSize := by
  rcases skynetHandleRegister_cases h context with
    ⟨s₁, i, htaken, -, -, -, -, -, hsize, -⟩ | ⟨hnone, -⟩
  · rw [htaken] at hregister
    cases hregister
    exact hsize
  · rw [hnone] at hregister
    cases hregister

theorem Rising.step {calls : List (HandleCall γ)} {call : HandleCall γ} (hsound : s.Sound)
    (h : (handles calls).length * s.slotSize < 2 ^ 24 → Rising calls s)
    (hstep : storageStep s call = some s')
    (hfew : (handles (calls ++ [call])).length * s'.slotSize < 2 ^ 24) :
    Rising (calls ++ [call]) s' := by
  rw [handles_append, List.length_append] at hfew
  by_cases hother : handles [call] = []
  · obtain ⟨hsize, hharbor, hindex⟩ := storageStep_frame hother hstep
    rw [hother, hsize] at hfew
    obtain ⟨hascending, hbetween, hpos, hle⟩ := h hfew
    have hsame : handles (calls ++ [call]) = handles calls := by
      rw [handles_append, hother, List.append_nil]
    exact ⟨hsame ▸ hascending, by rwa [hsame, hharbor, hindex], hindex ▸ hpos,
      by rwa [hsame, hindex, hsize]⟩
  · cases call with
    | register context handle =>
        simp only [storageStep] at hstep
        split at hstep
        · next handle' next hregister =>
          split at hstep
          · next heq =>
            cases hstep
            subst heq
            have hsize := slotSize_le_of_register hsound hregister
            have hbefore := Nat.mul_le_mul_left (handles calls).length hsize
            have hrest : (handles calls).length * s'.slotSize ≤
                ((handles calls).length + 1) * s'.slotSize := Nat.mul_le_mul_right _ (Nat.le_succ _)
            have hfew' : ((handles calls).length + 1) * s'.slotSize < 2 ^ 24 := hfew
            exact (h (by omega)).register hsound hregister hfew'
          · cases hstep
        · cases hstep
    | retire handle found => exact absurd rfl hother
    | namehandle handle name named => exact absurd rfl hother

/-- As long as few handles have been given out, each is greater than those before, and none is the
one that is reserved. -/
theorem handles_ascending {harbor : ℕ} {calls : List (HandleCall γ)}
    (hrun : Run storageStep free (skynetHandleInit harbor) calls s)
    (hfew : (handles calls).length * s.slotSize < 2 ^ 24) :
    (handles calls).Pairwise (· < ·) ∧ ∀ handle ∈ handles calls, s.harbor < handle := by
  suffices hrising : s.Sound ∧ ((handles calls).length * s.slotSize < 2 ^ 24 → Rising calls s) from
    ⟨(hrising.2 hfew).ascending, fun handle hmem => ((hrising.2 hfew).between handle hmem).1⟩
  clear hfew
  induction hrun with
  | refl =>
      refine ⟨sound_skynetHandleInit harbor, fun _ => ⟨List.Pairwise.nil, ?_, Nat.one_pos, ?_⟩⟩
      · intro handle hmem
        cases hmem
      · exact Nat.le_add_right _ _
  | snoc hrun hguard hstep ih =>
      obtain ⟨r, -, hstands⟩ := stands_of_run hrun
      obtain ⟨r', -, hstands'⟩ := hstands.step hstep
      exact ⟨hstands'.sound, Rising.step ih.1 ih.2 hstep⟩

theorem handles_ascending_fiveContexts :
    (handles fiveContexts).Pairwise (· < ·) ∧
      ∀ handle ∈ handles fiveContexts, (afterCalls fiveContexts).harbor < handle :=
  handles_ascending (run_exec_getD _ (by decide +kernel)) (by decide +kernel)

end

end Skynet
end ArmyRs
