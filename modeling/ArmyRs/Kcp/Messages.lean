import ArmyRs.Kcp.ReceivingEnd

/-!
# Messages

A message is cut into segments by `ikcpSend` and put together by `ikcpRecv`.  Each
segment counts the segments of the message that follow it, so that the receiver knows
from the first one how many it has to wait for, and finds the last one by its count of
zero (`mergeFragment_eq`).
-/

namespace ArmyRs
namespace Kcp

open Foundation

/-- What the segments of a message carry. -/
def fragmentItems (mss : ℕ) (message : List UInt8) : List Item :=
  (fragments mss (fragmentCount mss message.length) message).map IKCPSEG.item

@[simp] theorem length_fragments (mss count : ℕ) (message : List UInt8) :
    (fragments mss count message).length = count := by
  induction count generalizing message with
  | zero => rfl
  | succ left ih => simp [fragments, ih]

@[simp] theorem length_fragmentItems (mss : ℕ) (message : List UInt8) :
    (fragmentItems mss message).length = fragmentCount mss message.length := by
  simp [fragmentItems]

theorem fragmentCount_pos (mss len : ℕ) : 0 < fragmentCount mss len := by
  unfold fragmentCount
  generalize (if len ≤ mss then 1 else (len + mss - 1) / mss) = count
  dsimp only
  split
  · exact one_pos
  · next hne => exact Nat.pos_of_ne_zero hne

/-- The segments have room for the whole message. -/
theorem le_fragmentCount_mul {mss : ℕ} (hmss : 0 < mss) (len : ℕ) :
    len ≤ fragmentCount mss len * mss := by
  have hcount := fragmentCount_pos mss len
  by_cases hsmall : len ≤ mss
  · exact hsmall.trans (Nat.le_mul_of_pos_left mss hcount)
  · have hdiv : fragmentCount mss len = (len + mss - 1) / mss := by
      have hpos : (len + mss - 1) / mss ≠ 0 := by
        have := Nat.div_pos (show mss ≤ len + mss - 1 by omega) hmss
        omega
      unfold fragmentCount
      dsimp only
      rw [if_neg hsmall, if_neg hpos]
    rw [hdiv]
    have hlt : len + mss - 1 < (len + mss - 1) / mss * mss + mss := Nat.lt_div_mul_add hmss
    omega

theorem length_data_of_mem_fragments {mss count : ℕ} {message : List UInt8} {seg : IKCPSEG}
    (h : seg ∈ fragments mss count message) : seg.data.length ≤ mss := by
  induction count generalizing message with
  | zero => cases h
  | succ left ih =>
      rcases List.mem_cons.mp h with rfl | hrest
      · exact (List.length_take_le _ _)
      · exact ih hrest

/-- The first segment counts the others. -/
theorem fragmentItems_eq_cons {mss : ℕ} {message : List UInt8}
    (hfew : fragmentCount mss message.length ≤ 255) :
    ∃ data rest, fragmentItems mss message =
      (BitVec.ofNat 8 (fragmentCount mss message.length - 1), data) :: rest ∧
      (BitVec.ofNat 8 (fragmentCount mss message.length - 1)).toNat + 1 =
        fragmentCount mss message.length := by
  have hpos := fragmentCount_pos mss message.length
  obtain ⟨left, hcount⟩ := Nat.exists_eq_add_one_of_ne_zero hpos.ne'
  refine ⟨message.take mss, (fragments mss left (message.drop mss)).map IKCPSEG.item, ?_, ?_⟩
  · rw [fragmentItems, hcount]
    rfl
  · rw [BitVec.toNat_ofNat]
    omega

/-- A message whose segments are in front of the queue is put together again. -/
theorem mergeFragment_eq {mss left : ℕ} (hleft : left < 256) {message : List UInt8}
    (hroom : message.length ≤ (left + 1) * mss) {queue : List IKCPSEG} {rest : List Item}
    (hqueue : queue.map IKCPSEG.item =
      (fragments mss (left + 1) message).map IKCPSEG.item ++ rest) :
    mergeFragment queue = (message, queue.drop (left + 1)) := by
  induction left generalizing message queue with
  | zero =>
      obtain ⟨seg, others, rfl, hseg, -⟩ := List.map_eq_cons_iff.mp hqueue
      have hfrg : seg.frg = 0 := congrArg Prod.fst hseg
      have hdata : seg.data = message.take mss := congrArg Prod.snd hseg
      rw [mergeFragment, if_pos hfrg, hdata, List.take_of_length_le (by omega)]
      rfl
  | succ left ih =>
      obtain ⟨seg, others, rfl, hseg, hothers⟩ := List.map_eq_cons_iff.mp hqueue
      have hfrg : seg.frg = BitVec.ofNat 8 (left + 1) := congrArg Prod.fst hseg
      have hdata : seg.data = message.take mss := congrArg Prod.snd hseg
      have hne : seg.frg ≠ 0 := by
        intro hzero
        have hnat := congrArg BitVec.toNat (hfrg.symm.trans hzero)
        rw [BitVec.toNat_ofNat] at hnat
        have hmod : (left + 1) % 2 ^ 8 = left + 1 := Nat.mod_eq_of_lt (by omega)
        rw [hmod] at hnat
        cases hnat
      have hdrop : (message.drop mss).length ≤ (left + 1) * mss := by
        rw [List.length_drop]
        have hexpand : (left + 1 + 1) * mss = (left + 1) * mss + mss := Nat.succ_mul _ _
        omega
      rw [mergeFragment, if_neg hne, ih (by omega) hdrop hothers, hdata]
      dsimp only
      rw [List.take_append_drop, List.drop_succ_cons]

/-! ## A queue of messages -/

/-- The items of messages, one message after the other. -/
def items (mss : ℕ) (messages : List (List UInt8)) : List Item :=
  messages.flatMap (fragmentItems mss)

theorem items_concat (mss : ℕ) (messages : List (List UInt8)) (message : List UInt8) :
    items mss (messages ++ [message]) = items mss messages ++ fragmentItems mss message := by
  simp [items]

section

variable {mss : ℕ} {queue : List IKCPSEG} {messages : List (List UInt8)} {message : List UInt8}

/-- The first segment of the queue counts the segments of the first message. -/
theorem frg_of_head {seg : IKCPSEG} (hfew : fragmentCount mss message.length ≤ 255)
    (hqueue : queue.map IKCPSEG.item <+: items mss (message :: messages))
    (hseg : queue.head? = some seg) :
    seg.frg.toNat + 1 = fragmentCount mss message.length := by
  obtain ⟨behind, rfl⟩ := List.head?_eq_some_iff.mp hseg
  obtain ⟨data, rest, hitems, hcount⟩ := fragmentItems_eq_cons hfew
  rw [items, List.flatMap_cons, hitems, List.map_cons, List.cons_append,
    List.cons_prefix_cons] at hqueue
  have hfrg : seg.frg = BitVec.ofNat 8 (fragmentCount mss message.length - 1) :=
    congrArg Prod.fst hqueue.1
  rw [hfrg, hcount]

/-- When all segments are there that the first one counts, they are the first message. -/
theorem exists_first_message (hmss : 0 < mss)
    (hfew : ∀ message ∈ messages, fragmentCount mss message.length ≤ 255)
    (hqueue : queue.map IKCPSEG.item <+: items mss messages) {seg : IKCPSEG}
    (hseg : queue.head? = some seg) (hall : seg.frg.toNat + 1 ≤ queue.length) :
    ∃ message more, messages = message :: more ∧ (mergeFragment queue).1 = message ∧
      fragmentItems mss message ++ (mergeFragment queue).2.map IKCPSEG.item =
        queue.map IKCPSEG.item := by
  cases messages with
  | nil =>
      rw [List.eq_nil_of_map_eq_nil (List.prefix_nil.mp hqueue)] at hseg
      cases hseg
  | cons message more =>
      have hbound : fragmentCount mss message.length ≤ 255 := hfew _ List.mem_cons_self
      have hcount := frg_of_head hbound hqueue hseg
      have hpos : 0 < fragmentCount mss message.length := fragmentCount_pos _ _
      obtain ⟨left, hleft⟩ := Nat.exists_eq_add_one_of_ne_zero hpos.ne'
      have hwhole : fragmentItems mss message <+: items mss (message :: more) :=
        List.prefix_append _ _
      have hlength : (fragmentItems mss message).length ≤ (queue.map IKCPSEG.item).length := by
        rw [length_fragmentItems, List.length_map, ← hcount]
        exact hall
      obtain ⟨later, hlater⟩ := List.prefix_of_prefix_length_le hwhole hqueue hlength
      have hroom : message.length ≤ (left + 1) * mss := by
        rw [← hleft]
        exact le_fragmentCount_mul hmss _
      have hsplit := hlater.symm
      rw [fragmentItems, hleft] at hsplit
      rw [mergeFragment_eq (by omega) hroom hsplit]
      refine ⟨message, more, rfl, rfl, ?_⟩
      have hdrop : (queue.drop (left + 1)).map IKCPSEG.item = later := by
        rw [List.map_drop, ← hlater, List.drop_left']
        rw [length_fragmentItems, hleft]
      rw [hdrop, hlater]

/-- When the queue is at least as long as the first message, that message can be received. -/
theorem exists_head_of_le (hfew : fragmentCount mss message.length ≤ 255)
    (hqueue : queue.map IKCPSEG.item <+: items mss (message :: messages))
    (hlong : fragmentCount mss message.length ≤ queue.length) :
    ∃ seg, queue.head? = some seg ∧ seg.frg.toNat + 1 ≤ queue.length := by
  have hpos : 0 < fragmentCount mss message.length := fragmentCount_pos _ _
  have hne : queue ≠ [] := List.ne_nil_of_length_pos (hpos.trans_le hlong)
  have hhead : queue.head? = some (queue.head hne) := List.head?_eq_some_head hne
  refine ⟨queue.head hne, hhead, ?_⟩
  rw [frg_of_head hfew hqueue hhead]
  exact hlong

end

/-! ## What there is to receive -/

/-- The size of the first message is not known while a segment of it is missing. -/
theorem ikcpPeeksize_nonneg_iff {kcp : Ikcpcb} :
    0 ≤ ikcpPeeksize kcp ↔
      ∃ seg, kcp.rcvQueue.head? = some seg ∧ seg.frg.toNat + 1 ≤ kcp.rcvQueue.length := by
  unfold ikcpPeeksize
  cases hqueue : kcp.rcvQueue with
  | nil => simp
  | cons seg rest =>
      dsimp only
      split
      · next hlast =>
        refine iff_of_true (Int.natCast_nonneg _) ⟨seg, rfl, ?_⟩
        rw [hlast, List.length_cons]
        exact Nat.succ_le_succ (Nat.zero_le _)
      · split
        · next hmissing =>
          refine iff_of_false (by norm_num) ?_
          rintro ⟨first, hfirst, hall⟩
          cases hfirst
          omega
        · next hall =>
          exact iff_of_true (Int.natCast_nonneg _) ⟨seg, rfl, not_lt.mp hall⟩

@[simp] theorem rcvWnd_withoutFirst (kcp : Ikcpcb) (len : ℤ) :
    (withoutFirst kcp len).rcvWnd = kcp.rcvWnd := by
  unfold withoutFirst
  split <;> rfl

@[simp] theorem sendView_tellWindow (recover : Bool) (kcp : Ikcpcb) :
    (tellWindow recover kcp).sendView = kcp.sendView := by
  unfold tellWindow
  split <;> rfl

@[simp] theorem recvView_tellWindow (recover : Bool) (kcp : Ikcpcb) :
    (tellWindow recover kcp).recvView = kcp.recvView := by
  unfold tellWindow
  split <;> rfl

/-- The control block after a message was handed out, or looked at. -/
def afterRecv (kcp : Ikcpcb) (len : ℤ) : Ikcpcb := moveAvailable kcp.rcvBuf (withoutFirst kcp len)

theorem lengthOfFirst_eq (queue : List IKCPSEG) :
    ikcpPeeksize.lengthOfFirst queue = (mergeFragment queue).1.length := by
  induction queue with
  | nil => rfl
  | cons seg rest ih =>
      unfold ikcpPeeksize.lengthOfFirst mergeFragment
      split
      · rfl
      · rw [ih, ← List.length_append]

/-- The size that is announced is the size of what is handed out. -/
theorem ikcpPeeksize_eq {kcp : Ikcpcb} (h : 0 ≤ ikcpPeeksize kcp) :
    ikcpPeeksize kcp = ((mergeFragment kcp.rcvQueue).1.length : ℤ) := by
  unfold ikcpPeeksize at h ⊢
  rw [← lengthOfFirst_eq]
  cases hqueue : kcp.rcvQueue with
  | nil =>
      rw [hqueue] at h
      norm_num at h
  | cons seg rest =>
      rw [hqueue] at h
      dsimp only at h ⊢
      split
      · next hlast => rw [ikcpPeeksize.lengthOfFirst, if_pos hlast]
      · next hmore =>
        rw [if_neg hmore] at h
        split
        · next hmissing =>
          rw [if_pos hmissing] at h
          norm_num at h
        · rfl

/-- A call either fails and changes nothing, or it hands out the first message. -/
theorem ikcpRecv_cases (kcp : Ikcpcb) (len : ℤ) :
    ((ikcpRecv kcp len).1 < 0 ∧ (ikcpRecv kcp len).2.2 = kcp) ∨
      (0 ≤ ikcpPeeksize kcp ∧ ikcpPeeksize kcp ≤ |len| ∧
        (ikcpRecv kcp len).1 = ((mergeFragment kcp.rcvQueue).1.length : ℤ) ∧
        (ikcpRecv kcp len).2.1 = (mergeFragment kcp.rcvQueue).1 ∧
        (ikcpRecv kcp len).2.2.sendView = (afterRecv kcp len).sendView ∧
        (ikcpRecv kcp len).2.2.recvView = (afterRecv kcp len).recvView) := by
  unfold ikcpRecv
  split
  · exact Or.inl ⟨by norm_num, rfl⟩
  · dsimp only
    split
    · exact Or.inl ⟨by norm_num, rfl⟩
    · next hsize =>
      split
      · exact Or.inl ⟨by norm_num, rfl⟩
      · next hroom =>
        exact Or.inr ⟨not_lt.mp hsize, not_lt.mp hroom, rfl, rfl, sendView_tellWindow _ _,
          recvView_tellWindow _ _⟩

end Kcp
end ArmyRs
