import ArmyRs.Foundation.SortedSets
import ArmyRs.Foundation.Transition

/-!
# Chats between friends

`FriendChatDb` keeps for each player a sorted set of the partners he chats with, each with
the time of their last message, and for each partner the last texts and the number of
those not read yet.  `add_message` writes on both sides of a chat in one script.

Both sides add the partner to the list, but only the sender's list is trimmed to
`LIMIT_CONVERSATION` entries, and what is trimmed is the entry with the least time and,
among equal times, the least id.  `ChatHistory` remembers which message of the run was the
last one of each chat.  The lists stay in order through a run exactly as long as a
receiver's list has room for the sender, and the first entry of a sender's full list is
that of the partner whose last message is oldest (`run_keeps_iff_roomy`).
-/

namespace ArmyRs
namespace Social

open Foundation

/-- The texts of a message are kept as they are. -/
structure ChatMessage (Pid : Type*) where
  pid : Pid
  fid : Pid
  msg : String
  tm : ℤ
  deriving DecidableEq, Repr

/-- `list_key`, `content_key` and `unread_key`. -/
structure FriendChatDb (Pid : Type*) [LinearOrder Pid] where
  list : Pid → SortedSet ℤ Pid
  content : Pid → Pid → List String
  unread : Pid → Pid → Nat

namespace FriendChatDb

variable {Pid : Type*} [LinearOrder Pid]

/-- `LIMIT_CONTENT`. -/
def limitContent : Nat := 20

/-- `LIMIT_CONVERSATION`. -/
def limitConversation : Nat := 10

def new : FriendChatDb Pid where
  list := fun _ => .empty
  content := fun _ _ => []
  unread := fun _ _ => 0

/-- `rpush` of a text and `ltrim` to the last ones. -/
def pushContent (db : FriendChatDb Pid) (pid fid : Pid) (msg : String) : Pid → Pid → List String :=
  Function.update db.content pid (Function.update (db.content pid) fid
    (ltrim (-(limitContent : ℤ)) (-1) (db.content pid fid ++ [msg])))

/-- `zadd` and `zremrangebyrank`. -/
def addTrimmed (list : SortedSet ℤ Pid) (tm : ℤ) (fid : Pid) : SortedSet ℤ Pid :=
  (list.zadd tm fid).zremrangebyrank 0 (-((limitConversation : ℤ) + 1))

/-- What `ADD_MESSAGE` does to the sender. -/
def operateSelf (db : FriendChatDb Pid) (m : ChatMessage Pid) : FriendChatDb Pid :=
  { db with
    list := Function.update db.list m.pid (addTrimmed (db.list m.pid) m.tm m.fid)
    content := db.pushContent m.pid m.fid m.msg }

/-- What `ADD_MESSAGE` does to the receiver. -/
def operateFriend (db : FriendChatDb Pid) (m : ChatMessage Pid) : FriendChatDb Pid where
  list := Function.update db.list m.fid ((db.list m.fid).zadd m.tm m.pid)
  content := db.pushContent m.fid m.pid m.msg
  unread := Function.update db.unread m.fid
    (Function.update (db.unread m.fid) m.pid (db.unread m.fid m.pid + 1))

/-- The script `ADD_MESSAGE`. -/
def addMessage (db : FriendChatDb Pid) (m : ChatMessage Pid) : FriendChatDb Pid :=
  (db.operateSelf m).operateFriend m

end FriendChatDb

/-- The chats, with the number of the last message of each. -/
structure ChatHistory (Pid : Type*) [LinearOrder Pid] where
  db : FriendChatDb Pid
  used : Pid → Pid → Nat
  count : Nat

namespace ChatHistory

variable {Pid : Type*} [LinearOrder Pid]

open FriendChatDb

def new : ChatHistory Pid where
  db := .new
  used := fun _ _ => 0
  count := 0

def step (h : ChatHistory Pid) (m : ChatMessage Pid) : Option (ChatHistory Pid) :=
  some
    { db := h.db.addMessage m
      used := fun user partner =>
        if user = m.pid ∧ partner = m.fid ∨ user = m.fid ∧ partner = m.pid then h.count + 1
        else h.used user partner
      count := h.count + 1 }

/-- The last message of the user was one from or to the partner. -/
def MostRecent (h : ChatHistory Pid) (user partner : Pid) : Prop :=
  0 < h.used user partner ∧ ∀ other, h.used user other ≤ h.used user partner

/-- No list is too long, and each contains the partner of the last message. -/
structure InOrder (h : ChatHistory Pid) : Prop where
  bounded : ∀ user, (h.db.list user).zcard ≤ limitConversation
  recent : ∀ user partner, h.MostRecent user partner → partner ∈ (h.db.list user).members

/-- What goes from a list was the least recently used conversation of it. -/
def DropsOldest (h next : ChatHistory Pid) : Prop :=
  ∀ user, ∀ dropped ∈ (h.db.list user).members, dropped ∉ (next.db.list user).members →
    ∀ other ∈ (h.db.list user).members, h.used user dropped ≤ h.used user other

/-- The message leaves the lists in order and drops what it should. -/
def Keeps (h : ChatHistory Pid) (m : ChatMessage Pid) : Prop :=
  ∀ next, h.step m = some next → next.InOrder ∧ h.DropsOldest next

/-- There is a place for the partner, or the first entry is the one to go. -/
def Sendable (used : Pid → Nat) (list : SortedSet ℤ Pid) (tm : ℤ) (fid : Pid) : Prop :=
  fid ∈ list.members ∨ list.zcard < limitConversation ∨
    ∃ entry, list.entries.head? = some entry ∧ entry < toLex (tm, fid) ∧
      ∀ other ∈ list.members, used (member entry) ≤ used other

/-- The sender's list can take the receiver, and the receiver's list has room for the
sender. -/
def Roomy (h : ChatHistory Pid) (m : ChatMessage Pid) : Prop :=
  Sendable (h.used m.pid) (h.db.list m.pid) m.tm m.fid ∧
    (m.fid = m.pid ∨ m.pid ∈ (h.db.list m.fid).members ∨
      (h.db.list m.fid).zcard < limitConversation)

end ChatHistory

namespace FriendChatDb

variable {Pid : Type*} [LinearOrder Pid] {db : FriendChatDb Pid} {m : ChatMessage Pid}
  {list next : SortedSet ℤ Pid} {used : Pid → Nat} {user partner : Pid} {tm : ℤ}

open ChatHistory

/-! ## One list -/

/-- The list `next` is what a message with the partner may make of the list. -/
structure Accepts (used : Pid → Nat) (list next : SortedSet ℤ Pid) (partner : Pid) : Prop where
  bounded : next.zcard ≤ limitConversation
  partner : partner ∈ next.members
  drops : ∀ dropped ∈ list.members, dropped ∉ next.members →
    ∀ other ∈ list.members, used dropped ≤ used other

theorem addTrimmed_of_room (hroom : (list.zadd tm partner).zcard ≤ limitConversation) :
    addTrimmed list tm partner = list.zadd tm partner :=
  SortedSet.zremrangebyrank_of_le hroom

/-- A list with the partner, or with a free place, takes him. -/
theorem zcard_zadd_le (hle : list.zcard ≤ limitConversation)
    (hroom : partner ∈ list.members ∨ list.zcard < limitConversation) :
    (list.zadd tm partner).zcard ≤ limitConversation := by
  by_cases hmem : partner ∈ list.members
  · rw [SortedSet.zcard_zadd_of_mem hmem]
    exact hle
  · rw [SortedSet.zcard_zadd_of_not_mem hmem]
    exact hroom.resolve_left hmem

theorem accepts_zadd (hle : list.zcard ≤ limitConversation)
    (hroom : partner ∈ list.members ∨ list.zcard < limitConversation) :
    Accepts used list (list.zadd tm partner) partner where
  bounded := zcard_zadd_le hle hroom
  partner := SortedSet.mem_members_zadd.mpr (.inl rfl)
  drops := fun _ hdropped hnot => absurd (SortedSet.mem_members_zadd.mpr (.inr hdropped)) hnot

/-- The partner is added once more. -/
theorem Accepts.zadd (h : Accepts used list next partner) :
    Accepts used list (next.zadd tm partner) partner where
  bounded := zcard_zadd_le h.bounded (.inl h.partner)
  partner := SortedSet.mem_members_zadd.mpr (.inl rfl)
  drops := fun dropped hdropped hnot =>
    h.drops dropped hdropped fun hmem => hnot (SortedSet.mem_members_zadd.mpr (.inr hmem))

theorem accepts_addTrimmed (hle : list.zcard ≤ limitConversation)
    (hsend : Sendable used list tm partner) :
    Accepts used list (addTrimmed list tm partner) partner := by
  by_cases hroom : partner ∈ list.members ∨ list.zcard < limitConversation
  · rw [addTrimmed_of_room (zcard_zadd_le hle hroom)]
    exact accepts_zadd hle hroom
  · rw [not_or] at hroom
    obtain ⟨hmem, hfull⟩ := hroom
    obtain ⟨entry, hhead, hbelow, holdest⟩ := (hsend.resolve_left hmem).resolve_left hfull
    have hcard : list.zcard = limitConversation := le_antisymm hle (not_lt.mp hfull)
    rcases SortedSet.zadd_trimmed_cases (s := tm) hmem hcard with
      ⟨habove, -⟩ | ⟨first, rest, hentries, -, hmembers⟩
    · exact absurd (habove entry hhead) hbelow.asymm
    · rw [hentries, List.head?_cons, Option.some.injEq] at hhead
      subst hhead
      refine ⟨?_, (hmembers partner).mpr (.inl rfl), fun dropped hdropped hnot => ?_⟩
      · show (addTrimmed list tm partner).entries.length ≤ limitConversation
        rw [addTrimmed, SortedSet.entries_zremrangebyrank, List.length_drop]
        omega
      · -- what is not among the rest was first
        have hfirst : dropped = member first := by
          have hsplit : dropped ∈ list.entries.map member := hdropped
          rw [hentries, List.map_cons, List.mem_cons] at hsplit
          refine hsplit.resolve_right fun hrest => hnot ?_
          exact (hmembers dropped).mpr (.inr hrest)
        rw [hfirst]
        exact holdest

/-- A list that keeps the partner after a trimmed message, and drops what it should,
could take the message. -/
theorem sendable_of_accepts (hle : list.zcard ≤ limitConversation)
    (hdrops : ∀ dropped ∈ list.members, dropped ∉ (addTrimmed list tm partner).members →
      dropped ≠ partner → ∀ other ∈ list.members, used dropped ≤ used other)
    (hpartner : partner ∈ (addTrimmed list tm partner).members) :
    Sendable used list tm partner := by
  by_cases hmem : partner ∈ list.members
  · exact .inl hmem
  by_cases hfull : list.zcard < limitConversation
  · exact .inr (.inl hfull)
  have hcard : list.zcard = limitConversation := le_antisymm hle (not_lt.mp hfull)
  refine .inr (.inr ?_)
  rcases SortedSet.zadd_trimmed_cases (s := tm) hmem hcard with
    ⟨-, hsame⟩ | ⟨first, rest, hentries, hbelow, hmembers⟩
  · rw [addTrimmed, hsame] at hpartner
    exact absurd hpartner hmem
  · have hfirst : member first ∈ list.members := by
      show member first ∈ list.entries.map member
      rw [hentries]
      exact List.mem_cons_self
    have hne : member first ≠ partner := fun heq => hmem (heq ▸ hfirst)
    refine ⟨first, by rw [hentries]; rfl, hbelow, hdrops _ hfirst ?_ hne⟩
    have hnodup := list.nodup
    rw [hentries, List.map_cons, List.nodup_cons] at hnodup
    intro hin
    exact ((hmembers _).mp hin).elim hne hnodup.1

/-! ## Both lists -/

theorem list_addMessage_of_ne (hpid : user ≠ m.pid) (hfid : user ≠ m.fid) :
    (db.addMessage m).list user = db.list user := by
  show Function.update (Function.update _ _ _) _ _ user = _
  rw [Function.update_of_ne hfid, Function.update_of_ne hpid]

theorem list_addMessage_pid (hne : m.fid ≠ m.pid) :
    (db.addMessage m).list m.pid = addTrimmed (db.list m.pid) m.tm m.fid := by
  show Function.update (Function.update _ _ _) _ _ m.pid = _
  rw [Function.update_of_ne hne.symm, Function.update_self]

theorem list_addMessage_fid (hne : m.fid ≠ m.pid) :
    (db.addMessage m).list m.fid = (db.list m.fid).zadd m.tm m.pid := by
  have hfriend : (db.addMessage m).list m.fid =
      ((db.operateSelf m).list m.fid).zadd m.tm m.pid := Function.update_self ..
  have hself : (db.operateSelf m).list m.fid = db.list m.fid := Function.update_of_ne hne ..
  rw [hfriend, hself]

/-- A message to oneself. -/
theorem list_addMessage_self (heq : m.fid = m.pid) :
    (db.addMessage m).list m.pid =
      (addTrimmed (db.list m.pid) m.tm m.pid).zadd m.tm m.pid := by
  have hfriend : (db.addMessage m).list m.fid =
      ((db.operateSelf m).list m.fid).zadd m.tm m.pid := Function.update_self ..
  have hself : (db.operateSelf m).list m.pid = addTrimmed (db.list m.pid) m.tm m.fid :=
    Function.update_self ..
  rw [heq] at hfriend hself
  rw [hfriend, hself]

/-- No more texts are kept than there should be. -/
theorem length_pushContent_le (db : FriendChatDb Pid) (pid fid : Pid) (msg : String)
    (h : ∀ user partner, (db.content user partner).length ≤ limitContent) (user partner : Pid) :
    (db.pushContent pid fid msg user partner).length ≤ limitContent := by
  unfold pushContent
  by_cases huser : user = pid
  · subst huser
    rw [Function.update_self]
    by_cases hpartner : partner = fid
    · subst hpartner
      rw [Function.update_self, ltrim_last limitContent (by decide), List.length_drop]
      omega
    · rw [Function.update_of_ne hpartner]
      exact h user partner
  · rw [Function.update_of_ne huser]
    exact h user partner

theorem length_content_addMessage_le (db : FriendChatDb Pid) (m : ChatMessage Pid)
    (h : ∀ user partner, (db.content user partner).length ≤ limitContent) (user partner : Pid) :
    ((db.addMessage m).content user partner).length ≤ limitContent :=
  length_pushContent_le (db.operateSelf m) m.fid m.pid m.msg
    (length_pushContent_le db m.pid m.fid m.msg h) user partner

end FriendChatDb

namespace ChatHistory

variable {Pid : Type*} [LinearOrder Pid] {h next : ChatHistory Pid} {m : ChatMessage Pid}
  {messages : List (ChatMessage Pid)} {user partner : Pid}

open FriendChatDb

/-! ## Runs -/

/-- The lists are in order, and no message is from the future. -/
structure Tracked (h : ChatHistory Pid) : Prop where
  inOrder : h.InOrder
  past : ∀ user partner, h.used user partner ≤ h.count

theorem tracked_new : (new : ChatHistory Pid).Tracked where
  inOrder :=
    { bounded := fun _ => Nat.zero_le _
      recent := fun _ _ hrecent => absurd hrecent.1 (lt_irrefl 0) }
  past := fun _ _ => le_rfl

theorem Tracked.past_step (hh : h.Tracked) (hstep : h.step m = some next) (user partner : Pid) :
    next.used user partner ≤ next.count := by
  cases hstep
  dsimp only
  split
  · exact le_rfl
  · exact (hh.past user partner).trans (Nat.le_succ _)

/-- The partner of the message is the most recent one. -/
theorem Tracked.mostRecent_step (hh : h.Tracked) (hstep : h.step m = some next) :
    next.MostRecent m.pid m.fid ∧ next.MostRecent m.fid m.pid := by
  have hpast := hh.past_step hstep
  cases hstep
  constructor
  · refine ⟨by simp, fun other => (hpast m.pid other).trans ?_⟩
    simp
  · refine ⟨by simp, fun other => (hpast m.fid other).trans ?_⟩
    simp

/-- Nobody else is the most recent partner of the two. -/
theorem Tracked.eq_of_mostRecent (hh : h.Tracked) (hstep : h.step m = some next)
    (hrecent : next.MostRecent user partner) :
    user = m.pid ∧ partner = m.fid ∨ user = m.fid ∧ partner = m.pid ∨
      user ≠ m.pid ∧ user ≠ m.fid ∧ h.MostRecent user partner := by
  obtain ⟨hpid, hfid⟩ := hh.mostRecent_step hstep
  cases hstep
  by_cases hpair : user = m.pid ∧ partner = m.fid ∨ user = m.fid ∧ partner = m.pid
  · tauto
  · have hused : h.used user partner ≤ h.count := hh.past user partner
    obtain ⟨hpos, hmost⟩ := hrecent
    dsimp only at hpos hmost
    rw [if_neg hpair] at hpos hmost
    have hnot : user ≠ m.pid ∧ user ≠ m.fid := by
      constructor
      · rintro rfl
        have hle := hmost m.fid
        rw [if_pos (.inl ⟨rfl, rfl⟩)] at hle
        omega
      · rintro rfl
        have hle := hmost m.pid
        rw [if_pos (.inr ⟨rfl, rfl⟩)] at hle
        omega
    refine .inr (.inr ⟨hnot.1, hnot.2, hpos, fun other => ?_⟩)
    have hle := hmost other
    rwa [if_neg (by tauto)] at hle

/-- When the two lists accept the message, it is kept. -/
theorem Tracked.keeps (hh : h.Tracked)
    (hpid : Accepts (h.used m.pid) (h.db.list m.pid) ((h.db.addMessage m).list m.pid) m.fid)
    (hfid : Accepts (h.used m.fid) (h.db.list m.fid) ((h.db.addMessage m).list m.fid) m.pid) :
    Keeps h m := by
  intro next hstep
  have hdb : next.db = h.db.addMessage m := by
    cases hstep
    rfl
  refine ⟨⟨fun user => ?_, fun user partner hrecent => ?_⟩, fun user => ?_⟩
  · rw [hdb]
    by_cases h1 : user = m.pid
    · rw [h1]
      exact hpid.bounded
    by_cases h2 : user = m.fid
    · rw [h2]
      exact hfid.bounded
    rw [list_addMessage_of_ne h1 h2]
    exact hh.inOrder.bounded user
  · rw [hdb]
    rcases hh.eq_of_mostRecent hstep hrecent with ⟨rfl, rfl⟩ | ⟨rfl, rfl⟩ | ⟨h1, h2, hbefore⟩
    · exact hpid.partner
    · exact hfid.partner
    · rw [list_addMessage_of_ne h1 h2]
      exact hh.inOrder.recent user partner hbefore
  · rw [hdb]
    by_cases h1 : user = m.pid
    · rw [h1]
      exact hpid.drops
    by_cases h2 : user = m.fid
    · rw [h2]
      exact hfid.drops
    rw [list_addMessage_of_ne h1 h2]
    exact fun dropped hdropped hnot => absurd hdropped hnot

theorem Tracked.keeps_of_roomy (hh : h.Tracked) (hroomy : Roomy h m) : Keeps h m := by
  obtain ⟨hsend, hreceive⟩ := hroomy
  have hself := accepts_addTrimmed (hh.inOrder.bounded m.pid) hsend
  by_cases heq : m.fid = m.pid
  · -- the list of a player who writes to himself is changed twice
    have htwice : Accepts (h.used m.pid) (h.db.list m.pid) ((h.db.addMessage m).list m.pid)
        m.pid := by
      rw [list_addMessage_self heq]
      rw [heq] at hself
      exact hself.zadd
    refine hh.keeps ?_ ?_
    · rwa [heq]
    · rwa [heq]
  · refine hh.keeps ?_ ?_
    · rwa [list_addMessage_pid heq]
    · rw [list_addMessage_fid heq]
      exact accepts_zadd (hh.inOrder.bounded m.fid) (hreceive.resolve_left heq)

theorem Tracked.roomy_of_keeps (hh : h.Tracked) (hkeeps : Keeps h m) : Roomy h m := by
  obtain ⟨hrecent, -⟩ := hh.mostRecent_step (m := m) rfl
  obtain ⟨hnext, hdrops⟩ := hkeeps _ rfl
  have hpartner := hnext.recent m.pid m.fid hrecent
  have hdrops := hdrops m.pid
  have hbound := hnext.bounded m.pid
  have hle := hh.inOrder.bounded m.pid
  dsimp only at hpartner hdrops hbound
  by_cases heq : m.fid = m.pid
  · refine ⟨?_, .inl heq⟩
    rw [list_addMessage_self heq] at hdrops hbound
    rw [heq]
    refine sendable_of_accepts hle (fun dropped hdropped hnot hne => ?_) ?_
    · refine hdrops dropped hdropped ?_
      rw [SortedSet.mem_members_zadd, not_or]
      exact ⟨hne, hnot⟩
    · -- otherwise the list was full and would hold one more
      by_contra hnot
      have hcard := SortedSet.zcard_zadd_of_not_mem (s := m.tm) hnot
      have hmem : m.pid ∉ (h.db.list m.pid).members := fun hmem => hnot (by
        rw [addTrimmed_of_room (zcard_zadd_le hle (.inl hmem))]
        exact SortedSet.mem_members_zadd.mpr (.inl rfl))
      have hfull : (h.db.list m.pid).zcard = limitConversation := by
        refine le_antisymm hle (not_lt.mp fun hless => hnot ?_)
        rw [addTrimmed_of_room (zcard_zadd_le hle (.inr hless))]
        exact SortedSet.mem_members_zadd.mpr (.inl rfl)
      rcases SortedSet.zadd_trimmed_cases (s := m.tm) hmem hfull with
        ⟨-, hsame⟩ | ⟨first, rest, -, -, hmembers⟩
      · have hsame : addTrimmed (h.db.list m.pid) m.tm m.pid = h.db.list m.pid := hsame
        rw [hsame] at hcard hbound
        omega
      · exact hnot ((hmembers m.pid).mpr (.inl rfl))
  · rw [list_addMessage_pid heq] at hpartner hdrops
    refine ⟨sendable_of_accepts hle (fun dropped hdropped hnot _ => hdrops dropped hdropped hnot)
      hpartner, .inr ?_⟩
    have hbound := hnext.bounded m.fid
    dsimp only at hbound
    rw [list_addMessage_fid heq] at hbound
    by_cases hmem : m.pid ∈ (h.db.list m.fid).members
    · exact .inl hmem
    · rw [SortedSet.zcard_zadd_of_not_mem hmem] at hbound
      exact .inr hbound

theorem Tracked.step (hh : h.Tracked) (hkeeps : Keeps h m) (hstep : h.step m = some next) :
    next.Tracked where
  inOrder := (hkeeps next hstep).1
  past := hh.past_step hstep

/-- Over any sequence of messages: the lists stay in order, and drop the least recently
used conversations only, exactly as long as receivers have room for the senders and the
first entry of a sender's full list is that of his least recently used conversation. -/
theorem run_keeps_iff_roomy (messages : List (ChatMessage Pid)) (h : ChatHistory Pid) :
    Run step Keeps new messages h ↔ Run step Roomy new messages h := by
  constructor
  · refine Run.mono_of_invariant tracked_new ?_ ?_
    · intro state m hh hkeeps
      exact hh.roomy_of_keeps hkeeps
    · intro state m next hh hkeeps hstep
      exact hh.step hkeeps hstep
  · refine Run.mono_of_invariant tracked_new ?_ ?_
    · intro state m hh hroomy
      exact hh.keeps_of_roomy hroomy
    · intro state m next hh hroomy hstep
      exact hh.step (hh.keeps_of_roomy hroomy) hstep

/-- Eleven players write to one. -/
def elevenSenders : List (ChatMessage Nat) :=
  (List.range 11).map fun i => ⟨i + 1, 0, "hi", i⟩

/-- His list holds them all. -/
theorem not_inOrder_elevenSenders :
    ¬ ∀ (messages : List (ChatMessage Nat)) (h : ChatHistory Nat),
      Run step free new messages h → h.InOrder := by
  intro hall
  have hinOrder := hall elevenSenders _ (run_exec_getD new (by decide))
  have hbounded := hinOrder.bounded 0
  revert hbounded
  decide

end ChatHistory
end Social
end ArmyRs
