import ArmyRs.Foundation.DoublyLinked

/-!
# The area of interest

An `aoi_space` keeps its objects in three doubly linked lists, one for each coordinate,
each between a head and a tail that have no object.  `add` looks in each list for the
place of a new object while it collects the objects in sight, and `update_obj_pos` moves
an object within the lists.

Objects are named by their ids.  Ids are those that a slot of the id map can hold: not
empty, and of at most `MAX_UID_LEN` characters; `ids` stands for the map
(`MappedSpace.follows_of_run`).  The objects in sight, which an operation reports, are
collected in `AoiSight`; that changes none of the three lists.
-/

namespace ArmyRs
namespace Aoi

open Foundation

/-- The indices 0, 1 and 2. -/
inductive Axis
  | x
  | y
  | z
  deriving DecidableEq, Repr

/-- A `uint32_t` for each axis. -/
abbrev Position := Axis → BitVec 32

/-- An `object_list`: one without an object is the head or the tail of its list. -/
inductive Node (Uid : Type*)
  | head
  | tail
  | node (obj : Uid)
  deriving DecidableEq, Repr

abbrev ObjectList (Uid : Type*) := Links (Node Uid)

structure Object (Uid : Type*) where
  position : Position
  posIter : Axis → Option (Node Uid)

/-- The ids in the map, the objects under their ids, and `x_list`, `y_list` and
`z_list`. -/
structure AoiSpace (Uid : Type*) where
  ids : List Uid
  object : Uid → Object Uid
  lists : Axis → ObjectList Uid
  radius : BitVec 32

variable {Uid : Type*}

/-! ## Lists of objects -/

/-- The nodes of a list with these objects. -/
def nodes (xs : List Uid) : List (Node Uid) := .head :: (xs.map .node ++ [Node.tail])

/-- The node in front of which an object stands. -/
def firstNode : List Uid → Node Uid
  | [] => .tail
  | u :: _ => .node u

/-- The node behind which an object stands. -/
def lastNode (xs : List Uid) : Node Uid := (xs.getLast?.map Node.node).getD .head

section

variable {xs : List Uid} {u : Uid}

theorem firstNode_nil : firstNode ([] : List Uid) = .tail := rfl

theorem firstNode_cons (u : Uid) (xs : List Uid) : firstNode (u :: xs) = .node u := rfl

theorem nodes_append (xs ys : List Uid) :
    nodes (xs ++ ys) = (Node.head :: xs.map .node) ++ (ys.map .node ++ [Node.tail]) := by
  simp [nodes]

theorem nodes_middle (xs ys : List Uid) (u : Uid) :
    nodes (xs ++ u :: ys) =
      (Node.head :: xs.map .node) ++ .node u :: (ys.map .node ++ [Node.tail]) := by
  simp [nodes]

theorem mem_nodes : .node u ∈ nodes xs ↔ u ∈ xs := by simp [nodes]

theorem nodup_nodes : (nodes xs).Nodup ↔ xs.Nodup := by
  have hinj : Function.Injective (Node.node : Uid → Node Uid) := by
    intro a b heq
    cases heq
    rfl
  have hback : (xs.map Node.node ++ [Node.tail]).Nodup ↔ xs.Nodup := by
    rw [← List.concat_eq_append, List.nodup_concat, List.nodup_map_iff hinj]
    simp
  rw [nodes, List.nodup_cons, hback]
  simp

theorem nodes_injective : Function.Injective (nodes : List Uid → List (Node Uid)) := by
  intro xs ys heq
  simp only [nodes, List.cons.injEq, List.append_left_inj, true_and] at heq
  refine List.map_injective_iff.mpr ?_ heq
  intro a b hab
  cases hab
  rfl

theorem head?_firstNode (ys : List Uid) :
    (ys.map Node.node ++ [Node.tail]).head? = some (firstNode ys) := by
  cases ys <;> rfl

theorem getLast?_lastNode (xs : List Uid) :
    (Node.head :: xs.map Node.node).getLast? = some (lastNode xs) := by
  rcases List.eq_nil_or_concat' xs with rfl | ⟨front, p, rfl⟩
  · rfl
  · simp [lastNode, List.getLast?_cons]

theorem cons_firstNode (ys : List Uid) :
    ∃ back, ys.map Node.node ++ [Node.tail] = firstNode ys :: back := by
  cases ys with
  | nil => exact ⟨[], rfl⟩
  | cons y ys => exact ⟨ys.map .node ++ [Node.tail], rfl⟩

theorem concat_lastNode (xs : List Uid) :
    ∃ front, Node.head :: xs.map Node.node = front ++ [lastNode xs] :=
  List.getLast?_eq_some_iff.mp (getLast?_lastNode xs)

end

variable [DecidableEq Uid]

def listNew : ObjectList Uid where
  next := Function.update (fun _ => none) .head (some .tail)
  prev := Function.update (fun _ => none) .tail (some .head)

/-- `list_remove_node`: a node without an object stays. -/
def listRemoveNode (l : ObjectList Uid) : Node Uid → ObjectList Uid
  | .node obj => l.unlink (.node obj)
  | _ => l

def listNodeNew (l : ObjectList Uid) (obj : Uid) : ObjectList Uid :=
  (l.setNext (some (.node obj)) none).setPrev (some (.node obj)) none

/-- `list_insert`: the node is put in front of `pos`, or behind the head; it becomes the
node of the object. -/
def listInsert (l : ObjectList Uid) (obj : Uid) (pos oldIter : Option (Node Uid)) :
    ObjectList Uid × Node Uid :=
  let node := oldIter.getD (.node obj)
  let l := if oldIter.isSome then l else listNodeNew l obj
  let l := listRemoveNode l node
  match pos with
  | some pos => (l.linkBefore node pos, node)
  | none =>
      let l :=
        match l.next .head with
        | some n => (l.setPrev (some n) (some node)).setNext (some node) (some n)
        | none => l
      ((l.setNext (some .head) (some node)).setPrev (some node) (some .head), node)

/-! What the operations do to the objects of a list -/

/-- The list holds these objects. -/
def Represents (l : ObjectList Uid) (xs : List Uid) : Prop := l.Chained (nodes xs)

section

variable {l : ObjectList Uid} {xs ys others : List Uid} {u : Uid}

theorem represents_listNew : Represents (listNew : ObjectList Uid) [] := by
  refine ⟨nodup_nodes.mpr List.nodup_nil, ?_, ?_⟩
  · show Function.update (fun _ => none) Node.head (some Node.tail) = nextIn [.head, .tail]
    rw [nextIn_cons]
    rfl
  · show Function.update (fun _ => none) Node.tail (some Node.head) = nextIn [.tail, .head]
    rw [nextIn_cons]
    rfl

theorem Represents.nodup (h : Represents l xs) : xs.Nodup := nodup_nodes.mp h.1

/-- A list holds no other objects than these. -/
theorem Represents.eq (h : Represents l xs) (hothers : Represents l others) : xs = others :=
  nodes_injective (Links.Chained.eq h hothers rfl)

theorem Represents.next_head (h : Represents l xs) : l.next .head = some (firstNode xs) := by
  have hchain : l.Chained ([] ++ .head :: (xs.map .node ++ [.tail])) := h
  rw [hchain.next_middle, head?_firstNode]

theorem Represents.next (h : Represents l (xs ++ u :: ys)) :
    l.next (.node u) = some (firstNode ys) := by
  have hchain : l.Chained _ := h
  rw [nodes_middle] at hchain
  rw [hchain.next_middle, head?_firstNode]

theorem Represents.prev (h : Represents l (xs ++ u :: ys)) :
    l.prev (.node u) = some (lastNode xs) := by
  have hchain : l.Chained _ := h
  rw [nodes_middle] at hchain
  rw [hchain.prev_middle, getLast?_lastNode]

theorem Represents.remove (h : Represents l (xs ++ u :: ys)) :
    Represents (listRemoveNode l (.node u)) (xs ++ ys) := by
  have hchain : l.Chained _ := h
  rw [nodes_middle] at hchain
  have hremoved := hchain.unlink
  rw [← nodes_append] at hremoved
  exact hremoved

theorem Represents.linkBefore (h : Represents l (xs ++ ys)) (hu : u ∉ xs ++ ys) :
    Represents (l.linkBefore (.node u) (firstNode ys)) (xs ++ u :: ys) := by
  obtain ⟨back, hback⟩ := cons_firstNode ys
  have hchain : l.Chained _ := h
  have hnot := mt mem_nodes.mp hu
  rw [nodes_append, hback] at hchain hnot
  have hlinked := hchain.linkBefore hnot
  rw [← hback, ← nodes_middle] at hlinked
  exact hlinked

theorem Represents.linkAfter (h : Represents l (xs ++ ys)) (hu : u ∉ xs ++ ys) :
    Represents (l.linkAfter (.node u) (lastNode xs)) (xs ++ u :: ys) := by
  obtain ⟨front, hfront⟩ := concat_lastNode xs
  have hchain : l.Chained _ := h
  have hnot := mt mem_nodes.mp hu
  rw [nodes_append, hfront, List.append_assoc] at hchain hnot
  have hlinked := hchain.linkAfter hnot
  rw [List.append_cons, ← hfront] at hlinked
  unfold Represents
  rw [nodes_middle]
  exact hlinked

/-- A new object gets a node of its own. -/
theorem listInsert_snd (l : ObjectList Uid) (u : Uid) (pos : Option (Node Uid)) :
    (listInsert l u pos none).2 = .node u := by
  cases pos <;> rfl

theorem Represents.insert (h : Represents l (xs ++ ys)) (hu : u ∉ xs ++ ys) :
    Represents (listInsert l u (some (firstNode ys)) none).1 (xs ++ u :: ys) := by
  have hnot := mt mem_nodes.mp hu
  have hnew : listRemoveNode (listNodeNew l u) (.node u) = l := by
    rw [listNodeNew, Links.Chained.clear h hnot]
    exact Links.Chained.unlink_of_not_mem h hnot
  show Represents ((listRemoveNode (listNodeNew l u) (.node u)).linkBefore _ _) _
  rw [hnew]
  exact h.linkBefore hu

end

/-! ## A space -/

namespace AoiSpace

/-- `aoi_init`. -/
def init : AoiSpace Uid where
  ids := []
  object := fun _ => ⟨fun _ => 0, fun _ => none⟩
  lists := fun _ => listNew
  radius := 200

/-- `map_find`. -/
def mapFind (space : AoiSpace Uid) (uid : Uid) : Option (Object Uid) :=
  if uid ∈ space.ids then some (space.object uid) else none

/-- `map_query` of an id that is not in the map, and `copy_position`. -/
def newObject (space : AoiSpace Uid) (uid : Uid) (pos : Position) : AoiSpace Uid :=
  { space with
    ids := space.ids ++ [uid]
    object := Function.update space.object uid ⟨pos, fun _ => none⟩ }

/-- The coordinate of an object. -/
def coord (space : AoiSpace Uid) (axis : Axis) (ob : Uid) : ℕ :=
  ((space.object ob).position axis).toNat

/-- The difference of the coordinates, as an `int`. -/
def diff (space : AoiSpace Uid) (axis : Axis) (pos : Position) (ob : Uid) : ℤ :=
  ((space.object ob).position axis - pos axis).toInt

/-- The loop of `add` over one list: it goes on until a coordinate is more than the radius
ahead, and answers with `pos`, the first object that is ahead. At the tail `pos` is the
tail. -/
def scan (link : Node Uid → Option (Node Uid)) (diff : Uid → ℤ) (radius : ℤ) :
    ℕ → Option (Node Uid) → Option (Node Uid) → Bool → Option (Node Uid)
  | fuel + 1, some (.node ob), pos, flag =>
      let pos := if !flag && 0 < diff ob then some (.node ob) else pos
      let flag := flag || 0 < diff ob
      if radius < diff ob then pos else scan link diff radius fuel (link (.node ob)) pos flag
  | _ + 1, some l, _, _ => some l
  | _, _, pos, _ => pos

/-- Where `add` inserts into the list of an axis. -/
def addPos (space : AoiSpace Uid) (axis : Axis) (pos : Position) : Option (Node Uid) :=
  let l := (space.lists axis).next .head
  scan (space.lists axis).next (space.diff axis pos) space.radius.toInt (space.ids.length + 1) l l
    false

/-- `add`, once the map has no object under the id. -/
def addObject (space : AoiSpace Uid) (uid : Uid) (pos : Position) : AoiSpace Uid :=
  let space := space.newObject uid pos
  let inserted := fun axis =>
    listInsert (space.lists axis) uid (space.addPos axis pos) ((space.object uid).posIter axis)
  { space with
    lists := fun axis => (inserted axis).1
    object := Function.update space.object uid ⟨pos, fun axis => some (inserted axis).2⟩ }

/-- `add`; it answers with `NULL` when the id is in the map. -/
def add (space : AoiSpace Uid) (uid : Uid) (pos : Position) : Option (AoiSpace Uid) :=
  match space.mapFind uid with
  | some _ => none
  | none => some (space.addObject uid pos)

/-- Whether the loops of `update_obj_pos` stop at a node: at one without an object, or at
one whose coordinate is far enough. -/
def stopsAt (far : Uid → Bool) : Node Uid → Bool
  | .node ob => far ob
  | _ => true

/-- The turn of `update_obj_pos` for one axis, when the object has its new position. -/
def updateAxis (space : AoiSpace Uid) (axis : Axis) (oldPos pos : BitVec 32) (node : Node Uid) :
    ObjectList Uid :=
  let l := space.lists axis
  if oldPos.toNat < pos.toNat then
    let far ob := decide (pos.toNat ≤ space.coord axis ob)
    match seek l.next (stopsAt far) (space.ids.length + 1) (l.next node) with
    | some n => (listRemoveNode l node).linkBefore node n
    | none => l
  else if pos.toNat < oldPos.toNat then
    let far ob := decide (space.coord axis ob < pos.toNat)
    match seek l.prev (stopsAt far) (space.ids.length + 1) (l.prev node) with
    | some p => (listRemoveNode l node).linkAfter node p
    | none => l
  else l

/-- `update_obj_pos`; an object that is not in all lists stays where it is. -/
def updateObjPos (space : AoiSpace Uid) (uid : Uid) (pos : Position) : AoiSpace Uid :=
  let obj := space.object uid
  if obj.posIter .x = none ∨ obj.posIter .y = none ∨ obj.posIter .z = none then space
  else
    let space :=
      { space with object := Function.update space.object uid { obj with position := pos } }
    { space with
      lists := fun axis =>
        match obj.posIter axis with
        | some node => space.updateAxis axis (obj.position axis) (pos axis) node
        | none => space.lists axis }

/-- `move`; it answers with `NULL` when the id is not in the map. -/
def move (space : AoiSpace Uid) (uid : Uid) (pos : Position) : Option (AoiSpace Uid) :=
  match space.mapFind uid with
  | some _ => some (space.updateObjPos uid pos)
  | none => none

/-- `lenter`. -/
def lenter (space : AoiSpace Uid) (uid : Uid) (pos : Position) : AoiSpace Uid :=
  match space.add uid pos with
  | some space => space
  | none => (space.move uid pos).getD space

/-- `lmove`. -/
def lmove (space : AoiSpace Uid) (uid : Uid) (pos : Position) : AoiSpace Uid :=
  (space.move uid pos).getD space

/-- `lset_radius`. -/
def lsetRadius (space : AoiSpace Uid) (radius : BitVec 32) : AoiSpace Uid :=
  { space with radius := radius }

end AoiSpace

end Aoi
end ArmyRs
