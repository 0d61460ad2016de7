import BekOS.Mm.BackingRegion

/-!
# Queued records

`Connection::QueuedMessage` and what `bek::vector` does with it.  A record is moved by
copying its bytes and clearing the source, which leaves a record that says `DATA`; and
the destructor asserts that this is what it destroys.
-/

namespace BekOS

/-- What a record carries: the size of data that is in the ring, an entity, or memory
with the permissions to place it with. -/
inductive QueuedContent where
  | data (dataSize : ℕ)
  | entity (entityHandle : ℕ)
  | memory (region : BackingRegion) (permissions : MemoryOperation)
  deriving DecidableEq

/-- `Connection::QueuedMessage` -/
structure QueuedMessage where
  content : QueuedContent
  isFinal : Bool
  messageId : ℕ
  deriving DecidableEq

namespace QueuedMessage

/-- What is left of a record that was moved from. -/
def movedFrom : QueuedMessage where
  content := .data 0
  isFinal := false
  messageId := 0

/-- The record says `DATA`. -/
def isData (message : QueuedMessage) : Bool :=
  match message.content with
  | .data _ => true
  | .entity _ | .memory _ _ => false

/-- The destructor. -/
def destroy (message : QueuedMessage) : Except Halt Unit :=
  if message.isData then .ok () else .error .notData

/-- The bytes in the ring that the record stands for. -/
def dataSize (message : QueuedMessage) : ℕ :=
  match message.content with
  | .data size => size
  | .entity _ | .memory _ _ => 0

end QueuedMessage

/-- `bek::vector<QueuedMessage>` -/
structure MessageVector where
  items : List QueuedMessage
  capacity : ℕ
  deriving DecidableEq

namespace MessageVector

/-- Without storage. -/
def empty : MessageVector where
  items := []
  capacity := 0

/-- Destroy the records of some storage. -/
def destroyAll (slots : List QueuedMessage) : Except Halt Unit :=
  slots.foldlM (fun _ slot => slot.destroy) ()

/-- `expand_storage`, if there is no room: each record is moved to the new storage, and
what is left of it is destroyed. -/
def ensureCapacity (v : MessageVector) (needed : ℕ) : Except Halt MessageVector := do
  if v.capacity < needed then
    destroyAll (v.items.map fun _ => .movedFrom)
    return { v with capacity := if v.capacity = 0 then 1 else 2 * v.capacity }
  else return v

/-- `push_back` of a temporary record, which is moved from and destroyed. -/
def pushBack (v : MessageVector) (message : QueuedMessage) : Except Halt MessageVector := do
  let v ← v.ensureCapacity (v.items.length + 1)
  QueuedMessage.movedFrom.destroy
  return { v with items := v.items ++ [message] }

/-- The loop of `pop`: each record behind the one that was moved from is moved one down,
and leaves its slot moved from. -/
def moveDown : List QueuedMessage → List QueuedMessage
  | [] => [.movedFrom]
  | next :: rest => next :: moveDown rest

/-- `pop` -/
def pop (v : MessageVector) (i : ℕ) : Except Halt (QueuedMessage × MessageVector) :=
  match v.items[i]? with
  | none => .error (.fault .panic)
  | some message => do
      let slots := v.items.take i ++ moveDown (v.items.drop (i + 1))
      destroyAll (slots.drop (slots.length - 1))
      return (message, { v with items := slots.take (slots.length - 1) })

/-- The destructor. -/
def destroy (v : MessageVector) : Except Halt Unit := destroyAll v.items

variable {v : MessageVector} {message : QueuedMessage} {rest : List QueuedMessage}

theorem destroyAll_cons (slot : QueuedMessage) (slots : List QueuedMessage) :
    destroyAll (slot :: slots) = slot.destroy >>= fun _ => destroyAll slots := rfl

theorem destroyAll_eq_ok {slots : List QueuedMessage} :
    destroyAll slots = .ok () ↔ ∀ slot ∈ slots, slot.isData = true := by
  induction slots with
  | nil => exact iff_of_true rfl nofun
  | cons slot slots ih =>
      rw [destroyAll_cons, bind_eq_ok, List.forall_mem_cons, ← ih]
      unfold QueuedMessage.destroy
      by_cases hdata : slot.isData = true
      · rw [if_pos hdata, and_iff_right hdata]
        exact ⟨fun ⟨_, _, h⟩ => h, fun h => ⟨(), rfl, h⟩⟩
      · rw [if_neg hdata]
        exact iff_of_false (fun ⟨_, h, _⟩ => nomatch h) fun h => hdata h.1

/-- **Growing** only destroys what was moved from. -/
theorem ensureCapacity_ok (v : MessageVector) (needed : ℕ) :
    ∃ v', v.ensureCapacity needed = .ok v' ∧ v'.items = v.items := by
  unfold ensureCapacity
  by_cases hroom : v.capacity < needed
  · rw [if_pos hroom]
    have hdestroy : destroyAll (v.items.map fun _ => .movedFrom) = .ok () :=
      destroyAll_eq_ok.mpr fun slot hslot => by
        obtain ⟨_, _, rfl⟩ := List.mem_map.mp hslot
        rfl
    rw [hdestroy]
    exact ⟨_, rfl, rfl⟩
  · rw [if_neg hroom]
    exact ⟨v, rfl, rfl⟩

/-- **`push_back`** adds a record, whatever it carries. -/
theorem pushBack_ok (v : MessageVector) (message : QueuedMessage) :
    ∃ v', v.pushBack message = .ok v' ∧ v'.items = v.items ++ [message] := by
  obtain ⟨v', hgrown, hitems⟩ := v.ensureCapacity_ok (v.items.length + 1)
  refine ⟨{ v' with items := v'.items ++ [message] }, ?_, by rw [hitems]⟩
  unfold pushBack
  rw [hgrown]
  rfl

theorem moveDown_eq (rest : List QueuedMessage) : moveDown rest = rest ++ [.movedFrom] := by
  induction rest with
  | nil => rfl
  | cons next rest ih => rw [moveDown, ih, List.cons_append]

/-- **`pop` of the first record** takes it out, whatever the records carry. -/
theorem pop_zero (h : v.items = message :: rest) :
    v.pop 0 = .ok (message, { v with items := rest }) := by
  have hslots : List.take 0 v.items ++
      moveDown (v.items.drop (0 + 1)) = rest ++ [.movedFrom] := by
    rw [h, moveDown_eq]
    rfl
  unfold pop
  rw [hslots, h]
  dsimp only [List.getElem?_cons_zero]
  rw [List.length_append, List.length_singleton, Nat.add_sub_cancel, List.drop_left,
    List.take_left]
  rfl

theorem pop_zero_of_nil (h : v.items = []) : v.pop 0 = .error (.fault .panic) := by
  unfold pop
  rw [h]
  rfl

end MessageVector

end BekOS
