import Mathlib.Data.Nat.ModEq

/-!
A ring buffer of fixed capacity that overwrites its oldest entry when it is full. What it holds is
the last part of all that was ever pushed, up to its capacity.
-/

universe u

def ringSlot (head size i : Nat) : Nat :=
  (head + i) % size

theorem ringSlot_ne {head size i j : Nat} (hi : i < size) (hj : j < size) (hne : i ≠ j) :
    ringSlot head size i ≠ ringSlot head size j := by
  intro hslot
  have hmod : i ≡ j [MOD size] := Nat.ModEq.add_left_cancel' head hslot
  exact hne (hmod.eq_of_lt_of_lt hi hj)

theorem ringSlot_succ_ne {head size i : Nat} (hhead : head < size) (hi : i + 1 < size) :
    ringSlot head size (i + 1) ≠ head := by
  have hdiffer : ringSlot head size (i + 1) ≠ ringSlot head size 0 :=
    ringSlot_ne hi (by omega) (Nat.succ_ne_zero i)
  rwa [show ringSlot head size 0 = head from Nat.mod_eq_of_lt hhead] at hdiffer

theorem ringSlot_size {head size : Nat} (hhead : head < size) :
    ringSlot head size size = head := by
  unfold ringSlot
  rw [Nat.add_mod_right, Nat.mod_eq_of_lt hhead]

theorem ringSlot_advance (head size i : Nat) :
    ringSlot ((head + 1) % size) size i = ringSlot head size (i + 1) := by
  unfold ringSlot
  rw [Nat.mod_add_mod, Nat.add_assoc, Nat.add_comm 1 i]

structure RingBuffer (α : Type u) where
  entries : Nat → Option α
  size : Nat
  head : Nat
  count : Nat
  head_lt : head < size
  count_le : count ≤ size
  filled : ∀ i < count, (entries (ringSlot head size i)).isSome

namespace RingBuffer

open List Function

variable {α : Type u}

def empty (size : Nat) (hsize : 0 < size) : RingBuffer α where
  entries := fun _ => none
  size := size
  head := 0
  count := 0
  head_lt := hsize
  count_le := Nat.zero_le size
  filled := fun _ hi => absurd hi (Nat.not_lt_zero _)

def cells (r : RingBuffer α) : List (Option α) :=
  (List.range r.count).map fun i => r.entries (ringSlot r.head r.size i)

def toList (r : RingBuffer α) : List α :=
  r.cells.filterMap id

section Push
variable (r : RingBuffer α) (a : α)

theorem filled_grow (hlt : r.count < r.size) : ∀ i < r.count + 1,
    (Function.update r.entries (ringSlot r.head r.size r.count) (some a)
      (ringSlot r.head r.size i)).isSome := by
  intro i hi
  by_cases hlast : i = r.count
  · rw [hlast, update_self]
    rfl
  · rw [update_of_ne (ringSlot_ne (by omega) hlt hlast)]
    exact r.filled i (by omega)

theorem filled_turn (hfull : r.count = r.size) : ∀ i < r.count,
    (Function.update r.entries r.head (some a)
      (ringSlot ((r.head + 1) % r.size) r.size i)).isSome := by
  intro i hi
  rw [ringSlot_advance]
  by_cases hlast : i + 1 = r.size
  · rw [hlast, ringSlot_size r.head_lt, update_self]
    rfl
  · rw [update_of_ne (ringSlot_succ_ne r.head_lt (by omega))]
    exact r.filled (i + 1) (by omega)

def push : RingBuffer α :=
  if hfull : r.count = r.size then
    { entries := Function.update r.entries r.head (some a)
      size := r.size
      head := (r.head + 1) % r.size
      count := r.count
      head_lt := Nat.mod_lt _ (Nat.zero_lt_of_lt r.head_lt)
      count_le := r.count_le
      filled := r.filled_turn a hfull }
  else
    { entries := Function.update r.entries (ringSlot r.head r.size r.count) (some a)
      size := r.size
      head := r.head
      count := r.count + 1
      head_lt := r.head_lt
      count_le := Nat.lt_of_le_of_ne r.count_le hfull
      filled := r.filled_grow a (Nat.lt_of_le_of_ne r.count_le hfull) }

end Push

variable {r : RingBuffer α} {a : α}

@[simp] theorem size_push : (r.push a).size = r.size := by
  unfold push
  split <;> rfl

@[simp] theorem toList_empty {size : Nat} {hsize : 0 < size} :
    (empty size hsize : RingBuffer α).toList = [] := rfl

theorem cells_push_of_lt (hlt : r.count < r.size) : (r.push a).cells = r.cells ++ [some a] := by
  unfold push
  rw [dif_neg (Nat.ne_of_lt hlt)]
  unfold cells
  simp only [range_succ, map_append, map_singleton, update_self]
  congr 1
  apply map_congr_left
  intro i hi
  have hi : i < r.count := mem_range.mp hi
  exact update_of_ne (ringSlot_ne (by omega) hlt (by omega)) _ _

theorem cells_push_of_full (hfull : r.count = r.size) :
    (r.push a).cells = r.cells.tail ++ [some a] := by
  have hhead := r.head_lt
  obtain ⟨n, hn⟩ : ∃ n, r.count = n + 1 := ⟨r.count - 1, by omega⟩
  have hsize : r.size = n + 1 := by omega
  have htail : r.cells.tail =
      (range n).map fun i => r.entries (ringSlot r.head r.size (i + 1)) := by
    unfold cells
    rw [hn, range_succ_eq_map, map_cons, map_map]
    rfl
  rw [htail]
  unfold push
  rw [dif_pos hfull]
  unfold cells
  simp only [hn, range_succ, map_append, map_singleton, ringSlot_advance]
  congr 1
  · apply map_congr_left
    intro i hi
    have hi : i < n := mem_range.mp hi
    exact update_of_ne (ringSlot_succ_ne hhead (by omega)) _ _
  · rw [← hsize, ringSlot_size hhead, update_self]

theorem cells_eq : r.cells = r.toList.map some := by
  have hall : ∀ c ∈ r.cells, c.isSome :=
    forall_mem_map.mpr fun i hi => r.filled i (mem_range.mp hi)
  rw [toList, map_filterMap_some_eq_filter_map_isSome, map_id, filter_eq_self.mpr hall]

theorem length_toList : r.toList.length = r.count := by
  have hlength := congrArg length (cells_eq (r := r))
  simpa [cells] using hlength.symm

theorem toList_push_of_lt (hlt : r.count < r.size) : (r.push a).toList = r.toList ++ [a] := by
  unfold toList
  rw [cells_push_of_lt hlt, filterMap_append]
  rfl

theorem toList_push_of_full (hfull : r.count = r.size) :
    (r.push a).toList = r.toList.tail ++ [a] := by
  have htail : r.cells.tail.filterMap id = r.toList.tail := by
    rw [cells_eq, ← map_tail, filterMap_map]
    simp
  unfold toList at htail ⊢
  rw [cells_push_of_full hfull, filterMap_append, htail]
  rfl

def Records (r : RingBuffer α) (log : List α) : Prop :=
  r.toList = log.drop (log.length - r.size)

theorem records_empty {size : Nat} {hsize : 0 < size} :
    (empty size hsize : RingBuffer α).Records [] := by
  simp [Records]

theorem Records.push {log : List α} (h : r.Records log) (a : α) :
    (r.push a).Records (log ++ [a]) := by
  have hhead := r.head_lt
  have hcount : r.count = min log.length r.size := by
    rw [← length_toList, h, length_drop]
    omega
  unfold Records at h ⊢
  rw [size_push, length_append, length_singleton]
  by_cases hfull : r.count = r.size
  · rw [toList_push_of_full hfull, h, tail_drop, drop_append_of_le_length (by omega)]
    congr 2
    omega
  · have hle := r.count_le
    rw [toList_push_of_lt (by omega), h, drop_append_of_le_length (by omega)]
    congr 2
    omega

end RingBuffer
