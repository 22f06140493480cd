import MessageLoop.Redis.Live

/-!
Stream IDs and offsets (`pkg/redisbroker/history.go`): an offset packs the two numbers of an ID
into 64 bits, 20 of them for the number within the millisecond. On IDs that fit, the packing keeps
the order in which Redis compares IDs, so that a range that starts at an offset has exactly the
entries with that offset or a later one.
-/

namespace MessageLoop.Redis

open UInt64

/-- Redis compares IDs as 128-bit numbers. -/
def StreamID.rank (id : StreamID) : Nat :=
  id.ms.toNat * 2 ^ 64 + id.seq.toNat

def StreamID.Representable (id : StreamID) : Prop :=
  id.ms.toNat < 2 ^ 44 ∧ id.seq.toNat < 2 ^ 20

instance (id : StreamID) : Decidable id.Representable :=
  inferInstanceAs (Decidable (_ ∧ _))

/-- The inclusive start of a range; the zero offset is the beginning of the stream. -/
def streamStartID (sinceOffset : UInt64) : StreamID :=
  if sinceOffset = 0 then ⟨0, 0⟩ else ⟨sinceOffset >>> 20, sinceOffset &&& 0xFFFFF⟩

section IDs
variable {id last : StreamID} {now : UInt64}

theorem toNat_parseStreamOffset (hid : id.Representable) :
    (parseStreamOffset id).toNat = id.ms.toNat * 2 ^ 20 + id.seq.toNat := by
  have hms := hid.1
  have htwenty : (20 : UInt64).toNat % 64 = 20 := by decide
  have hsmall : id.ms.toNat * 2 ^ 20 < 2 ^ 64 := by omega
  have hshift : (id.ms <<< 20).toNat = id.ms.toNat * 2 ^ 20 := by
    rw [UInt64.toNat_shiftLeft, htwenty, Nat.shiftLeft_eq, Nat.mod_eq_of_lt hsmall]
  rw [parseStreamOffset, UInt64.toNat_or, hshift, ← Nat.shiftLeft_eq,
    ← Nat.shiftLeft_add_eq_or_of_lt hid.2]

theorem toNat_streamStartID (offset : UInt64) :
    (streamStartID offset).ms.toNat = offset.toNat / 2 ^ 20 ∧
      (streamStartID offset).seq.toNat = offset.toNat % 2 ^ 20 := by
  unfold streamStartID
  split
  case isTrue hzero => simp [hzero]
  case isFalse =>
    have hmask : (0xFFFFF : UInt64).toNat = 2 ^ 20 - 1 := by decide
    refine ⟨?_, ?_⟩
    · have htwenty : (20 : UInt64).toNat % 64 = 20 := by decide
      rw [UInt64.toNat_shiftRight, htwenty, Nat.shiftRight_eq_div_pow]
    · rw [UInt64.toNat_and, hmask, Nat.and_two_pow_sub_one_eq_mod]

theorem startID_le_iff (hid : id.Representable) (offset : UInt64) :
    (streamStartID offset).rank ≤ id.rank ↔ offset ≤ parseStreamOffset id := by
  obtain ⟨hms, hseq⟩ := toNat_streamStartID offset
  have hoffset := toNat_parseStreamOffset hid
  have hdiv := Nat.div_add_mod offset.toNat (2 ^ 20)
  have hmod : offset.toNat % 2 ^ 20 < 2 ^ 20 := Nat.mod_lt _ (by decide)
  have hsmall := hid.2
  have hbound := id.seq.toNat_lt
  rw [le_iff_toNat_le, hoffset, StreamID.rank, StreamID.rank, hms, hseq]
  constructor
  · intro hle
    omega
  · intro hle
    omega

theorem packed_lt_iff {width a b x y : Nat} (hx : x < width) (hy : y < width) :
    a * width + x < b * width + y ↔ a < b ∨ a = b ∧ x < y := by
  rcases lt_trichotomy a b with hlt | rfl | hgt
  · have hmul : (a + 1) * width ≤ b * width := Nat.mul_le_mul_right _ hlt
    rw [Nat.add_mul] at hmul
    omega
  · omega
  · have hmul : (b + 1) * width ≤ a * width := Nat.mul_le_mul_right _ hgt
    rw [Nat.add_mul] at hmul
    omega

theorem offset_lt_iff {a b : StreamID} (ha : a.Representable) (hb : b.Representable) :
    parseStreamOffset a < parseStreamOffset b ↔ a.rank < b.rank := by
  rw [lt_iff_toNat_lt, toNat_parseStreamOffset ha, toNat_parseStreamOffset hb,
    packed_lt_iff ha.2 hb.2, StreamID.rank, StreamID.rank,
    packed_lt_iff a.seq.toNat_lt b.seq.toNat_lt]

theorem toNat_succ {n : UInt64} (hroom : n.toNat < 2 ^ 64 - 1) : (n + 1).toNat = n.toNat + 1 := by
  have hone : (1 : UInt64).toNat = 1 := by decide
  rw [UInt64.toNat_add, hone, Nat.mod_eq_of_lt (by omega)]

theorem rank_lt_nextID (h : nextID last now = some id) : last.rank < id.rank := by
  have hseq := last.seq.toNat_lt
  unfold nextID at h
  split at h
  case isTrue hnow =>
    cases h
    rw [lt_iff_toNat_lt] at hnow
    simp only [StreamID.rank, UInt64.toNat_zero]
    omega
  case isFalse =>
    split at h
    case isTrue hroom =>
      cases h
      rw [lt_iff_toNat_lt, toNat_ofNat_of_lt' (by decide)] at hroom
      have hsucc : (last.seq + 1).toNat = last.seq.toNat + 1 :=
        toNat_succ (by omega)
      simp only [StreamID.rank, hsucc]
      omega
    case isFalse =>
      split at h
      case isFalse => cases h
      case isTrue hroom =>
        cases h
        rw [lt_iff_toNat_lt, toNat_ofNat_of_lt' (by decide)] at hroom
        have hsucc : (last.ms + 1).toNat = last.ms.toNat + 1 :=
          toNat_succ (by omega)
        simp only [StreamID.rank, hsucc, UInt64.toNat_zero]
        omega

end IDs

section Ranges
variable {β : Type}

def Entry.offset (e : Entry β) : UInt64 :=
  parseStreamOffset e.id

def streamEntrySeq (e : Entry β) : UInt64 :=
  .ofNat e.seq

/-- `XRANGE start + COUNT count`. -/
def xrangeN (entries : List (Entry β)) (start : StreamID) (count : Nat) : List (Entry β) :=
  (entries.filter fun e => decide (start.rank ≤ e.id.rank)).take count

def Increasing (entries : List (Entry β)) : Prop :=
  entries.Pairwise fun a b => a.id.rank < b.id.rank

theorem xrangeN_of_forall {entries : List (Entry β)} {start : StreamID} {count : Nat}
    (hall : ∀ e ∈ entries, start.rank ≤ e.id.rank) :
    xrangeN entries start count = entries.take count := by
  rw [xrangeN, List.filter_eq_self.mpr fun e he => by simpa using hall e he]

end Ranges

end MessageLoop.Redis
