import Droidcli.Lib.Cursor
import Droidcli.Lib.Trace
import Droidcli.Media.MemoryInput

namespace Droidcli.Media

open Bytes Trace

variable {buffer : Buffer} {input input' : MemoryInput} {call : Call} {calls : List Call}
  {n : UInt64} {position sum d : Int64} {bufferSize whence : Int32} {c : Cursor UInt8}

-- Where a relative seek starts from.
def MemoryInput.base (input : MemoryInput) (whence : Int32) : Option UInt64 :=
  if whence = seekCur then some input.offset
  else if whence = seekEnd then some input.size
  else none

structure FileLike (buffer : Buffer) (calls : List Call) : Prop where
  defined : ∃ input, Run CallStep buffer.input calls input
  bounded : ∀ before after input,
    calls = before ++ after → Run CallStep buffer.input before input →
      input.size.toNat = buffer.bytes.length ∧ input.offset ≤ input.size
  reads : ∀ before sizes after input,
    calls = before ++ sizes.map .read ++ after → Run CallStep buffer.input before input →
      ∃ input', readPackets input sizes = some
        ((buffer.bytes.drop input.offset.toNat).take (sizes.map Int32.toNatClampNeg).sum, input')
  relative : ∀ before offset whence after input base,
    calls = before ++ .seek offset whence :: after → Run CallStep buffer.input before input →
      input.base whence = some base →
        ∃ position : Int64, position.toInt = base.toNat + offset.toInt ∧
          seekMemoryPacket (some input) offset whence =
            seekMemoryPacket (some input) position seekSet

-- A relative seek aims at a position that an `int64_t` holds, and at none before the start unless
-- there is nothing behind it.
def Within (input : MemoryInput) : Call → Prop
  | .read _             => True
  | .seek offset whence => ∀ base ∈ input.base whence,
    base.toNat + offset.toInt < 2 ^ 63 ∧ (0 ≤ base.toNat + offset.toInt ∨ input.size = 0)

-- What a file does on the call.
def Call.on (c : Cursor UInt8) : Call → Cursor UInt8
  | .read bufferSize    => c.skip bufferSize.toNatClampNeg
  | .seek offset whence =>
    if whence = seekSet then c.seek offset.toInt
    else if whence = seekCur then c.seek (c.position + offset.toInt)
    else if whence = seekEnd then c.seek (c.items.length + offset.toInt)
    else c

-- An input that is read where the file is.
structure Views (c : Cursor UInt8) (input : MemoryInput) : Prop where
  data : input.data = some c.items
  size : input.size.toNat = c.items.length
  offset : input.offset.toNat = c.position
  fits : c.items.length < 2 ^ 63

-- What a read of `n` bytes is to give: what the file gives, and how much that is.
def Gives (c : Cursor UInt8) (n : Nat) (result : Option (Int32 × Bytes × Option MemoryInput)) :
    Prop :=
  ∃ returned input', result = some (returned, c.read n, some input') ∧
    (c.read n).length = returned.toNatClampNeg ∧ Views (c.skip n) input'

section Casts

theorem toInt_toInt64 (h : n.toNat < 2 ^ 63) : n.toInt64.toInt = n.toNat := by
  have hn : n.toInt64 = Int64.ofNat n.toNat := by simp [← UInt64.toInt64_ofNat']
  rw [hn, Int64.toInt_ofNat_of_lt h]

theorem toNat_toUInt64 (h : 0 ≤ position.toInt) :
    position.toUInt64.toNat = position.toInt.toNat :=
  Int64.toNat_toUInt64_of_le <| by simpa [Int64.le_iff_toInt_le] using h

-- A negative position, which the cast takes to one far behind every buffer.
theorem le_toNat_toUInt64 (h : position.toInt < 0) : 2 ^ 63 ≤ position.toUInt64.toNat := by
  have := BitVec.toInt_neg_iff.mp h
  rw [← Int64.toNat_toBitVec]
  omega

theorem toNat_toInt64 (h : 0 ≤ bufferSize.toInt) :
    bufferSize.toInt64.toUInt64.toNat = bufferSize.toNatClampNeg := by
  rw [toNat_toUInt64 (by simpa using h), Int32.toInt_toInt64]
  rfl

end Casts

theorem checkedAdd_eq_some :
    checkedAdd position d = some sum ↔ sum.toInt = position.toInt + d.toInt := by
  unfold checkedAdd
  constructor
  case mp =>
    intro h
    have ⟨hb, h⟩ := Option.ite_none_right_eq_some.mp h
    rw [← Option.some.inj h]
    exact Int64.toInt_ofInt_of_le hb.left (Int.lt_add_one_of_le hb.right)
  case mpr =>
    intro h
    have hb : Int64.minValue.toInt ≤ sum.toInt ∧ sum.toInt ≤ Int64.maxValue.toInt :=
      ⟨sum.le_toInt, Int.le_of_lt_add_one sum.toInt_lt⟩
    simp only [← h, if_pos hb, Int64.ofInt_toInt]

-- A seek that moves the input does so behind the `switch`.
theorem seek_cases {returned : Int64} {output : Option MemoryInput}
    (h : seekMemoryPacket (some input) d whence = some (returned, output)) :
    output = some input ∨ ∃ n, input.moveTo n = (returned, output) := by
  simp only [seekMemoryPacket] at h
  split at h
  case isTrue => exact .inr ⟨_, Option.some.inj h⟩
  split at h
  case isFalse.isTrue =>
    have ⟨sum, _, hm⟩ := Option.map_eq_some_iff.mp h
    exact .inr ⟨_, hm⟩
  split at h
  case isFalse.isFalse.isTrue =>
    have ⟨sum, _, hm⟩ := Option.map_eq_some_iff.mp h
    exact .inr ⟨_, hm⟩
  split at h
  all_goals exact .inl (congrArg Prod.snd (Option.some.inj h)).symm

theorem MemoryInput.base_cases {b : UInt64} (h : b ∈ input.base whence) :
    whence = seekCur ∧ b = input.offset ∨ whence = seekEnd ∧ b = input.size := by
  unfold base at h
  split at h
  case isTrue hw => exact .inl ⟨hw, (Option.some.inj h).symm⟩
  split at h
  case isFalse.isTrue hw => exact .inr ⟨hw, (Option.some.inj h).symm⟩
  case isFalse.isFalse => simp at h

section Still

variable (hs : whence ≠ seekSet) (hb : input.base whence = none)
include hb

theorem MemoryInput.base_none : whence ≠ seekCur ∧ whence ≠ seekEnd := by
  unfold base at hb
  split at hb
  case isTrue => simp at hb
  case isFalse hc =>
    split at hb
    case isTrue     => simp at hb
    case isFalse he => exact ⟨hc, he⟩

include hs

theorem stays : CallStep input (.seek d whence) input := by
  have ⟨hc, he⟩ := MemoryInput.base_none hb
  simp only [CallStep, Call.apply, seekMemoryPacket, if_neg hs, if_neg hc, if_neg he]
  split <;> rfl

theorem on_none : (Call.seek d whence).on c = c := by
  have ⟨hc, he⟩ := MemoryInput.base_none hb
  rw [Call.on, if_neg hs, if_neg hc, if_neg he]

end Still

namespace Views

theorem start : Views (.start buffer.bytes) buffer.input where
  data   := rfl
  size   := UInt64.toNat_ofNat_of_lt' (buffer.fits.trans (by decide))
  offset := rfl
  fits   := buffer.fits

variable (v : Views c input)
include v

theorem offset_le : input.offset ≤ input.size := by
  rw [UInt64.le_iff_toNat_le, v.offset, v.size]
  exact c.within

theorem toNat_remaining : (input.size - input.offset).toNat = c.items.length - c.position := by
  rw [UInt64.toNat_sub_of_le _ _ v.offset_le, v.size, v.offset]

theorem moveTo (n : UInt64) : ∃ offset : UInt64,
    input.moveTo n = (offset.toInt64, some { input with offset }) ∧
      offset.toNat = (c.seek n.toNat).position := by
  refine ⟨_, rfl, ?_⟩
  rw [Cursor.seek_position, Int.toNat_natCast, ← v.size]
  split
  case isTrue h  => exact (Nat.min_eq_right (UInt64.lt_iff_toNat_lt.mp h).le).symm
  case isFalse h => exact (Nat.min_eq_left (Nat.le_of_not_lt h)).symm

theorem gives_eof {k : Nat} (h : c.read k = []) :
    Gives c k (some (averrorEof, [], some input)) := by
  refine ⟨averrorEof, input, by rw [h], by rw [h]; rfl, ?_⟩
  rwa [c.skip_of_read_nil h]

theorem toNat_toRead {wanted toRead : UInt64}
    (h : toRead = if wanted < input.size - input.offset then wanted else input.size - input.offset) :
    toRead.toNat = min wanted.toNat (c.items.length - c.position) := by
  rw [← v.toNat_remaining, h]
  split
  case isTrue h  => exact (Nat.min_eq_left (UInt64.lt_iff_toNat_lt.mp h).le).symm
  case isFalse h => exact (Nat.min_eq_right (Nat.le_of_not_lt h)).symm

theorem read (bufferSize : Int32) :
    Gives c bufferSize.toNatClampNeg (readMemoryPacket (some input) bufferSize) := by
  have hl := c.read_length (n := bufferSize.toNatClampNeg)
  have hw := c.within
  have hf := v.fits
  simp only [readMemoryPacket, v.data]
  split
  case isTrue hn =>
    have hz : bufferSize.toNatClampNeg = 0 := Int.toNat_of_nonpos (Int32.le_iff_toInt_le.mp hn)
    exact v.gives_eof (by simp [hz, Cursor.read])
  split
  case isFalse.isTrue he =>
    rw [UInt64.le_iff_toNat_le, v.offset, v.size] at he
    exact v.gives_eof (List.eq_nil_of_length_eq_zero (by rw [hl]; omega))
  case isFalse.isFalse hn he =>
    have hn : 0 < bufferSize.toInt := by simpa [Int32.le_iff_toInt_le] using hn
    have hlt : bufferSize.toNatClampNeg < 2 ^ 31 := bufferSize.toNatClampNeg_lt
    generalize hr : (if bufferSize.toInt64.toUInt64 < input.size - input.offset then _ else _) =
      toRead
    have hr := toNat_toInt64 hn.le ▸ v.toNat_toRead hr.symm
    rw [if_pos (by rw [v.offset]; omega)]
    refine ⟨.ofNat toRead.toNat, ⟨some c.items, input.size, input.offset + toRead⟩, ?_, ?_,
      rfl, v.size, ?_, v.fits⟩
    · rw [v.offset, hr, ← List.length_drop, ← List.take_eq_take_min]
      rfl
    · rw [Int32.toNatClampNeg_ofNat_of_lt (by omega), hr, hl]
    · rw [UInt64.toNat_add, v.offset, hr, Cursor.skip_position]
      omega

theorem readPackets (sizes : List Int32) :
    ∃ input', Media.readPackets input sizes =
      some (c.read (sizes.map Int32.toNatClampNeg).sum, input') := by
  induction sizes generalizing c input
  case nil => exact ⟨input, rfl⟩
  case cons bufferSize sizes hi =>
    have ⟨returned, input', hr, hl, v'⟩ := v.read bufferSize
    have ⟨input'', hs⟩ := hi v'
    refine ⟨input'', ?_⟩
    simp only [Media.readPackets, hr, hs, ← hl, List.take_length]
    rw [List.map_cons, List.sum_cons, ← c.read_append]
    rfl

theorem moveTo_eq_iff {m : UInt64} :
    input.moveTo m = input.moveTo n ↔ c.seek m.toNat = c.seek n.toNat := by
  have ⟨o, hm, ho⟩ := v.moveTo m
  have ⟨o', hn, ho'⟩ := v.moveTo n
  rw [hm, hn]
  constructor
  case mp =>
    intro h
    have he : o = o' := by simpa using congrArg Prod.snd h
    ext1
    case hi => rfl
    case hp => rw [← ho, ← ho', he]
  case mpr =>
    intro h
    rw [UInt64.toNat_inj.mp (ho.trans (h ▸ ho'.symm))]

theorem views_moveTo (n : UInt64) : ∃ returned input',
    input.moveTo n = (returned, some input') ∧ Views (c.seek n.toNat) input' := by
  have ⟨o, hm, ho⟩ := v.moveTo n
  exact ⟨_, _, hm, v.data, v.size, ho, v.fits⟩

theorem seekSet (d : Int64) : ∃ returned input',
    seekMemoryPacket (some input) d seekSet = some (returned, some input') ∧
      Views (c.seek d.toInt) input' := by
  have hs : c.seek d.toInt = c.seek (if d < 0 then 0 else d.toUInt64).toNat := by
    split
    case isTrue h  => exact c.seek_of_nonpos (Int64.lt_iff_toInt_lt.mp h).le
    case isFalse h =>
      have hd : 0 ≤ d.toInt := by simpa [Int64.lt_iff_toInt_lt] using h
      rw [toNat_toUInt64 hd, Int.toNat_of_nonneg hd]
  have ⟨returned, input', hm, v'⟩ := v.views_moveTo (if d < 0 then 0 else d.toUInt64)
  exact ⟨returned, input', congrArg some hm, hs ▸ v'⟩

theorem base_lt {b : UInt64} (hb : b ∈ input.base whence) : b.toNat < 2 ^ 63 := by
  have hf := v.fits
  have hw := c.within
  obtain ⟨_, rfl⟩ | ⟨_, rfl⟩ := input.base_cases hb
  case inl => rw [v.offset]; omega
  case inr => rw [v.size]; exact hf

-- A relative seek to a position that there is moves to what the cast makes of it.
theorem seek_base {b : UInt64} (hb : b ∈ input.base whence)
    (hp : position.toInt = b.toNat + d.toInt) :
    seekMemoryPacket (some input) d whence = some (input.moveTo position.toUInt64) := by
  have ha : checkedAdd b.toInt64 d = some position :=
    checkedAdd_eq_some.mpr (toInt_toInt64 (v.base_lt hb) ▸ hp)
  obtain ⟨rfl, rfl⟩ | ⟨rfl, rfl⟩ := input.base_cases hb
  all_goals
    simp only [seekMemoryPacket, ha]
    rfl

-- A position before the start is cast to one behind the end, where `SEEK_SET` goes to the start.
theorem moveTo_cast_iff :
    input.moveTo position.toUInt64 =
        input.moveTo (if position < 0 then 0 else position.toUInt64) ↔
      0 ≤ position.toInt ∨ input.size = 0 := by
  have hs : input.size = 0 ↔ c.items.length = 0 := by
    rw [← v.size, ← UInt64.toNat_inj]
    rfl
  rw [hs]
  split
  case isFalse h =>
    have hp : 0 ≤ position.toInt := by simpa [Int64.lt_iff_toInt_lt] using h
    exact iff_of_true rfl (.inl hp)
  case isTrue h =>
    have hp : position.toInt < 0 := Int64.lt_iff_toInt_lt.mp h
    have hn := le_toNat_toUInt64 hp
    have hf := v.fits
    rw [v.moveTo_eq_iff, or_iff_right (by omega), Cursor.ext_iff]
    simp only [Cursor.seek_items, true_and, Cursor.seek_position, Int.toNat_natCast,
      UInt64.toNat_zero]
    omega

theorem relative_iff {b : UInt64} (hb : b ∈ input.base whence) :
    (∃ position : Int64, position.toInt = b.toNat + d.toInt ∧
      seekMemoryPacket (some input) d whence =
        seekMemoryPacket (some input) position Media.seekSet) ↔
    b.toNat + d.toInt < 2 ^ 63 ∧ (0 ≤ b.toNat + d.toInt ∨ input.size = 0) := by
  constructor
  case mp =>
    intro ⟨position, hp, hs⟩
    have hm := Option.some.inj ((v.seek_base hb hp).symm.trans hs)
    exact hp ▸ ⟨position.toInt_lt, v.moveTo_cast_iff.mp hm⟩
  case mpr =>
    intro ⟨hl, hz⟩
    have hd := d.le_toInt
    have hp : (Int64.ofInt (b.toNat + d.toInt)).toInt = b.toNat + d.toInt :=
      Int64.toInt_ofInt_of_le (by omega) hl
    refine ⟨_, hp, ?_⟩
    rw [v.seek_base hb hp, v.moveTo_cast_iff.mpr (hp.symm ▸ hz)]
    rfl

-- Wherever a call has gone, it is still a position of the same bytes.
theorem keeps (h : CallStep input call input') : ∃ c', c'.items = c.items ∧ Views c' input' := by
  cases call
  case read bufferSize =>
    have ⟨returned, input'', hr, _, v'⟩ := v.read bufferSize
    simp only [CallStep, Call.apply, hr, Option.map_some, Option.some.injEq] at h
    exact ⟨c.skip _, rfl, h ▸ v'⟩
  case seek d whence =>
    have ⟨⟨returned, output⟩, hs, ho⟩ := Option.map_eq_some_iff.mp h
    obtain rfl : output = some input' := ho
    cases seek_cases hs
    case inl hi => exact ⟨c, rfl, Option.some.inj hi ▸ v⟩
    case inr hm =>
      have ⟨n, hm⟩ := hm
      have ⟨_, input'', hm', v'⟩ := v.views_moveTo n
      have hi : some input' = some input'' := congrArg Prod.snd (hm.symm.trans hm')
      exact ⟨c.seek _, rfl, Option.some.inj hi ▸ v'⟩

theorem on_base {b : UInt64} (hb : b ∈ input.base whence) :
    (Call.seek d whence).on c = c.seek (b.toNat + d.toInt) := by
  obtain ⟨rfl, rfl⟩ | ⟨rfl, rfl⟩ := input.base_cases hb
  case inl =>
    rw [v.offset]
    rfl
  case inr =>
    rw [v.size]
    rfl

theorem step (hw : Within input call) :
    ∃ input', CallStep input call input' ∧ Views (call.on c) input' := by
  cases call
  case read bufferSize =>
    obtain ⟨returned, input', hr, _, v'⟩ := v.read bufferSize
    exact ⟨input', by simp [CallStep, Call.apply, hr], v'⟩
  case seek d whence =>
    by_cases hs : whence = Media.seekSet
    case pos =>
      obtain ⟨returned, input', hm, v'⟩ := v.seekSet d
      exact ⟨input', by simp [CallStep, Call.apply, hs, hm], by simpa [Call.on, hs] using v'⟩
    cases hb : input.base whence
    case neg.none => exact ⟨input, stays hs hb, on_none hs hb ▸ v⟩
    case neg.some b =>
      obtain ⟨position, hp, hr⟩ := (v.relative_iff hb).mpr (hw b hb)
      obtain ⟨returned, input', hm, v'⟩ := v.seekSet position
      refine ⟨input', by simp [CallStep, Call.apply, hr, hm], ?_⟩
      rwa [v.on_base hb, ← hp]

end Views

theorem callStep_functional : Functional CallStep := by
  intro input call input₁ input₂ h₁ h₂
  exact Option.some.inj (Option.some.inj (h₁.symm.trans h₂))

-- Whatever the calls, the input is at a position of its bytes.
theorem views_of_run (r : Run CallStep buffer.input calls input) :
    ∃ c, c.items = buffer.bytes ∧ Views c input := by
  induction r
  case nil => exact ⟨_, rfl, .start⟩
  case snoc r hs hi =>
    have ⟨c, hc, v⟩ := hi
    have ⟨c', hc', v'⟩ := v.keeps hs
    exact ⟨c', hc'.trans hc, v'⟩

theorem fileLike_iff : FileLike buffer calls ↔
    ∃ input, Guarded (fun _ => Within) CallStep buffer.input calls input := by
  simp only [Guarded.iff_run callStep_functional]
  constructor
  case mp =>
    intro f
    have ⟨input, r⟩ := f.defined
    refine ⟨input, r, fun before call after s hc r => ?_⟩
    have ⟨c, _, v⟩ := views_of_run r
    cases call
    case read => trivial
    case seek d whence =>
      intro b hb
      exact (v.relative_iff hb).mp (f.relative before d whence after s b hc r hb)
  case mpr =>
    intro ⟨input, r, hw⟩
    refine ⟨⟨input, r⟩, ?bounded, ?reads, ?relative⟩
    case bounded =>
      intro before after s hc r
      have ⟨c, hb, v⟩ := views_of_run r
      exact ⟨hb ▸ v.size, v.offset_le⟩
    case reads =>
      intro before sizes after s hc r
      have ⟨c, hb, v⟩ := views_of_run r
      rw [← hb, v.offset]
      exact v.readPackets sizes
    case relative =>
      intro before d whence after s b hc r hb
      have ⟨c, _, v⟩ := views_of_run r
      exact (v.relative_iff hb).mpr (hw before (.seek d whence) after s hc r b hb)

-- A byte before the start is behind the end.
theorem not_fileLike : ¬∀ buffer calls, FileLike buffer calls := by
  intro h
  let buffer : Buffer := ⟨str "RIFF", by decide⟩
  have ⟨position, hp, hs⟩ :=
    (h buffer [.seek (-1) seekCur]).relative [] (-1) seekCur [] _ _ rfl .nil rfl
  obtain rfl : position = -1 := Int64.toInt_inj.mp hp
  exact absurd hs (by decide +kernel)

end Droidcli.Media
