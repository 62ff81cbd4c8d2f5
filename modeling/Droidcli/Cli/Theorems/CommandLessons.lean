import Droidcli.Cli.CommandLessons
import Droidcli.Lib.Like
import Droidcli.Lib.Utf8

namespace Droidcli.Cli

open Bytes Like Utf8

section Sorting

variable {α : Type} {le : α → α → Bool} {l : List α}

theorem pair_order {a b : α} (hn : l.Nodup) (h : [a, b].Sublist l) (h' : [b, a].Sublist l) :
    False := by
  induction l
  case nil => simp at h
  case cons c l hi =>
    have ⟨hc, hn⟩ := List.nodup_cons.mp hn
    cases h
    case cons h =>
      cases h'
      case cons h'      => exact hi hn h h'
      case cons_cons h'  => exact hc (h.subset (by simp))
    case cons_cons h =>
      cases h'
      case cons h'      => exact hc (h'.subset (by simp))
      case cons_cons h' => exact hc (h.subset (by simp))

-- A sort that keeps the order of equal elements turns a list around exactly when each element is
-- strictly behind those before it.
theorem mergeSort_eq_reverse_iff (htrans : ∀ a b c, le a b → le b c → le a c)
    (htotal : ∀ a b, le a b || le b a) (hn : l.Nodup) :
    l.mergeSort le = l.reverse ↔ l.Pairwise fun a b => ¬le a b := by
  constructor
  case mp =>
    intro h
    apply List.pairwise_iff_forall_sublist.mpr
    intro a b hs hab
    have hk : [a, b].Sublist l.reverse := h ▸ List.pair_sublist_mergeSort htrans htotal hab hs
    have hs' : [b, a].Sublist l := by simpa using hk.reverse
    exact pair_order hn hs hs'
  case mpr =>
    intro h
    have hr : l.reverse.Pairwise fun a b => le a b := by
      apply List.pairwise_reverse.mpr
      exact h.imp fun {a b} hab => by simpa [hab] using htotal a b
    refine List.Perm.eq_of_pairwise ?_ (List.pairwise_mergeSort htrans htotal l) hr ?_
    case refine_1 =>
      intro a b ha hb
      have : Std.Symm fun a b => le a b → le b a → a = b := ⟨fun _ _ h hab hba => (h hba hab).symm⟩
      have hp : l.Pairwise fun a b => le a b → le b a → a = b :=
        h.imp fun hab hab' => absurd hab' hab
      exact hp.forall_of_forall (fun _ _ _ _ => rfl) (by simpa using ha) (by simpa using hb)
    case refine_2 => exact (List.mergeSort_perm l le).trans l.reverse_perm.symm

theorem sqlLe_trans (a b c : Bytes) (hab : sqlLe a b) (hbc : sqlLe b c) : sqlLe a c := by
  simp only [sqlLe, decide_eq_true_eq] at *
  exact hab.trans hbc

theorem sqlLe_total (a b : Bytes) : sqlLe a b || sqlLe b a := by
  simpa [sqlLe] using le_total (a.map UInt8.toNat) (b.map UInt8.toNat)

end Sorting

section Folding

variable {c : UInt8} {s : Bytes} {a : Char} {t : List Char}

-- Characters that are no letters stay apart from all others.
def IsNoLetter (d : UInt8) : Prop :=
  d < 0x41 ∨ 0x5a < d ∧ d < 0x61

theorem toLower_eq_iff {d : UInt8} (hd : IsNoLetter d) : toLower c = d ↔ c = d := by
  by_cases hc : 0x41 ≤ c ∧ c ≤ 0x5a
  case neg => simp [toLower, hc]
  case pos =>
    rw [toLower, if_pos hc]
    simp only [IsNoLetter, UInt8.le_iff_toNat_le, UInt8.lt_iff_toNat_lt, ← UInt8.toNat_inj,
      UInt8.toNat_add, UInt8.reduceToNat] at hc hd ⊢
    omega

theorem mem_lowered_iff {d : UInt8} (hd : IsNoLetter d) : d ∈ lowered s ↔ d ∈ s := by
  simp [lowered, toLower_eq_iff hd]

theorem nul_mem_lowered : nul ∈ lowered s ↔ nul ∈ s :=
  mem_lowered_iff (.inl (by decide))

theorem toLower_of_le (h : 0x80 ≤ c) : toLower c = c := by
  rw [toLower, if_neg]
  rw [UInt8.le_iff_toNat_le, UInt8.le_iff_toNat_le]
  rw [UInt8.le_iff_toNat_le] at h
  simp only [UInt8.reduceToNat] at h ⊢
  omega

theorem char_toLower_of_le (h : 0x80 ≤ a.toNat) : a.toLower = a := by
  apply Char.toLower_eq_of_not_isUpper
  have h : 0x80 ≤ a.val.toNat := h
  have hz : 'Z'.val.toNat = 0x5a := rfl
  simp only [Char.isUpper, decide_eq_true_eq, not_and, UInt32.le_iff_toNat_le]
  omega

-- The characters that mean something to a pattern or to a C string.
def special : List Char :=
  ['\x00', '%', '_']

theorem char_toLower_eq_iff {d : Char} (hd : d ∈ special) : a.toLower = d ↔ a = d := by
  by_cases ha : a.toNat < 0x80
  case pos =>
    have hn : ∀ n < 0x80, (Char.ofNat n).toLower = '\x00' ↔ Char.ofNat n = '\x00' := by
      decide +kernel
    have hp : ∀ n < 0x80, (Char.ofNat n).toLower = '%' ↔ Char.ofNat n = '%' := by decide +kernel
    have ho : ∀ n < 0x80, (Char.ofNat n).toLower = '_' ↔ Char.ofNat n = '_' := by decide +kernel
    simp only [special, List.mem_cons, List.not_mem_nil, or_false] at hd
    rcases hd with rfl | rfl | rfl
    · simpa using hn a.toNat ha
    · simpa using hp a.toNat ha
    · simpa using ho a.toNat ha
  case neg => rw [char_toLower_of_le (Nat.not_lt.mp ha)]

theorem nul_mem_toLower : '\x00' ∈ t.map Char.toLower ↔ '\x00' ∈ t := by
  simp [char_toLower_eq_iff (show '\x00' ∈ special by decide)]

-- The folding of bytes is that of the characters.
theorem lowered_utf8EncodeChar :
    lowered (String.utf8EncodeChar a) = String.utf8EncodeChar a.toLower := by
  by_cases ha : a.toNat < 0x80
  case pos =>
    have h : ∀ n < 0x80, lowered (String.utf8EncodeChar (Char.ofNat n)) =
        String.utf8EncodeChar (Char.ofNat n).toLower := by decide +kernel
    simpa using h a.toNat ha
  case neg =>
    have ha := Nat.not_lt.mp ha
    have hb : ∀ b ∈ String.utf8EncodeChar a, toLower b = id b :=
      fun b hb => toLower_of_le (le_of_mem_utf8EncodeChar ha hb)
    rw [char_toLower_of_le ha, lowered, List.map_congr_left hb, List.map_id]

theorem lowered_encode : lowered (encode t) = encode (t.map Char.toLower) := by
  induction t
  case nil => rfl
  case cons a t hi =>
    rw [encode_cons, lowered, List.map_append, List.map_cons, encode_cons, ← hi,
      ← lowered_utf8EncodeChar]
    rfl

theorem nul_mem_utf8EncodeChar : nul ∈ String.utf8EncodeChar a ↔ a = '\x00' := by
  by_cases ha : a.toNat < 0x80
  case pos =>
    have h : ∀ n < 0x80, nul ∈ String.utf8EncodeChar (Char.ofNat n) ↔ Char.ofNat n = '\x00' := by
      decide +kernel
    simpa using h a.toNat ha
  case neg =>
    have ha := Nat.not_lt.mp ha
    refine iff_of_false (fun hm => ?_) (fun he => ?_)
    case refine_1 => exact absurd (le_of_mem_utf8EncodeChar ha hm) (by decide)
    case refine_2 => exact absurd (he ▸ ha) (by decide)

theorem nul_mem_encode : nul ∈ encode t ↔ '\x00' ∈ t := by
  simp [encode, nul_mem_utf8EncodeChar]

theorem cstr_encode : cstr (encode t) = encode (t.takeWhile (· ≠ '\x00')) := by
  induction t
  case nil => rfl
  case cons a t hi =>
    by_cases ha : a = '\x00'
    case pos => rw [ha]; rfl
    case neg =>
      rw [encode_cons, cstr_append (mt nul_mem_utf8EncodeChar.mp ha), hi,
        List.takeWhile_cons_of_pos (by simpa using ha), encode_cons]

end Folding

section Patterns

variable {sqlite : Sqlite} {query text : Bytes} {q t chars : List Char}

def likeItem (c : Char) : Item Char :=
  if      c = '%' then .many
  else if c = '_' then .one
  else                 .exactly c.toLower

-- The documented meaning of `text LIKE pattern`, which makes no difference between the cases of an
-- ASCII letter. It is one of characters, and says nothing of bytes that are no UTF-8.
structure Sqlite.Documented (sqlite : Sqlite) : Prop where
  like : ∀ pattern text : List Char, '\x00' ∉ pattern → '\x00' ∉ text →
    (encode pattern).length ≤ sqlite.likePatternLength →
    sqlite.like (encode pattern) (encode text) =
      Like.like (pattern.map likeItem) (text.map Char.toLower)

def IsUtf8 (s : Bytes) : Prop :=
  ∃ t, s = encode t

-- The pattern that a query is made into, up to a NUL.
def charPattern (query : List Char) : List Char :=
  ('%' :: (query.map Char.toLower ++ ['%'])).takeWhile (· ≠ '\x00')

theorem lessonPattern_encode : lessonPattern (encode q) = encode (charPattern q) := by
  have hp : String.utf8EncodeChar '%' = [percent] := by decide
  rw [charPattern, ← cstr_encode, lessonPattern, lowered_encode, encode_cons, encode_append,
    encode_cons, encode_nil, hp]
  rfl

-- Whether a text is picked for a query: as it is documented, or in whatever way where the bytes are
-- no UTF-8.
inductive Picks (sqlite : Sqlite) (query text : Bytes) : Prop
  | documented {q t : List Char} : query = encode q → text = encode t →
    like ((charPattern q).map likeItem) (t.map Char.toLower) → Picks sqlite query text
  | undocumented : ¬(IsUtf8 query ∧ IsUtf8 text) →
    sqlite.like (lessonPattern query) (lowered text) → Picks sqlite query text

theorem picks_iff (hs : sqlite.Documented) (hn : nul ∉ text)
    (hl : (lessonPattern query).length ≤ sqlite.likePatternLength) :
    Picks sqlite query text ↔ sqlite.like (lessonPattern query) (lowered text) := by
  have hd {q t : List Char} (hq : query = encode q) (ht : text = encode t) :
      sqlite.like (lessonPattern query) (lowered text) =
        like ((charPattern q).map likeItem) (t.map Char.toLower) := by
    subst hq ht
    rw [lessonPattern_encode] at hl ⊢
    rw [lowered_encode, hs.like _ _ ?_ ?_ hl, List.map_map]
    · have hf : Char.toLower ∘ Char.toLower = Char.toLower :=
        funext Char.toLower_toLower_eq_toLower
      rw [hf]
    · exact fun hm => by simpa using List.mem_takeWhile_imp hm
    · exact mt nul_mem_toLower.mp (mt nul_mem_encode.mpr hn)
  constructor
  case mp =>
    intro h
    cases h
    case documented q t hq ht h => rwa [hd hq ht]
    case undocumented hu h      => exact h
  case mpr =>
    intro h
    by_cases hu : IsUtf8 query ∧ IsUtf8 text
    case pos =>
      obtain ⟨⟨q, hq⟩, t, ht⟩ := hu
      exact .documented hq ht (hd hq ht ▸ h)
    case neg => exact .undocumented hu h

-- A text that has the query in it as a string, whatever the case of its ASCII letters is.
def Contains (query text : Bytes) : Prop :=
  lowered query <:+: lowered text

instance : Decidable (Contains query text) :=
  inferInstanceAs (Decidable (lowered query <:+: lowered text))

theorem Contains.nul_not_mem (h : Contains query text) (ht : nul ∉ text) : nul ∉ query :=
  fun hq => ht (nul_mem_lowered.mp (h.subset (nul_mem_lowered.mpr hq)))

theorem likeItem_accepts (c : Char) : (likeItem c).Accepts c.toLower := by
  simp only [likeItem]
  split_ifs <;> simp [Item.Accepts]

theorem charPattern_eq (h : '\x00' ∉ q) : charPattern q = '%' :: (q.map Char.toLower ++ ['%']) := by
  apply List.takeWhile_eq_self_iff.mpr
  intro c hc
  have hn : c = '%' ∨ c ∈ q.map Char.toLower := by simpa [or_comm] using hc
  rw [decide_eq_true_iff]
  rintro rfl
  rcases hn with hn | hn
  case inl => exact absurd hn (by decide)
  case inr => exact h (nul_mem_toLower.mp hn)

-- A query that the text has in it, character by character.
theorem contains_encode_iff :
    Contains (encode q) (encode t) ↔ q.map Char.toLower <:+: t.map Char.toLower := by
  rw [Contains, lowered_encode, lowered_encode, encode_infix_iff]

theorem like_charPattern (h : '\x00' ∉ q) :
    like ((charPattern q).map likeItem) chars ↔ ∃ s u v, chars = s ++ (u ++ v) ∧
      like ((q.map Char.toLower).map likeItem) u := by
  have hi : likeItem '%' = .many := rfl
  rw [charPattern_eq h, List.map_cons, List.map_append, List.map_singleton, hi, like_around]

-- The wildcards match themselves, among others.
theorem Contains.picks (h : Contains query text) (hn : nul ∉ query) (hu : IsUtf8 query)
    (ht : IsUtf8 text) : Picks sqlite query text := by
  obtain ⟨q, rfl⟩ := hu
  obtain ⟨t, rfl⟩ := ht
  have ⟨s, v, hs⟩ := contains_encode_iff.mp h
  refine .documented rfl rfl ((like_charPattern (mt nul_mem_encode.mpr hn)).mpr ?_)
  refine ⟨s, _, v, by simp [← hs], like_self fun c hc => ?_⟩
  obtain ⟨a, _, rfl⟩ := List.mem_map.mp hc
  have := likeItem_accepts a.toLower
  rwa [Char.toLower_toLower_eq_toLower] at this

-- Without any, the pattern matches what contains the query and nothing else.
theorem Picks.contains (h : Picks sqlite (encode q) (encode t)) (hn : '\x00' ∉ q) (hp : '%' ∉ q)
    (ho : '_' ∉ q) : Contains (encode q) (encode t) := by
  have hl : like ((charPattern q).map likeItem) (t.map Char.toLower) := by
    cases h
    case documented q' t' hq ht h => rwa [encode_inj hq, encode_inj ht]
    case undocumented hu _        => exact absurd ⟨⟨q, rfl⟩, t, rfl⟩ hu
  have hi : (q.map Char.toLower).map likeItem = (q.map Char.toLower).map .exactly := by
    rw [List.map_map, List.map_map]
    apply List.map_congr_left
    intro c hc
    have hp : c.toLower ≠ '%' := fun he => hp ((char_toLower_eq_iff (by decide)).mp he ▸ hc)
    have ho : c.toLower ≠ '_' := fun he => ho ((char_toLower_eq_iff (by decide)).mp he ▸ hc)
    simp [likeItem, hp, ho]
  obtain ⟨s, u, v, ht, hu⟩ := (like_charPattern hn).mp hl
  rw [hi, like_exactly] at hu
  exact contains_encode_iff.mpr ⟨s, v, by rw [ht, hu, List.append_assoc]⟩

end Patterns

section Lessons

variable {sqlite : Sqlite} {lesson : CommandLesson} {lessons : List CommandLesson}
variable {row : LessonRow} {query : Bytes}

def CommandLesson.texts (lesson : CommandLesson) : List Bytes :=
  [lesson.tool, lesson.broken, lesson.failureReason, lesson.working, lesson.lesson]

def CommandLesson.searched (lesson : CommandLesson) : List Bytes :=
  [lesson.tool, lesson.broken, lesson.failureReason, lesson.lesson]

def CommandLesson.Contains (query : Bytes) (lesson : CommandLesson) : Prop :=
  ∃ text ∈ lesson.searched, Cli.Contains query text

instance : Decidable (lesson.Contains query) :=
  inferInstanceAs (Decidable (∃ text ∈ lesson.searched, Cli.Contains query text))

def CommandLesson.IsWhole (lesson : CommandLesson) : Prop :=
  ∀ text ∈ lesson.texts, nul ∉ text

instance : Decidable lesson.IsWhole :=
  inferInstanceAs (Decidable (∀ text ∈ lesson.texts, nul ∉ text))

theorem isLike_iff {pattern : Bytes} : lesson.isLike sqlite pattern ↔
    ∃ text ∈ lesson.searched, sqlite.like pattern (lowered text) := by
  simp [CommandLesson.isLike, CommandLesson.searched, or_assoc]

theorem bound_eq_iff : lesson.bound = lesson ↔ lesson.IsWhole := by
  have hc {text : Bytes} : cstr text = text ↔ nul ∉ text :=
    ⟨fun h => h ▸ nul_not_mem_cstr, cstr_eq_self⟩
  cases lesson
  simp [CommandLesson.bound, CommandLesson.IsWhole, CommandLesson.texts, hc]

theorem CommandLesson.IsWhole.searched (h : lesson.IsWhole) :
    ∀ text ∈ lesson.searched, nul ∉ text := by
  intro text hm
  apply h text
  revert hm
  simp [CommandLesson.searched, texts]
  tauto

theorem nul_not_mem_bound : ∀ text ∈ lesson.bound.searched, nul ∉ text := by
  simp [CommandLesson.searched, CommandLesson.bound, nul_not_mem_cstr]

-- A lesson that is picked for a query is so for one of its texts.
def CommandLesson.Picked (sqlite : Sqlite) (query : Bytes) (lesson : CommandLesson) : Prop :=
  ∃ text ∈ lesson.searched, Picks sqlite query text

theorem picked_iff (hs : sqlite.Documented) (hn : ∀ text ∈ lesson.searched, nul ∉ text)
    (hl : (lessonPattern query).length ≤ sqlite.likePatternLength) :
    lesson.Picked sqlite query ↔ lesson.isLike sqlite (lessonPattern query) := by
  rw [isLike_iff]
  constructor
  case mp  => exact fun ⟨text, hm, hp⟩ => ⟨text, hm, (picks_iff hs (hn text hm) hl).mp hp⟩
  case mpr => exact fun ⟨text, hm, hp⟩ => ⟨text, hm, (picks_iff hs (hn text hm) hl).mpr hp⟩

-- The query stands in UTF-8.
def CommandLesson.Shows (query : Bytes) (lesson : CommandLesson) : Prop :=
  IsUtf8 query ∧ ∃ text ∈ lesson.searched, Cli.Contains query text ∧ IsUtf8 text

theorem CommandLesson.Shows.picked (h : lesson.Shows query) (hw : lesson.IsWhole) :
    lesson.Picked sqlite query := by
  have ⟨hu, text, hm, hc, ht⟩ := h
  exact ⟨text, hm, hc.picks (hc.nul_not_mem (hw.searched text hm)) hu ht⟩

end Lessons

section Search

variable {sqlite : Sqlite} {lesson : CommandLesson} {lessons : List CommandLesson} {row row' : LessonRow}
variable {query : Bytes}

namespace LessonStore

-- A store in which the lessons have been recorded one after the other.
def recorded (lessons : List CommandLesson) : LessonStore :=
  lessons.foldl (fun store lesson => (store.recordLesson lesson).2) ⟨true, []⟩

end LessonStore

-- The lessons as they were given, with the ids that they get.
def given (lessons : List CommandLesson) : List LessonRow :=
  lessons.zipIdx.map fun (lesson, index) => ⟨index + 1, lesson⟩

def LessonRow.bound (row : LessonRow) : LessonRow :=
  ⟨row.id, row.entry.bound⟩

-- Those that contain the query, the last one first.
def newest (query : Bytes) (lessons : List CommandLesson) : List LessonRow :=
  ((given lessons).filter fun row => row.entry.Contains query).reverse

theorem given_snoc : given (lessons ++ [lesson]) = given lessons ++ [⟨lessons.length + 1, lesson⟩] := by
  simp [given, List.zipIdx_append]

theorem map_entry_given (lessons : List CommandLesson) :
    (given lessons).map LessonRow.entry = lessons := by
  induction lessons using List.reverseRecOn
  case nil => rfl
  case append_singleton lessons lesson hi => simp [given_snoc, hi]

theorem given_ids : ((given lessons).map LessonRow.id).Nodup := by
  have : (given lessons).map LessonRow.id = List.range' 1 lessons.length := by
    induction lessons using List.reverseRecOn
    case nil => rfl
    case append_singleton lessons lesson hi =>
      simp [given_snoc, hi, List.range'_concat, Nat.add_comm]
  exact this ▸ List.nodup_range'

theorem recorded_snoc : LessonStore.recorded (lessons ++ [lesson]) =
    ((LessonStore.recorded lessons).recordLesson lesson).2 := by
  rw [LessonStore.recorded, List.foldl_append]
  rfl

theorem recorded_rows : (LessonStore.recorded lessons).isOpen ∧
    (LessonStore.recorded lessons).rows = (given lessons).map LessonRow.bound := by
  induction lessons using List.reverseRecOn
  case nil => exact ⟨rfl, rfl⟩
  case append_singleton lessons lesson hi =>
    have ⟨ho, hr⟩ := hi
    have hl : (given lessons).length = lessons.length := by simp [given]
    simp [recorded_snoc, LessonStore.recordLesson, ho, hr, given_snoc, LessonRow.bound, hl]

theorem bound_id : row.bound.id = row.id :=
  rfl

theorem bound_eq_self_iff : row.bound = row ↔ row.entry.IsWhole := by
  rw [← bound_eq_iff]
  cases row
  simp [LessonRow.bound]

theorem eq_of_id (h : row ∈ given lessons) (h' : row' ∈ given lessons) (hid : row.id = row'.id) :
    row = row' :=
  List.inj_on_of_nodup_map given_ids h h' hid

theorem mem_lessons (h : row ∈ given lessons) : row.entry ∈ lessons :=
  map_entry_given lessons ▸ List.mem_map_of_mem h

theorem exists_row (h : lesson ∈ lessons) : ∃ row ∈ given lessons, row.entry = lesson := by
  rw [← map_entry_given lessons] at h
  exact List.mem_map.mp h

-- The rows that the pattern picks, with what is left of the lessons in them.
def picked (sqlite : Sqlite) (query : Bytes) (lessons : List CommandLesson) : List LessonRow :=
  if sqlite.likePatternLength < (lessonPattern query).length then []
  else ((given lessons).map LessonRow.bound).filter (·.entry.isLike sqlite (lessonPattern query))

def wanted (query : Bytes) (lessons : List CommandLesson) : List LessonRow :=
  (given lessons).filter fun row => row.entry.Contains query

def newerFirst (a b : LessonRow) : Bool :=
  sqlLe b.entry.createdAt a.entry.createdAt

theorem searchLessons_eq (n : Nat) :
    (LessonStore.recorded lessons).searchLessons sqlite query n =
      ((picked sqlite query lessons).mergeSort newerFirst).take n := by
  have ⟨ho, hr⟩ := @recorded_rows lessons
  have hn : ¬(n : Int) < 0 := by omega
  by_cases hl : sqlite.likePatternLength < (lessonPattern query).length
  case pos => simp [LessonStore.searchLessons, picked, hl]
  case neg =>
    simp only [LessonStore.searchLessons, picked, ho, hr, hl, Bool.not_true, Bool.false_or,
      decide_false, Bool.false_eq_true, if_false, sqlLimit, hn, Int.toNat_natCast]
    rfl

theorem wanted_nodup : (wanted query lessons).Nodup :=
  (List.Nodup.of_map _ given_ids).filter _

theorem map_entry_wanted :
    (wanted query lessons).map LessonRow.entry = lessons.filter fun l => l.Contains query := by
  conv_rhs => rw [← map_entry_given lessons, List.filter_map]
  rfl

-- What it takes for a search to pick the lessons that it should.
structure Findable (sqlite : Sqlite) (query : Bytes) (lessons : List CommandLesson) : Prop where
  -- If there is a lesson that contains the query, the pattern is not too long for SQLite,
  fits   : ∀ lesson ∈ lessons, lesson.Contains query →
    (lessonPattern query).length ≤ sqlite.likePatternLength
  -- there is no NUL in the lesson,
  whole  : ∀ lesson ∈ lessons, lesson.Contains query → lesson.IsWhole
  -- and SQLite picks it even if the query stands only in bytes that are no UTF-8.
  found  : ∀ lesson ∈ lessons, lesson.Contains query → ¬lesson.Shows query →
    lesson.Picked sqlite query
  -- A pattern that is not too long picks no lesson that does not contain the query.
  apart  : (lessonPattern query).length ≤ sqlite.likePatternLength →
    ∀ lesson ∈ lessons, lesson.bound.Picked sqlite query → lesson.Contains query

-- To be exact, it takes in addition that the lessons that contain the query have been recorded in
-- different seconds, the clock going forward.
structure Searchable (sqlite : Sqlite) (query : Bytes) (lessons : List CommandLesson) : Prop
    extends Findable sqlite query lessons where
  inTime : (lessons.filter fun lesson => lesson.Contains query).Pairwise fun a b =>
    ¬sqlLe b.createdAt a.createdAt

theorem wanted_eq_nil (h : ∀ lesson ∈ lessons, ¬lesson.Contains query) :
    wanted query lessons = [] := by
  apply List.filter_eq_nil_iff.mpr
  intro row hm
  simpa using h row.entry (mem_lessons hm)

theorem picked_eq_wanted (hs : sqlite.Documented) (h : Findable sqlite query lessons) :
    picked sqlite query lessons = wanted query lessons := by
  rw [picked]
  split
  case isTrue hl =>
    exact (wanted_eq_nil fun lesson hm hc => Nat.not_lt.mpr (h.fits lesson hm hc) hl).symm
  case isFalse hl =>
    have hl := Nat.not_lt.mp hl
    have hp : (given lessons).filter
        (fun row => row.bound.entry.isLike sqlite (lessonPattern query)) = wanted query lessons := by
      apply List.filter_congr
      intro row hm
      have hm := mem_lessons hm
      rw [Bool.eq_iff_iff, decide_eq_true_iff, LessonRow.bound, ← picked_iff hs nul_not_mem_bound hl]
      constructor
      case mp  => exact h.apart hl row.entry hm
      case mpr =>
        intro hc
        have hw := h.whole row.entry hm hc
        rw [bound_eq_iff.mpr hw]
        by_cases hu : row.entry.Shows query
        case pos => exact hu.picked hw
        case neg => exact h.found row.entry hm hc hu
    have hm : (wanted query lessons).map LessonRow.bound = wanted query lessons := by
      have hid : ∀ row ∈ wanted query lessons, row.bound = id row := by
        intro row hm
        have ⟨hm, hc⟩ := List.mem_filter.mp hm
        exact bound_eq_self_iff.mpr (h.whole row.entry (mem_lessons hm) (of_decide_eq_true hc))
      rw [List.map_congr_left hid, List.map_id]
    rw [List.filter_map]
    exact (congrArg (List.map LessonRow.bound) hp).trans hm

theorem pairwise_wanted : (wanted query lessons).Pairwise (fun a b => ¬newerFirst a b) ↔
    (lessons.filter fun lesson => lesson.Contains query).Pairwise fun a b =>
      ¬sqlLe b.createdAt a.createdAt := by
  rw [← map_entry_wanted, List.pairwise_map]
  rfl

-- A lesson that is picked as it was given is whole, and its texts are like the pattern.
theorem whole_of_picked {row : LessonRow} (hr : row ∈ given lessons)
    (hm : row ∈ picked sqlite query lessons) : row.entry.IsWhole ∧
      (lessonPattern query).length ≤ sqlite.likePatternLength ∧
      row.entry.isLike sqlite (lessonPattern query) := by
  rw [picked] at hm
  split at hm
  case isTrue => simp at hm
  case isFalse hl =>
    have ⟨hb, hk⟩ := List.mem_filter.mp hm
    have ⟨row', hm', hb⟩ := List.mem_map.mp hb
    obtain rfl : row' = row := eq_of_id hm' hr (hb ▸ rfl)
    exact ⟨bound_eq_self_iff.mp hb, Nat.not_lt.mp hl, hk⟩

-- What is picked is what is wanted only if nothing is in the way of either.
theorem findable_of_picked (hd : sqlite.Documented)
    (hp : ∀ row, row ∈ picked sqlite query lessons ↔ row ∈ wanted query lessons) :
    Findable sqlite query lessons := by
  have hc : ∀ lesson ∈ lessons, lesson.Contains query → lesson.IsWhole ∧
      (lessonPattern query).length ≤ sqlite.likePatternLength ∧
      lesson.isLike sqlite (lessonPattern query) := by
    intro lesson hm hc
    have ⟨row, hm, he⟩ := exists_row hm
    have hr : row ∈ wanted query lessons := List.mem_filter.mpr ⟨hm, by simpa [he] using hc⟩
    exact he ▸ whole_of_picked hm ((hp row).mpr hr)
  constructor
  case fits  => exact fun lesson hm hq => (hc lesson hm hq).right.left
  case whole => exact fun lesson hm hq => (hc lesson hm hq).left
  case found =>
    intro lesson hm hq _
    have ⟨hw, hl, hk⟩ := hc lesson hm hq
    exact (picked_iff hd hw.searched hl).mpr hk
  case apart =>
    intro hl lesson hm hk
    have ⟨row, hm, he⟩ := exists_row hm
    have hr : row.bound ∈ picked sqlite query lessons := by
      rw [picked, if_neg (Nat.not_lt.mpr hl)]
      refine List.mem_filter.mpr ⟨List.mem_map_of_mem hm, ?_⟩
      exact (picked_iff hd nul_not_mem_bound hl).mp (he ▸ hk)
    have ⟨hb, hq⟩ := List.mem_filter.mp ((hp row.bound).mp hr)
    rw [eq_of_id hb hm bound_id] at hq
    exact he ▸ of_decide_eq_true hq

theorem sorted_iff (hd : sqlite.Documented) :
    (picked sqlite query lessons).mergeSort newerFirst = (wanted query lessons).reverse ↔
      Searchable sqlite query lessons := by
  have hs (hn : picked sqlite query lessons = wanted query lessons) :
      (picked sqlite query lessons).mergeSort newerFirst = (wanted query lessons).reverse ↔
        (wanted query lessons).Pairwise fun a b => ¬newerFirst a b := by
    rw [hn]
    exact mergeSort_eq_reverse_iff (fun a b c hab hbc => sqlLe_trans _ _ _ hbc hab)
      (fun a b => sqlLe_total _ _) wanted_nodup
  constructor
  case mp =>
    intro h
    have hf : Findable sqlite query lessons := by
      refine findable_of_picked hd fun row => ?_
      rw [← @List.mem_reverse _ _ (wanted query lessons), ← h, List.mem_mergeSort]
    exact ⟨hf, pairwise_wanted.mp ((hs (picked_eq_wanted hd hf)).mp h)⟩
  case mpr =>
    intro h
    exact (hs (picked_eq_wanted hd h.toFindable)).mpr (pairwise_wanted.mpr h.inTime)

-- A search finds what it is to find, however many lessons it is asked for, exactly when nothing
-- stands in the way of it.
theorem searchLessons_exact_iff (hd : sqlite.Documented) :
    (∀ maxResults : Nat, (LessonStore.recorded lessons).searchLessons sqlite query maxResults =
      (newest query lessons).take maxResults) ↔ Searchable sqlite query lessons := by
  rw [← sorted_iff hd]
  simp only [searchLessons_eq]
  constructor
  case mp =>
    intro h
    have := h (max (picked sqlite query lessons).length (newest query lessons).length)
    rwa [List.take_of_length_le (by simp), List.take_of_length_le (by simp)] at this
  case mpr =>
    intro h maxResults
    rw [h]
    rfl

end Search

section Examples

-- A store that reads UTF-8 only.
def decodingSqlite : Sqlite where
  like pattern text :=
    match decode pattern, decode text with
    | some pattern, some text => Like.like (pattern.map likeItem) (text.map Char.toLower)
    | _, _                    => false
  likePatternLength := 50000

theorem decodingSqlite_documented : decodingSqlite.Documented where
  like _ _ _ _ _ := by simp only [decodingSqlite, decode_encode]

def fixOf (tool createdAt : Bytes) : CommandLesson where
  tool := tool
  broken := "LS -l"
  failureReason := "exit code 1"
  working := "ls -la"
  lesson := "quote the path"
  createdAt := createdAt

def twoFixes : List CommandLesson :=
  [fixOf "run_command" "2024-05-01 10:00:00", fixOf "run_ffmpeg" "2024-05-01 10:00:01"]

theorem isUtf8_str (s : String) : IsUtf8 (str s) := by
  refine ⟨s.toList, ?_⟩
  have h : s.toList.utf8Encode = s.toByteArray := s.utf8Encode_toList
  rw [str, String.toUTF8_eq_toByteArray, ← h]
  simp [encode, List.utf8Encode]

theorem isUtf8_twoFixes : ∀ lesson ∈ twoFixes, ∀ text ∈ lesson.searched, IsUtf8 text := by
  simp [twoFixes, fixOf, CommandLesson.searched, isUtf8_str]

theorem searchLessons_exact_iff_ls :
    (LessonStore.recorded twoFixes).searchLessons decodingSqlite "ls" 1 =
      (newest "ls" twoFixes).take 1 := by
  have hc : ∀ lesson ∈ twoFixes, lesson.Contains "ls" ∧ lesson.IsWhole := by decide +kernel
  refine (searchLessons_exact_iff decodingSqlite_documented).mpr ⟨⟨?_, ?_, ?_, ?_⟩, ?_⟩ 1
  case refine_1 => exact fun _ _ _ => by decide +kernel
  case refine_2 => exact fun lesson hm _ => (hc lesson hm).right
  case refine_3 =>
    intro lesson hm ⟨text, ht, hq⟩ hs
    exact absurd ⟨isUtf8_str "ls", text, ht, hq, isUtf8_twoFixes lesson hm text ht⟩ hs
  case refine_4 => exact fun _ lesson hm _ => (hc lesson hm).left
  case refine_5 => decide +kernel

-- The underscore of the query matches the blank.
theorem not_searchLessons_exact :
    ¬∀ (sqlite : Sqlite) (query : Bytes) (lessons : List CommandLesson) (maxResults : Nat),
      sqlite.Documented →
      (LessonStore.recorded lessons).searchLessons sqlite query maxResults =
        (newest query lessons).take maxResults := by
  intro h
  have := congrArg List.length (h decodingSqlite "run_command"
    [fixOf "run command" "2024-05-01 10:00:00"] 5 decodingSqlite_documented)
  revert this
  decide +kernel

end Examples

end Droidcli.Cli
