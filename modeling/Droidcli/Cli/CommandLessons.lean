import Droidcli.Cli.OsTools

namespace Droidcli.Cli

open Bytes

-- A row of the table `command_lessons`.
structure LessonRow where
  id : Nat
  entry : CommandLesson

-- The other table of the memory store, in the order of its row ids. No row is ever deleted.
structure LessonStore where
  isOpen : Bool
  rows : List LessonRow

section Sqlite

abbrev percent : UInt8 := 0x25

-- What SQLite makes of `text LIKE pattern`, and how many bytes of a pattern it takes: from a longer
-- one, a statement ends in an error.
structure Sqlite where
  like : Bytes → Bytes → Bool
  likePatternLength : Nat

-- The collation of a column that declares none: `memcmp`.
def sqlLe (a b : Bytes) : Bool :=
  a.map UInt8.toNat ≤ b.map UInt8.toNat

-- `LIMIT n`, where a negative number is no limit.
def sqlLimit {Row : Type} (n : Int) (rows : List Row) : List Row :=
  if n < 0 then rows else rows.take n.toNat

end Sqlite

-- Texts are bound as C strings. The time comes from a buffer, and has no NUL in it.
def CommandLesson.bound (lesson : CommandLesson) : CommandLesson where
  tool := cstr lesson.tool
  broken := cstr lesson.broken
  failureReason := cstr lesson.failureReason
  working := cstr lesson.working
  lesson := cstr lesson.lesson
  createdAt := lesson.createdAt

def CommandLesson.isLike (sqlite : Sqlite) (pattern : Bytes) (lesson : CommandLesson) : Bool :=
  sqlite.like pattern (lowered lesson.tool) || sqlite.like pattern (lowered lesson.broken)
    || sqlite.like pattern (lowered lesson.failureReason)
    || sqlite.like pattern (lowered lesson.lesson)

def lessonPattern (query : Bytes) : Bytes :=
  cstr (percent :: (lowered query ++ [percent]))

namespace LessonStore

def recordLesson (store : LessonStore) (lesson : CommandLesson) : Bool × LessonStore :=
  if store.isOpen then
    (true, { store with rows := store.rows ++ [⟨store.rows.length + 1, lesson.bound⟩] })
  else (false, store)

-- Rows of equal times come in the order of their row ids, as they do from a sort that keeps it. An
-- error comes with the first row that is looked at, before any has been returned.
def searchLessons (store : LessonStore) (sqlite : Sqlite) (query : Bytes) (maxResults : Int) :
    List LessonRow :=
  let pattern := lessonPattern query
  if !store.isOpen || sqlite.likePatternLength < pattern.length then []
  else
    let rows := store.rows.filter (·.entry.isLike sqlite pattern)
    sqlLimit maxResults (rows.mergeSort fun a b => sqlLe b.entry.createdAt a.entry.createdAt)

end LessonStore
end Droidcli.Cli
