import Droidcli.Lib.Bytes

namespace Droidcli.Cli

open Bytes

-- A row of the table `memory_entries`.
structure MemoryRecord where
  sessionId : Bytes
  hopIndex : Int
  role : Bytes
  content : Bytes
  deriving DecidableEq

-- The table in the order of its row ids.
structure MemoryStore where
  isOpen : Bool
  entries : List MemoryRecord

namespace MemoryStore

-- Texts are bound as C strings, so that a row holds what precedes their first NUL.
def append (store : MemoryStore) (sessionId : Bytes) (hopIndex : Int) (role content : Bytes) :
    MemoryStore :=
  if store.isOpen then
    { store with
      entries := store.entries ++ [⟨cstr sessionId, hopIndex, cstr role, cstr content⟩] }
  else store

def rowsOf (store : MemoryStore) (sessionId : Bytes) : List MemoryRecord :=
  store.entries.filter (·.sessionId = cstr sessionId)

-- Rows with equal hop indices come in the order of their row ids, as the index on the two columns
-- yields them.
def loadSession (store : MemoryStore) (sessionId : Bytes) : List MemoryRecord :=
  if store.isOpen then (store.rowsOf sessionId).mergeSort (·.hopIndex ≤ ·.hopIndex) else []

def deleteSession (store : MemoryStore) (sessionId : Bytes) : Bool × MemoryStore :=
  if store.isOpen then
    (true, { store with entries := store.entries.filter (·.sessionId ≠ cstr sessionId) })
  else (false, store)

end MemoryStore
end Droidcli.Cli
