import Droidcli.Lib.Bytes

namespace Droidcli.Reliability

open Bytes

def isSeparator (c : UInt8) : Bool :=
  c = slash || c = backslash

-- `path_guards.cpp`

-- The loop of `substitute_bare_desktop_token`. `seen` holds the bytes of `args` behind the cursor,
-- the last one first; `skip` counts down the bytes of a token that is already substituted.
def substituteFrom (desktopPath : Bytes) : Nat → Bytes → Bytes → Bytes → Bytes
  | _, _, result, [] => result
  | skip + 1, seen, result, c :: args => substituteFrom desktopPath skip (c :: seen) result args
  | 0, seen, result, c :: args =>
    let leadingSeparator := seen ∈ [[slash], [backslash]]
    let leadingDotSeparator := seen ∈ [[slash, dot], [backslash, dot]]
    let atWordBoundary := seen = [] ∨ seen.head? ∈ [some space, some quote, some 0x27]
      ∨ leadingSeparator ∨ leadingDotSeparator
    let lowered := lowered (c :: args)
    let matchesSlash := str "desktop/" <+: lowered
    let matchesBackslash := str "desktop\\" <+: lowered
    if atWordBoundary ∧ (matchesSlash ∨ matchesBackslash) then
      let result :=
        if (leadingSeparator ∨ leadingDotSeparator) ∧ seen.length ≤ result.length then
          result.take (result.length - seen.length)
        else result
      let separator := if matchesSlash then slash else backslash
      substituteFrom desktopPath 7 (c :: seen) (result ++ desktopPath ++ [separator]) args
    else
      substituteFrom desktopPath 0 (c :: seen) (result ++ [c]) args

def substituteBareDesktopToken (args desktopPath : Bytes) : Bytes :=
  if desktopPath = [] then args else substituteFrom desktopPath 0 [] [] args

def defaultBareFilenameToDesktop (path desktopPath : Bytes) : Bytes :=
  if path = [] ∨ desktopPath = [] ∨ path.any isSeparator then path
  else
    let needsSeparator := !(desktopPath.getLast?.any isSeparator)
    desktopPath ++ (if needsSeparator then [backslash] else []) ++ path

def placeholders : List Bytes :=
  ["path/to/", "path\\to\\", "<", "your_file", "yourfile", "example.txt", "filename.ext",
    "username"]

def looksLikePlaceholderPath (path : Bytes) : Bool :=
  placeholders.any (contains · (lowered path))

-- Looks for `desktop` as a whole path component; `left` is the byte before the cursor.
def hasDesktopComponent : Nat → Option UInt8 → Bytes → Bool
  | _, _, [] => false
  | skip + 1, _, c :: path => hasDesktopComponent skip (some c) path
  | 0, left, c :: path =>
    if str "desktop" <+: c :: path then
      let right := ((c :: path).drop 7).head?
      (left.all isSeparator && right.all isSeparator) || hasDesktopComponent 6 (some c) path
    else
      hasDesktopComponent 0 (some c) path

def looksLikeInventedDesktopPath (resolvedPath realDesktopPath : Bytes) : Bool :=
  if realDesktopPath = [] then false
  else if lowered realDesktopPath <+: lowered resolvedPath then false
  else hasDesktopComponent 0 none (lowered resolvedPath)

-- File extensions and the bytes that a file of that kind starts with.
def signatures : List (Bytes × Bytes) := [
  (".png", 0x89 :: str "PNG\r\n" ++ [0x1a, lf]),
  (".jpg", [0xff, 0xd8, 0xff]),
  (".jpeg", [0xff, 0xd8, 0xff]),
  (".gif", "GIF8"),
  (".bmp", "BM")
]

def looksLikeMismatchedBinaryContent (path content : Bytes) : Bool :=
  match signatures.find? (·.1 <:+ lowered path) with
  | some (_, magicBytes) => ¬magicBytes <+: content
  | none                 => false

-- `command_guards.cpp`

def destructivePatterns : List Bytes := [
  "rm -rf", "rm -fr", "rm -r -f", "rm -f -r", "rd /s", "rmdir /s",
  "del /f /s", "del /s /f", "remove-item -recurse -force",
  "format ", "diskpart", "mkfs", "dd if=", "fdisk",
  "taskkill /f /im *", "shutdown /r", "shutdown /s", "shutdown -r", "shutdown -h",
  ":()\x7b :|:& \x7d;:", ":()\x7b:|:&\x7d;:"
]

def looksLikeDestructiveCommand (commandOrArgs : Bytes) : Bool :=
  destructivePatterns.any (contains · (lowered commandOrArgs))

end Droidcli.Reliability
