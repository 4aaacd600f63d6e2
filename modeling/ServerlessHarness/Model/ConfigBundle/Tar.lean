import Mathlib.Data.List.Lex
import Mathlib.Data.List.Sort
import ServerlessHarness.Library.Trim
import ServerlessHarness.Library.Utf8

/-!
# Archives of bundles

The writer and the reader of the archives in which bundles travel. The writer packs regular files
in the order of the bytes of their paths. The reader walks from header to header by the size
fields, which it takes as they stand; its offset is a number of the runtime, which a negative size
makes smaller, and where it is negative a view of the buffer counts from the end.
-/

set_option autoImplicit false

namespace ServerlessHarness.ConfigBundle

open Library

/-- A file of an archive. `mode` is `none` where it is `undefined`, and `some none` for `NaN`.
SRCLINE: config-bundle/types.ts:2-6 -/
structure TarEntry where
  path : String
  content : List UInt8
  mode : Option (Option Int)
deriving DecidableEq, Repr

/-- SRCLINE: tar.ts:3 -/
def block : ℕ := 512

/-! ## Writing -/

/-- Characters below 256 as bytes. -/
def ascii (cs : List Char) : List UInt8 := cs.map fun c => UInt8.ofNat c.toNat

def padStart (len : ℕ) (c : Char) (cs : List Char) : List Char :=
  List.replicate (len - cs.length) c ++ cs

/-- SRCLINE: tar.ts:10-12 -/
def octal (n len : ℕ) : List UInt8 :=
  (ascii (padStart (len - 1) '0' (Nat.toDigits 8 n)) ++ [0]).take len

/-- Some bytes at the start of a field that was zero. -/
def field (len : ℕ) (bytes : List UInt8) : List UInt8 :=
  bytes.take len ++ List.replicate (len - bytes.length) 0

/-- The ways to cut a path at one of its slashes, from the first on. -/
def cuts : List Char → List (List Char × List Char)
  | [] => []
  | c :: cs =>
    (if c = '/' then [([], cs)] else []) ++ (cuts cs).map fun cut => (c :: cut.1, cut.2)

def byteLength (cs : List Char) : ℕ := (utf8 cs).length

/-- The name of a path and what stands before it.
SRCLINE: tar.ts:15-23 -/
def splitUstarPath (path : List Char) : Option (List Char × List Char) :=
  if byteLength path ≤ 100 then some (path, [])
  else
    ((cuts path).find? fun cut => byteLength cut.1 ≤ 155 && byteLength cut.2 ≤ 100).map Prod.swap

/-- The fields of a header around its checksum. -/
def headerWith (name lead : List Char) (size mode : ℕ) (checksum : List UInt8) : List UInt8 :=
  field 100 (utf8 name) ++ (octal mode 8 ++ (octal 0 8 ++ (octal 0 8 ++ (octal size 12 ++
    (octal 0 12 ++ (checksum ++ (ascii ['0'] ++ (List.replicate 100 0 ++
      (ascii ['u', 's', 't', 'a', 'r', '\x00'] ++ (ascii ['0', '0'] ++ (List.replicate 80 0 ++
        (field 155 (utf8 lead) ++ List.replicate 12 0))))))))))))

def byteSum (bytes : List UInt8) : ℕ := bytes.foldl (fun sum b => sum + b.toNat) 0

/-- SRCLINE: tar.ts:25-43 -/
def header (name lead : List Char) (size mode : ℕ) : List UInt8 :=
  let sum := byteSum (headerWith name lead size mode (List.replicate 8 32))
  headerWith name lead size mode
    ((ascii (padStart 6 '0' (Nat.toDigits 8 sum)) ++ [0, 32]).take 8)

/-- `(entry.mode ?? 0o644) & 0o7777`. -/
def modeOf (entry : TarEntry) : ℕ := (((entry.mode.getD (some 420)).getD 0) % 4096).toNat

def padding (n : ℕ) : List UInt8 := List.replicate ((block - n % block) % block) 0

def tooLong (path : String) : String :=
  "path too long for USTAR (max 255 with a '/' split point): " ++ path

/-- One file of an archive.
SRCLINE: tar.ts:55-59 -/
def pack (entry : TarEntry) : Except String (List UInt8) :=
  match splitUstarPath entry.path.toList with
  | none => .error (tooLong entry.path)
  | some (name, lead) =>
    .ok (header name lead entry.content.length (modeOf entry) ++
      (entry.content ++ padding entry.content.length))

/-- `Buffer.compare` of the paths. -/
def sortKey (entry : TarEntry) : List ℕ := (utf8 entry.path.toList).map UInt8.toNat

/-- A stable sort by the bytes of the paths. -/
def sortEntries (entries : List TarEntry) : List TarEntry :=
  entries.insertionSort fun a b => sortKey a ≤ sortKey b

/-- SRCLINE: tar.ts:50-63 -/
def canonicalTar (entries : List TarEntry) : Except String (List UInt8) :=
  ((sortEntries entries).mapM pack).map fun parts =>
    parts.flatten ++ List.replicate (block * 2) 0

/-! ## Reading -/

/-- Where an index of `subarray` falls. -/
def clamp (len : ℕ) (i : Int) : ℕ := if i < 0 then (len + i).toNat else min i.toNat len

def subarray (bytes : List UInt8) (first last : Int) : List UInt8 :=
  (bytes.take (clamp bytes.length last)).drop (clamp bytes.length first)

/-- SRCLINE: tar.ts:71-75 -/
def cstr (h : List UInt8) (s n : ℕ) : List Char :=
  decodeText (((h.drop s).take n).takeWhile (· ≠ 0))

def isOctalDigit (c : Char) : Bool := '0' ≤ c && c ≤ '7'

/-- `parseInt(text.trim() || '0', 8)`; `none` is `NaN`. -/
def parseOctal (text : List Char) : Option Int :=
  let text := trimEnds (isWhiteSpace ·.toNat) text
  if text = [] then some 0
  else
    let signed := text.head? = some '-' ∨ text.head? = some '+'
    let digits := (if signed then text.tail else text).takeWhile isOctalDigit
    if digits = [] then none
    else
      let n : Int := Nat.ofDigitChars 8 digits 0
      some (if text.head? = some '-' then -n else n)

structure Header where
  path : String
  mode : Option Int
  size : Option Int
  regular : Bool
deriving DecidableEq, Repr

/-- The type is read as ASCII, which drops the highest bit.
SRCLINE: tar.ts:76-80, 83-84 -/
def readHeader (h : List UInt8) : Header where
  path :=
    let name := cstr h 0 100
    let lead := cstr h 345 155
    String.ofList (if lead = [] then name else lead ++ '/' :: name)
  mode := parseOctal (cstr h 100 8)
  size := parseOctal (cstr h 124 12)
  regular := (h[156]?).any fun b => b.toNat % 128 = 48 || b.toNat % 128 = 0

/-- The header at an offset, unless the loop ends there.
SRCLINE: tar.ts:68-70 -/
def headerAt (tar : List UInt8) (off : Int) : Option Header :=
  if off + block ≤ tar.length then
    let h := subarray tar off (off + block)
    if h.all (· = 0) then none else some (readHeader h)
  else none

/-- `Math.ceil(size / BLOCK) * BLOCK`. -/
def roundUp (size : Int) : Int := -(-size / block) * block

/-- What a header adds to the result; a size that is `NaN` ends the view at zero.
SRCLINE: tar.ts:81-89 -/
def entriesOf (tar : List UInt8) (off : Int) (h : Header) : List TarEntry :=
  if h.regular then
    [⟨h.path, subarray tar (off + block) ((h.size.map (off + block + ·)).getD 0), some h.mode⟩]
  else []

/-- At most `n` turns of the loop from an offset; an offset that is `NaN` ends it.
SRCLINE: tar.ts:66-92 -/
def untarLoop (tar : List UInt8) : ℕ → Int → Option (List TarEntry)
  | 0, _ => none
  | n + 1, off =>
    match headerAt tar off with
    | none => some []
    | some h =>
      match h.size with
      | none => some (entriesOf tar off h)
      | some size => (untarLoop tar n (off + block + roundUp size)).map (entriesOf tar off h ++ ·)

/-- `untar` returns. -/
def Untars (tar : List UInt8) (entries : List TarEntry) : Prop :=
  ∃ n, untarLoop tar n 0 = some entries

/-! ## Digests -/

def isHexDigit (c : Char) : Bool := ('0' ≤ c && c ≤ '9') || ('a' ≤ c && c ≤ 'f')

/-- SRCLINE: tar.ts:99 -/
def validDigest (digest : String) : Bool :=
  "sha256:".toList.isPrefixOf digest.toList && (digest.toList.drop 7).length = 64 &&
    (digest.toList.drop 7).all isHexDigit

end ServerlessHarness.ConfigBundle
