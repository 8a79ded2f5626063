import ModelForge.CanonicalJson
import ModelForge.LlamaPool

set_option autoImplicit false

/-!
# The weights directory

GGUF files under `MODEL_WEIGHTS_DIR`: what a file's name says about the model,
and the scan that reports each model once, by its first shard.
-/
namespace ModelForge.WeightFiles

/-! ## Names -/

/-- `name.toLowerCase().endsWith(".gguf")`, and `/\.gguf$/i` -/
def endsWithGguf (name : List Char) : Bool :=
  (name.drop (name.length - 5)).map Char.toLower = ".gguf".toList

/-- `name.replace(/\.gguf$/i, "")` -/
def withoutExt (name : List Char) : List Char :=
  if endsWithGguf name then name.take (name.length - 5) else name

/-- A match of `SHARD_PATTERN`: what it leaves, and its two groups. -/
structure Shard where
  base : List Char
  index : List Char
  count : List Char
  deriving DecidableEq, Repr

/-- A dash, five digits, `-of-` and five digits at the end, as in `model-00001-of-00003`. -/
def SHARD_PATTERN (base : List Char) : Option Shard :=
  match base.drop (base.length - 15) with
  | ['-', a, b, c, d, e, '-', 'o', 'f', '-', g, h, i, j, k] =>
    if [a, b, c, d, e, g, h, i, j, k].all Char.isDigit then
      some ⟨base.take (base.length - 15), [a, b, c, d, e], [g, h, i, j, k]⟩
    else none
  | _ => none

/-- `Number(digits)` -/
def number (digits : List Char) : ℕ := Nat.ofDigitChars 10 digits 0

/-- `String(n).padStart(5, "0")` -/
def padStart (n : ℕ) : List Char := (Nat.toDigits 10 n).leftpad 5 '0'

/-- `(?=[.\-_]|$)` -/
def atBoundary : List Char → Bool
  | [] => true
  | c :: _ => c = '.' ∨ c = '-' ∨ c = '_'

/-- `[A-Z0-9_]`, case-insensitively. -/
def isQuantChar (c : Char) : Bool := c.isAlphanum || c = '_'

/-- The last end of a run from `start` on that a boundary follows. -/
def runEnd (text : List Char) (start : ℕ) : Option ℕ :=
  let run := ((text.drop start).takeWhile isQuantChar).length
  ((List.range (run + 1)).reverse.map fun more => start + more).find? fun stop =>
    atBoundary (text.drop stop)

def literal (word : String) (text : List Char) : Option ℕ :=
  let length := word.toList.length
  if (text.take length).map Char.toLower = word.toList ∧ atBoundary (text.drop length) then some length
  else none

/-- The length of a match of `QUANT_PATTERN` that begins where the text does. -/
def quantAt (text : List Char) : Option ℕ :=
  match text.map Char.toLower with
  | 'i' :: 'q' :: d :: _ => if d.isDigit then runEnd text 3 else none
  | 'q' :: d :: _ => if d.isDigit then runEnd text 2 else none
  | 'b' :: _ => literal "bf16" text
  | 'f' :: _ => (literal "f16" text).or (literal "f32" text)
  | _ => none

/-- The first match of `QUANT_PATTERN`: its index and its length. -/
def QUANT_PATTERN (base : List Char) : Option (ℕ × ℕ) :=
  (List.range base.length).findSome? fun index =>
    (quantAt (base.drop index)).map fun length => (index, length)

/-! ## The suggested id -/

/-- `toLowerCase()`, as far as it matters for ASCII letters: two letters beyond
ASCII have a lower case with one in it. -/
def lowerCase (c : Char) : List Char :=
  if c = '\u212A' then ['k'] else if c = '\u0130' then ['i', '\u0307'] else [c.toLower]

/-- `[a-z0-9]` -/
def isSlugChar (c : Char) : Bool := c.isLower || c.isDigit

/-- `replace(/[^a-z0-9]+/g, "-")`; `inRun` when the run has its dash already. -/
def dashRuns : Bool → List Char → List Char
  | _, [] => []
  | inRun, c :: rest =>
    if isSlugChar c then c :: dashRuns false rest
    else if inRun then dashRuns true rest
    else '-' :: dashRuns true rest

/-- `replace(/^-+|-+$/g, "")` -/
def trimDashes (text : List Char) : List Char :=
  (text.dropWhile fun c => c = '-').rdropWhile fun c => c = '-'

def toSlug (value : List Char) : String :=
  let slug := (trimDashes (dashRuns false (value.flatMap lowerCase))).take 60
  if slug = [] then "model" else String.ofList slug

structure DiscoveredWeight where
  relativePath : String
  fileName : String
  sizeBytes : ℕ
  quantization : String
  suggestedModelId : String
  suggestedDisplayName : String
  shardCount : ℕ
  deriving DecidableEq, Repr

/-- `path.basename` -/
def basename (path : String) : List Char := (path.toList.splitOn '/').getLastD []

/-- `replace(/[-_]+/g, " ")`; `inRun` when the run has its blank already. -/
def blankRuns : Bool → List Char → List Char
  | _, [] => []
  | inRun, c :: rest =>
    if c ≠ '-' ∧ c ≠ '_' then c :: blankRuns false rest
    else if inRun then blankRuns true rest
    else ' ' :: blankRuns true rest

/-- The name without its extension and its shard suffix. -/
def stemOf (fileName : List Char) : List Char :=
  let base := withoutExt fileName
  match SHARD_PATTERN base with
  | some shard => shard.base
  | none => base

/-- The name before its quantization; all of it where that would leave nothing. -/
def modelName (fileName : List Char) : List Char :=
  let base := stemOf fileName
  match QUANT_PATTERN base with
  | some (index, _) =>
    let name := (base.take index).rdropWhile fun c => c = '.' ∨ c = '-' ∨ c = '_'
    if name = [] then base else name
  | none => base

def describe (relativePath : String) (sizeBytes : ℕ) : DiscoveredWeight :=
  let fileName := basename relativePath
  let base := stemOf fileName
  let name := modelName fileName
  let display := LlamaPool.trim (blankRuns false name)
  { relativePath := relativePath
    fileName := String.ofList fileName
    sizeBytes := sizeBytes
    quantization :=
      match QUANT_PATTERN base with
      | some (index, length) => String.ofList (((base.drop index).take length).map Char.toUpper)
      | none => "unknown"
    suggestedModelId := toSlug name
    suggestedDisplayName := String.ofList (if display = [] then fileName else display)
    shardCount :=
      match SHARD_PATTERN (withoutExt fileName) with
      | some shard => number shard.count
      | none => 1 }

@[simp] theorem describe_relativePath (relativePath : String) (sizeBytes : ℕ) :
    (describe relativePath sizeBytes).relativePath = relativePath := by
  simp only [describe]

@[simp] theorem describe_suggestedModelId (relativePath : String) (sizeBytes : ℕ) :
    (describe relativePath sizeBytes).suggestedModelId =
      toSlug (modelName (basename relativePath)) := by
  simp only [describe]

example : describe "LiquidAI/LFM2.5-2.6B-GGUF/LFM2.5-2.6B-Q5_K_M.gguf" 1 =
    ⟨"LiquidAI/LFM2.5-2.6B-GGUF/LFM2.5-2.6B-Q5_K_M.gguf", "LFM2.5-2.6B-Q5_K_M.gguf", 1, "Q5_K_M",
      "lfm2-5-2-6b", "LFM2.5 2.6B", 1⟩ := by decide +kernel

/-! ## The scan -/

def MAX_DEPTH : ℕ := 4

def SKIP_DIRS : List String := [".git", "node_modules", ".cache", "target", ".tmp"]

/-- What `readdir` tells of an entry. -/
inductive Node where
  | file (sizeBytes : ℕ)
  | directory
  | other
  deriving DecidableEq, Repr

/-- What is under the weights directory, by path from it. -/
abbrev Tree := KeyedMap (List String) Node

def relativePath (path : List String) : String := "/".intercalate path

def readdir (tree : Tree) (dir : List String) : List (String × Node) :=
  tree.entries.filterMap fun entry =>
    match entry.1.getLast? with
    | some name => if entry.1.dropLast = dir then some (name, entry.2) else none
    | none => none

/-- A model is reported by its file, or by its first shard. -/
def reported (name : List Char) : Bool :=
  endsWithGguf name &&
    match SHARD_PATTERN (withoutExt name) with
    | some shard => number shard.index = 1
    | none => true

def skipped (name : String) : Bool := name ∈ SKIP_DIRS || name.toList.head? = some '.'

/-- `walk`, with the number of levels it may still read. -/
def walk (tree : Tree) : ℕ → List String → List DiscoveredWeight
  | 0, _ => []
  | levels + 1, dir =>
    (readdir tree dir).flatMap fun entry =>
      match entry.2 with
      | .directory => if skipped entry.1 then [] else walk tree levels (dir ++ [entry.1])
      | .file sizeBytes =>
        if reported entry.1.toList then [describe (relativePath (dir ++ [entry.1])) sizeBytes] else []
      | .other => []

def scanWeights (c : CanonicalJson.Collation) (tree : Tree) : List DiscoveredWeight :=
  (walk tree (MAX_DEPTH + 1) []).insertionSort fun a b => c.Le a.relativePath b.relativePath

end ModelForge.WeightFiles
