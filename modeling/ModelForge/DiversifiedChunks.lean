import ModelForge.GreedySelection
import ModelForge.KnowledgeChunks

set_option autoImplicit false

/-!
# Ranked chunks without near duplicates

`diversifyChunks` goes through the chunks from the best score down and drops those
that overlap a chunk it has picked. Quotients are exact.
-/
namespace ModelForge.DiversifiedChunks
open EventStream (JsString js codePoints)
open GreedySelection
open KnowledgeChunks (isLineTerminator numberSign)
open PatternScan (Pattern)
open ReservationCover (isWhiteSpace trim)

/-! ## The functions -/

/-- What `/^#{1,3}\s+(.+?)\r?$/m` captures at the start of a line, without the blanks
of a line that has nothing else. -/
def headingAt (text : JsString) : Option JsString :=
  let marks := text.takeWhile numberSign
  let rest := text.drop marks.length
  if 1 ≤ marks.length ∧ marks.length ≤ 3 ∧ rest.head?.any isWhiteSpace then
    -- the blanks behind the marks may reach over lines
    match (rest.dropWhile isWhiteSpace).takeWhile fun u => !isLineTerminator u with
    | [] => none
    | line => some line
  else none

/-- The first match; `lineStart` when the text begins at the start of a line. -/
def matchHeading : Bool → JsString → Option JsString
  | _, [] => none
  | lineStart, u :: rest =>
    match if lineStart then headingAt (u :: rest) else none with
    | some line => some line
    | none => matchHeading (isLineTerminator u) rest

def faqHeading (content : JsString) : Option JsString :=
  let trimmed := content.dropWhile isWhiteSpace
  if (js "#").isPrefixOf trimmed then ((matchHeading true trimmed).map trim).filter (· ≠ []) else none

/-- The tables of Unicode: NFC, lower case in the runtime's locale, and
`[\p{L}\p{M}\p{N}]` on the code points. -/
structure Unicode where
  nfc : JsString → JsString
  toLocaleLowerCase : JsString → JsString
  isWordPoint : JsString → Bool

/-- `/\u09AF\u09BC/`, the letter that is written with a nukta behind it. -/
def nuktaForm : Pattern UInt16 where
  before _ _ := true
  body := .seq (.one (· = 0x09AF)) (.one (· = 0x09BC))
  after _ _ := true
  consumes := by decide

section
variable (unicode : Unicode)

def normalizeSearchText (text : JsString) : JsString :=
  let folded := (unicode.nfc text).map fun u => if u = 0x09DF then 0x09AF else u
  unicode.toLocaleLowerCase (nuktaForm.replaceAll [0x09AF] folded)

/-- `/[\p{L}\p{M}\p{N}]+/u` -/
def wordRun : Pattern JsString where
  before _ _ := true
  body := .many unicode.isWordPoint 1
  after _ _ := true
  consumes := Nat.one_pos

def tokenize (text : JsString) : List JsString :=
  ((wordRun unicode).matchAll (codePoints (normalizeSearchText unicode text))).map List.flatten

def lexicalOverlap (query document : JsString) : ℚ :=
  let queryTokens := (tokenize unicode query).dedup
  if queryTokens.length = 0 then 0
  else (queryTokens.countP (· ∈ tokenize unicode document) : ℚ) / queryTokens.length

/-- The test of the `some` call. -/
def overlaps (existing chunk : JsString) : Bool :=
  match faqHeading existing, faqHeading chunk with
  | some existingHeading, some chunkHeading => 86 / 100 ≤ lexicalOverlap unicode existingHeading chunkHeading
  | _, _ => 72 / 100 ≤ lexicalOverlap unicode (existing.take 280) (chunk.take 280)

variable {α : Type} (content : α → JsString) (topK : ℕ)

def duplicate (existing chunk : α) : Bool := overlaps unicode (content existing) (content chunk)

/-- The loop over the chunks that are left. -/
def diversifyFrom (picked : List α) : List α → List α
  | [] => picked
  | chunk :: rest =>
    if picked.any fun existing => duplicate unicode content existing chunk then diversifyFrom picked rest
    else if topK ≤ (picked ++ [chunk]).length then picked ++ [chunk]
    else diversifyFrom (picked ++ [chunk]) rest

def diversifyChunks (ranked : List α) : List α := diversifyFrom unicode content topK [] ranked

end

/-- The tables for texts of ASCII characters. -/
def ascii : Unicode where
  nfc := id
  toLocaleLowerCase := List.map fun u => if 0x41 ≤ u && u ≤ 0x5A then u + 0x20 else u
  isWordPoint point := point.all fun u => 0x30 ≤ u && u ≤ 0x39 || 0x41 ≤ u && u ≤ 0x5A || 0x61 ≤ u && u ≤ 0x7A

example : diversifyChunks ascii id 3
    [js "### a b c d", js "x a b c d", js "# z\n### a b c", js "  ### a b c d e"] =
      [js "### a b c d", js "# z\n### a b c"] := by decide +kernel

/-! ## The selection -/

variable {unicode : Unicode} {α : Type} {content : α → JsString} {topK : ℕ}

abbrev Duplicates (unicode : Unicode) (content : α → JsString) (existing chunk : α) : Prop :=
  duplicate unicode content existing chunk = true

theorem diversifyFrom_selects {seen picked : List α} {positions : List ℕ}
    (h : Selects (Duplicates unicode content) topK seen picked positions) (hroom : picked.length < topK)
    (rest : List α) : ∃ positions',
      Selects (Duplicates unicode content) topK (seen ++ rest) (diversifyFrom unicode content topK picked rest)
        positions' := by
  induction rest generalizing seen picked positions with
  | nil => exact ⟨positions, h.pass (List.forall_mem_nil _)⟩
  | cons chunk rest ih =>
    have happend : seen ++ chunk :: rest = seen ++ [chunk] ++ rest := by simp
    rw [diversifyFrom, happend]
    by_cases hduplicate : (picked.any fun existing => duplicate unicode content existing chunk) = true
    · rw [if_pos hduplicate]
      obtain ⟨existing, hmem, hexisting⟩ := List.any_eq_true.mp hduplicate
      have hpass : Selects (Duplicates unicode content) topK (seen ++ [chunk]) picked positions := by
        refine h.pass fun item hitem => .inl ⟨existing, hmem, ?_⟩
        rw [List.mem_singleton.mp hitem]
        exact hexisting
      exact ih hpass hroom
    · rw [if_neg hduplicate]
      have hnew : ∀ existing ∈ picked, ¬ Duplicates unicode content existing chunk := fun existing hmem hdup =>
        hduplicate (List.any_eq_true.mpr ⟨existing, hmem, hdup⟩)
      have hpick := h.pick hnew hroom
      by_cases hfull : topK ≤ (picked ++ [chunk]).length
      · rw [if_pos hfull]
        exact ⟨_, hpick.pass fun _ _ => .inr hfull⟩
      · rw [if_neg hfull]
        exact ih hpick (Nat.lt_of_not_le hfull)

/-- The output is the greedy selection: a subsequence of at most `topK` chunks without
duplicates, with the first chunk, and every chunk left out is a duplicate of one in the
output that stands before it, or comes when `topK` chunks have been picked. -/
theorem diversifyChunks_selects (unicode : Unicode) (content : α → JsString)
    (ranked : List α) (htopK : 1 ≤ topK) :
    (diversifyChunks unicode content topK ranked).head? = ranked.head? ∧
      ∃ positions, Selects (Duplicates unicode content) topK ranked
        (diversifyChunks unicode content topK ranked) positions := by
  obtain ⟨positions, h⟩ := diversifyFrom_selects (selects_nil (Duplicates unicode content) topK) htopK ranked
  rw [List.nil_append] at h
  exact ⟨h.head?_eq htopK, positions, h⟩

theorem diversifyChunks_selects_one :
    (diversifyChunks ascii id 1 [js "a b", js "a b", js "c"]).head? = some (js "a b") ∧
      ∃ positions, Selects (Duplicates ascii id) 1 [js "a b", js "a b", js "c"]
        (diversifyChunks ascii id 1 [js "a b", js "a b", js "c"]) positions :=
  diversifyChunks_selects ascii id [js "a b", js "a b", js "c"] (by decide)

theorem diversifyFrom_of_apart (picked rest : List α) (hlength : (picked ++ rest).length ≤ topK)
    (hapart : (picked ++ rest).Pairwise fun existing chunk => ¬ Duplicates unicode content existing chunk) :
    diversifyFrom unicode content topK picked rest = picked ++ rest := by
  induction rest generalizing picked with
  | nil => rw [diversifyFrom, List.append_nil]
  | cons chunk rest ih =>
    have hnew : ¬ (picked.any fun existing => duplicate unicode content existing chunk) = true := by
      intro hany
      obtain ⟨existing, hmem, hduplicate⟩ := List.any_eq_true.mp hany
      exact (List.pairwise_append.mp hapart).2.2 existing hmem chunk List.mem_cons_self hduplicate
    have happend : picked ++ chunk :: rest = picked ++ [chunk] ++ rest := by simp
    rw [happend] at hlength hapart ⊢
    rw [diversifyFrom, if_neg hnew]
    by_cases hfull : topK ≤ (picked ++ [chunk]).length
    · have hrest : rest = [] := by
        rw [List.length_append] at hlength
        exact List.eq_nil_of_length_eq_zero (by omega)
      rw [if_pos hfull, hrest, List.append_nil]
    · rw [if_neg hfull]
      exact ih (picked ++ [chunk]) hlength hapart

theorem diversifyChunks_idempotent (unicode : Unicode) (content : α → JsString)
    (ranked : List α) (htopK : 1 ≤ topK) :
    diversifyChunks unicode content topK (diversifyChunks unicode content topK ranked) =
      diversifyChunks unicode content topK ranked := by
  obtain ⟨positions, h⟩ := diversifyFrom_selects (selects_nil (Duplicates unicode content) topK) htopK ranked
  rw [List.nil_append] at h
  exact diversifyFrom_of_apart [] _ h.bounded h.apart

end ModelForge.DiversifiedChunks
