import ModelForge.CanonicalJson
import ModelForge.LlamaPool
import ModelForge.KeyedMap

set_option autoImplicit false

/-!
# The texts of a transcript

Texts as the gateway and the transcription script see them: what each language
takes for whitespace, how long a text is, and the tally of a list's values that
both keep in a map.
-/
namespace ModelForge.TranscriptText
open LlamaPool (isWhiteSpace)
open CanonicalJson (codeUnits)

/-! ## Whitespace -/

/-- `str.isspace`, and `\s` in a pattern of the script. -/
def isspace (c : Char) : Bool :=
  [9, 10, 11, 12, 13, 28, 29, 30, 31, 32, 133, 160, 0x1680, 0x2028, 0x2029, 0x202F, 0x205F, 0x3000].contains
      c.toNat ||
    (0x2000 ≤ c.toNat && c.toNat ≤ 0x200A)

def isAsciiSpace (c : Char) : Bool := [9, 10, 11, 12, 13, 32].contains c.toNat

/-- A text of the Basic Multilingual Plane whose whitespace, for either language,
is ASCII. -/
structure PlainText where
  chars : List Char
  bmp : ∀ c ∈ chars, c.toNat < 65536
  spaces : ∀ c ∈ chars, (isWhiteSpace c || isspace c) = true → isAsciiSpace c = true

/-- `text.replace(/\s+/g, "")` -/
def withoutSpaces (text : List Char) : List Char := text.filter fun c => !isWhiteSpace c

/-- `re.sub(r"\s+", "", text)` -/
def sub_spaces (text : List Char) : List Char := text.filter fun c => !isspace c

/-- `text.replace(/\s+/g, " ")`; `inRun` when the run has its blank already. -/
def collapseSpaces : Bool → List Char → List Char
  | _, [] => []
  | inRun, c :: rest =>
    if !isWhiteSpace c then c :: collapseSpaces false rest
    else if inRun then collapseSpaces true rest
    else ' ' :: collapseSpaces true rest

theorem isAsciiSpace_cases {c : Char} (h : isAsciiSpace c = true) :
    isWhiteSpace c = true ∧ isspace c = true := by
  have hmem : c.toNat ∈ [9, 10, 11, 12, 13, 32] := List.contains_iff_mem.mp h
  have hcode : c.toNat = 9 ∨ c.toNat = 10 ∨ c.toNat = 11 ∨ c.toNat = 12 ∨ c.toNat = 13 ∨ c.toNat = 32 := by
    simpa using hmem
  rcases hcode with hc | hc | hc | hc | hc | hc <;> simp [isWhiteSpace, isspace, hc]

theorem PlainText.isspace_eq (text : PlainText) {c : Char} (h : c ∈ text.chars) :
    isspace c = isWhiteSpace c := by
  cases hjs : isWhiteSpace c with
  | true => exact (isAsciiSpace_cases (text.spaces c h (by simp [hjs]))).2
  | false =>
    cases hpy : isspace c with
    | false => rfl
    | true =>
      rw [(isAsciiSpace_cases (text.spaces c h (by simp [hpy]))).1] at hjs
      cases hjs

theorem PlainText.sub_spaces_eq (text : PlainText) : sub_spaces text.chars = withoutSpaces text.chars := by
  apply List.filter_congr
  intro c hc
  rw [text.isspace_eq hc]

/-! ## Lengths -/

/-- The code units that `length`, `slice` and indices count. -/
def units (text : List Char) : List ℕ := text.flatMap codeUnits

theorem units_bmp {text : List Char} (h : ∀ c ∈ text, c.toNat < 65536) : units text = text.map Char.toNat := by
  induction text with
  | nil => rfl
  | cons c rest ih =>
    have hc : codeUnits c = [c.toNat] := if_pos (h c List.mem_cons_self)
    have hrest : units rest = rest.map Char.toNat := ih fun d hd => h d (List.mem_cons_of_mem c hd)
    rw [units, List.flatMap_cons, hc, ← units, hrest]
    rfl

theorem length_units_bmp {text : List Char} (h : ∀ c ∈ text, c.toNat < 65536) :
    (units text).length = text.length := by
  rw [units_bmp h, List.length_map]

theorem toNat_injective : Function.Injective Char.toNat :=
  fun _ _ h => Char.toNat_inj.mp h

/-! ## Tallies -/

section Tally

variable {α : Type} [DecidableEq α]

def counted (counts : KeyedMap α ℕ) (a : α) : KeyedMap α ℕ :=
  counts.set a ((counts.get? a).getD 0 + 1)

def tally (l : List α) : KeyedMap α ℕ := l.foldl counted .empty

/-- The largest count, 0 for an empty tally. -/
def top (counts : KeyedMap α ℕ) : ℕ := counts.values.foldl max 0

theorem get?_counted (counts : KeyedMap α ℕ) (a b : α) :
    ((counted counts a).get? b).getD 0 = (counts.get? b).getD 0 + if b = a then 1 else 0 := by
  rw [counted, KeyedMap.get?_set]
  by_cases hb : b = a
  · subst hb
    simp
  · simp [hb]

theorem le_foldl_max {bound start : ℕ} (l : List ℕ) :
    bound ≤ l.foldl max start ↔ bound ≤ start ∨ ∃ n ∈ l, bound ≤ n := by
  induction l generalizing start with
  | nil => simp
  | cons n rest ih =>
    rw [List.foldl_cons, ih, le_max_iff]
    simp only [List.mem_cons, exists_eq_or_imp]
    tauto

variable [BEq α] [LawfulBEq α]

theorem get?_foldl_counted (l : List α) (counts : KeyedMap α ℕ) (b : α) :
    ((l.foldl counted counts).get? b).getD 0 = (counts.get? b).getD 0 + l.count b := by
  induction l generalizing counts with
  | nil => simp
  | cons a rest ih =>
    rw [List.foldl_cons, ih, get?_counted, List.count_cons]
    by_cases hb : b = a
    · subst hb
      simp
      omega
    · have hne : ¬ a = b := fun h => hb h.symm
      simp [hb, hne]

theorem get?_tally (l : List α) (b : α) : ((tally l).get? b).getD 0 = l.count b := by
  rw [tally, get?_foldl_counted]
  simp

theorem le_top_tally {bound : ℕ} (h : 0 < bound) (l : List α) :
    bound ≤ top (tally l) ↔ ∃ a, bound ≤ l.count a := by
  rw [top, le_foldl_max]
  constructor
  · intro hreached
    cases hreached with
    | inl hzero => omega
    | inr hvalue =>
      obtain ⟨n, hn, hle⟩ := hvalue
      obtain ⟨a, ha⟩ := KeyedMap.mem_values.mp hn
      have hcount : n = l.count a := by
        rw [← get?_tally, ha]
        rfl
      exact ⟨a, hcount ▸ hle⟩
  · rintro ⟨a, ha⟩
    have hget : ((tally l).get? a).getD 0 = l.count a := get?_tally l a
    cases hfound : (tally l).get? a with
    | none =>
      rw [hfound] at hget
      simp only [Option.getD_none] at hget
      omega
    | some n =>
      rw [hfound] at hget
      refine .inr ⟨n, KeyedMap.mem_values.mpr ⟨a, hfound⟩, ?_⟩
      simp only [Option.getD_some] at hget
      omega

end Tally

end ModelForge.TranscriptText
