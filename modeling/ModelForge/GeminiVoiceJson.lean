import ModelForge.CheckedList
import ModelForge.FencedJson
import ModelForge.NormalizedTranscript

set_option autoImplicit false

/-!
# Voice replies of Gemini

`parseGeminiVoiceJson` reads the object in a reply and takes the transcript from its
fields. The object is read back from its own text, in a code fence or not, exactly
where none of its strings has three backticks in a row.
-/
namespace ModelForge.GeminiVoiceJson
open EventStream (JsString Value js natural stringify)
open FencedJson (fence objectText wrap StringIn)
open JsonText (JsNumber)
open NormalizedTranscript (collapsed)
open ReservationCover (isWhiteSpace trim)
open ValueParse (Parsed parse ownProperties unitsOf)

/-! ## Values as strings and numbers -/

def isNull : Value → Bool
  | .null => true
  | _ => false

mutual

/-- `String(value)`, `none` where it throws: a property `toString` of an object hides the
method, and is no function. -/
def toText : Value → Option JsString
  | .null => some (js "null")
  | .bool b => some (js (if b then "true" else "false"))
  | .number n => some (n.chars.flatMap unitsOf)
  | .string s => some s
  | .array values => (itemTexts values).map ((js ",").intercalate ·)
  | .object members =>
    if (members.lookup (js "toString")).isSome then none else some (js "[object Object]")

/-- The items that `join` puts together, null as the empty string. -/
def itemTexts : List Value → Option (List JsString)
  | [] => some []
  | v :: values => do
    let text ← if isNull v then some [] else toText v
    let texts ← itemTexts values
    return text :: texts

end

/-- JavaScript's numbers: the value of a JSON number, `Number` of a string, `Math.max`. -/
structure Numbers (ν : Type) where
  ofNumber : JsNumber → ν
  ofText : JsString → ν
  max : ν → ν → ν

/-- `Number(value)`, `none` where it throws. -/
def toNumber {ν : Type} (numbers : Numbers ν) : Value → Option ν
  | .null => some (numbers.ofNumber (natural 0))
  | .bool b => some (numbers.ofNumber (natural (if b then 1 else 0)))
  | .number n => some (numbers.ofNumber n)
  | v => (toText v).map numbers.ofText

/-- `v.a ?? v.b`, `none` where both are null or absent. -/
def firstOf (v : Value) (keys : List String) : Option Value :=
  keys.findSome? fun key => (v.member key).filter fun w => !isNull w

/-- `String(value ?? otherwise)` -/
def textOr (otherwise : String) (value : Option Value) : Option JsString :=
  (value.map toText).getD (some (js otherwise))

/-- `String(item ?? "")` -/
def itemText (item : Value) : Option JsString := if isNull item then some [] else toText item

/-- `text || otherwise` -/
def nonempty (text otherwise : JsString) : JsString := if text = [] then otherwise else text

/-! ## Dialects -/

def DIALECT_LABELS : List (String × String) :=
  [("sylhet", "Sylhet"), ("sylheti", "Sylhet"), ("chittagong", "Chittagong"), ("chittagonian", "Chittagong"),
    ("ctg", "Chittagong"), ("noakhali", "Noakhali"), ("barisal", "Barisal"), ("rangpur", "Rangpur"),
    ("standard_bangla", "Standard Bangla"), ("standard", "Standard Bangla"), ("dhaka", "Standard Bangla"),
    ("mixed", "Mixed"), ("unknown", "Unknown")]

/-- What an object has from `Object.prototype`. -/
def inheritedKeys : List String :=
  ["constructor", "__defineGetter__", "__defineSetter__", "hasOwnProperty", "__lookupGetter__",
    "__lookupSetter__", "isPrototypeOf", "propertyIsEnumerable", "toString", "valueOf", "__proto__",
    "toLocaleString"]

/-- A label is a string, or the inherited property that the lookup of the table found. -/
inductive DialectLabel where
  | text (s : JsString)
  | inherited (key : JsString)
deriving DecidableEq

/-- `DIALECT_LABELS[key]` -/
def labelOf (key : JsString) : Option DialectLabel :=
  match DIALECT_LABELS.find? (js ·.1 = key) with
  | some entry => some (.text (js entry.2))
  | none => if inheritedKeys.any (js · = key) then some (.inherited key) else none

section Functions

variable {ν : Type} (numbers : Numbers ν) (toLowerCase : JsString → JsString)

/-- The hint and its label, from `String(raw ?? "")`. -/
def normalizeDialectHint (raw : JsString) : Option JsString × Option DialectLabel :=
  let key := (SplitWords.blanks isWhiteSpace).replaceAll (js "_") (toLowerCase (trim raw))
  if key = [] then (none, none)
  else if key = js "unknown" then (some (js "unknown"), some (.text (js "Unknown")))
  else
    match labelOf key with
    | some label =>
      (some (if key = js "sylheti" then js "sylhet"
        else if key = js "chittagonian" ∨ key = js "ctg" then js "chittagong"
        else if key = js "standard" ∨ key = js "dhaka" then js "standard_bangla"
        else key), some label)
    | none => (some key, if trim raw = [] then none else some (.text (trim raw)))

/-! ## The fields of a reply -/

structure TranscriptSegment (ν : Type) where
  startSec : ν
  endSec : ν
  text : JsString
  textEn : Option JsString
  speaker : JsString
  speakerId : JsString
deriving DecidableEq

/-- What `parseGeminiVoiceJson` returns; `speakerNames` are the entries of an object. -/
structure VoiceJson (ν : Type) where
  language : JsString
  text : JsString
  textEn : JsString
  dialectHint : Option JsString
  dialectLabel : Option DialectLabel
  segments : List (TranscriptSegment ν)
  speakerNames : List (JsString × JsString)
  namesMentioned : List JsString
  analysis : JsString
deriving DecidableEq

/-- `(value ?? []).map(f)`, `none` where there is no `map` or `f` throws. -/
def mapItems {α : Type} (f : Value → Option α) : Option Value → Option (List α)
  | none => some []
  | some (.array values) => values.mapM f
  | some _ => none

/-- One item of the `map` call; null has no members to read. -/
def segment (s : Value) : Option (TranscriptSegment ν) := do
  guard (isNull s = false)
  let startSec ← toNumber numbers ((firstOf s ["startSec", "start"]).getD (.number (natural 0)))
  let endSec ← ((firstOf s ["endSec", "end"]).map (toNumber numbers)).getD (some startSec)
  let text ← textOr "" (firstOf s ["text"])
  let textEn ← textOr "" (firstOf s ["textEn", "text_en"])
  let speaker ← textOr "SPEAKER_00" (firstOf s ["speaker"])
  let speaker := nonempty (trim speaker) (js "SPEAKER_00")
  return {
    startSec
    endSec := numbers.max endSec startSec
    text := collapsed text
    textEn := if collapsed textEn = [] then none else some (collapsed textEn)
    speaker
    speakerId := speaker }

def isDigit (u : UInt16) : Bool := 48 ≤ u && u ≤ 57

/-- `/^SPEAKER[_-]?\d+$/i` -/
def isSpeakerLabel (name : JsString) : Bool :=
  let rest := name.drop 7
  let digits := if rest.head? = some 95 ∨ rest.head? = some 45 then rest.tail else rest
  (name.take 7).map (fun u => if 97 ≤ u ∧ u ≤ 122 then u - 32 else u) = js "SPEAKER" &&
    digits ≠ [] && digits.all isDigit

/-- `Object.entries` -/
def entries : Value → List (JsString × Value)
  | .object members => members
  | .array values => values.zipIdx.map fun v => ((natural v.2).chars.flatMap unitsOf, v.1)
  | .string s => s.zipIdx.map fun u => ((natural u.2).chars.flatMap unitsOf, .string [u.1])
  | _ => []

/-- A speaker's name, where it is one. Setting `__proto__` to a string sets nothing. -/
def speakerName (entry : JsString × Value) : Option (Option (JsString × JsString)) := do
  let name ← itemText entry.2
  let id := trim entry.1
  return if id ≠ [] ∧ trim name ≠ [] ∧ isSpeakerLabel (trim name) = false ∧ id ≠ js "__proto__" then
    some (id, trim name) else none

/-- The part of `parseGeminiVoiceJson` behind `JSON.parse`, `none` where it throws. -/
def fromParsed (parsed : Value) : Option (VoiceJson ν) := do
  let segments ← mapItems (segment numbers) (firstOf parsed ["segments"])
  let segments := segments.filter fun s => 0 < s.text.length
  let text ← textOr "" (firstOf parsed ["text"])
  let text := nonempty (collapsed text) (trim ((js " ").intercalate (segments.map TranscriptSegment.text)))
  let textEn ← textOr "" (firstOf parsed ["textEn", "text_en"])
  let textEn := nonempty (collapsed textEn)
    (trim ((js " ").intercalate (segments.filterMap TranscriptSegment.textEn)))
  let hint ← textOr "" (firstOf parsed ["dialectHint", "dialect_hint"])
  let (dialectHint, dialectFromHint) := normalizeDialectHint toLowerCase hint
  let label ← textOr "" (firstOf parsed ["dialectLabel", "dialect_label"])
  let names ← (((firstOf parsed ["speakerNames", "speaker_names"]).map entries).getD []).mapM speakerName
  let mentioned ← mapItems itemText (firstOf parsed ["namesMentioned", "names_mentioned"])
  let language ← textOr "bn" (firstOf parsed ["language"])
  let analysis ← textOr "" (firstOf parsed ["analysis"])
  return {
    language := nonempty (trim language) (js "bn")
    text
    textEn
    dialectHint
    dialectLabel := if trim label = [] then dialectFromHint else some (.text (trim label))
    segments
    speakerNames := ownProperties names.reduceOption
    namesMentioned := ((mentioned.map trim).filter (· ≠ [])).eraseDups
    analysis := trim analysis }

end Functions

inductive VoiceError where
  | error (message : String)
  | syntaxError
  | typeError
deriving DecidableEq

def parseGeminiVoiceJson {ν : Type} (numbers : Numbers ν) (toLowerCase : JsString → JsString)
    (readNumber : List Char → Option JsNumber) (raw : List Char) : Except VoiceError (VoiceJson ν) :=
  match objectText raw with
  | none => .error (.error "Gemini voice response did not contain a JSON object")
  | some text =>
    match parse readNumber text with
    | none => .error .syntaxError
    | some parsed =>
      match fromParsed numbers toLowerCase parsed with
      | none => .error .typeError
      | some result => .ok result

/-! ## Payloads -/

/-- A member that the type has as optional: absent, null or of the kind. -/
def Optional (kind : Value → Prop) (v : Value) (keys : List String) : Prop :=
  ∀ key ∈ keys, ∀ w, v.member key = some w → w = .null ∨ kind w

def IsText (v : Value) : Prop := ∃ s, v = .string s

def IsNumber (v : Value) : Prop := ∃ n, v = .number n

def IsArrayOf (kind : Value → Prop) (v : Value) : Prop := ∃ values, v = .array values ∧ ∀ w ∈ values, kind w

structure IsSegment (s : Value) : Prop where
  isObject : ∃ members, s = .object members
  texts : Optional IsText s ["speaker", "text", "textEn", "text_en"]
  times : Optional IsNumber s ["startSec", "start", "endSec", "end"]

/-- The type that `parseGeminiVoiceJson` gives what `JSON.parse` returns. -/
structure IsPayload (v : Value) : Prop where
  isObject : ∃ members, v = .object members
  texts : Optional IsText v ["language", "text", "textEn", "text_en", "dialectHint", "dialect_hint",
    "dialectLabel", "dialect_label", "analysis"]
  names : Optional (fun w => ∃ members, w = .object members ∧ ∀ m ∈ members, m.2 = .null ∨ IsText m.2) v
    ["speakerNames", "speaker_names"]
  mentioned : Optional (IsArrayOf fun w => w = .null ∨ IsText w) v ["namesMentioned", "names_mentioned"]
  segments : Optional (IsArrayOf IsSegment) v ["segments"]

theorem Optional.mono {kind : Value → Prop} {v : Value} {keys keys' : List String} (h : Optional kind v keys)
    (hkeys : keys' ⊆ keys) : Optional kind v keys' := fun key hkey => h key (hkeys hkey)

theorem Optional.firstOf {kind : Value → Prop} {v w : Value} {keys : List String} (h : Optional kind v keys)
    (hw : firstOf v keys = some w) : kind w := by
  obtain ⟨key, hkey, hmember⟩ := List.exists_of_findSome?_eq_some hw
  obtain ⟨hmember, hnull⟩ := Option.filter_eq_some_iff.mp hmember
  rcases h key hkey w hmember with rfl | hkind
  · cases hnull
  · exact hkind

theorem exists_textOr {v : Value} {keys : List String} (h : Optional IsText v keys) (otherwise : String) :
    ∃ text, textOr otherwise (firstOf v keys) = some text := by
  cases hw : firstOf v keys with
  | none => exact ⟨_, rfl⟩
  | some w =>
    obtain ⟨s, rfl⟩ := h.firstOf hw
    exact ⟨s, by rw [textOr, Option.map_some, Option.getD_some, toText]⟩

theorem exists_itemText {v : Value} (h : v = .null ∨ IsText v) : ∃ text, itemText v = some text := by
  rcases h with rfl | ⟨s, rfl⟩
  · exact ⟨_, rfl⟩
  · exact ⟨s, by rw [itemText, toText]; rfl⟩

theorem exists_mapItems {kind : Value → Prop} {v : Value} {keys : List String} (h : Optional (IsArrayOf kind) v keys)
    {α : Type} {f : Value → Option α} (hf : ∀ w, kind w → ∃ a, f w = some a) :
    ∃ results, mapItems f (firstOf v keys) = some results := by
  cases hw : firstOf v keys with
  | none => exact ⟨[], rfl⟩
  | some w =>
    obtain ⟨values, rfl, hvalues⟩ := h.firstOf hw
    exact CheckedList.mapM_isSome_iff.mpr fun v hv => hf v (hvalues v hv)

theorem exists_speakerName {entry : JsString × Value} (h : entry.2 = .null ∨ IsText entry.2) :
    ∃ result, speakerName entry = some result := by
  obtain ⟨name, hname⟩ := exists_itemText h
  exact ⟨_, by rw [speakerName, hname]; rfl⟩

section Functions

variable {ν : Type} (numbers : Numbers ν) (toLowerCase : JsString → JsString)

theorem exists_toNumber {v : Value} {keys : List String} (h : Optional IsNumber v keys) {w : Value}
    (hw : firstOf v keys = some w) : ∃ n, toNumber numbers w = some n := by
  obtain ⟨n, rfl⟩ := h.firstOf hw
  exact ⟨_, rfl⟩

theorem exists_segment {s : Value} (h : IsSegment s) : ∃ result, segment numbers s = some result := by
  have htext : ∀ keys ⊆ ["speaker", "text", "textEn", "text_en"], ∀ otherwise,
      ∃ text, textOr otherwise (firstOf s keys) = some text :=
    fun _ hkeys otherwise => exists_textOr (h.texts.mono hkeys) otherwise
  obtain ⟨members, rfl⟩ := h.isObject
  obtain ⟨start, hstart⟩ : ∃ start, toNumber numbers
      ((firstOf (.object members) ["startSec", "start"]).getD (.number (natural 0))) = some start := by
    cases hw : firstOf (.object members) ["startSec", "start"] with
    | none => exact ⟨_, rfl⟩
    | some w => exact exists_toNumber numbers (h.times.mono (by simp)) hw
  obtain ⟨stop, hstop⟩ : ∃ stop, ((firstOf (.object members) ["endSec", "end"]).map (toNumber numbers)).getD
      (some start) = some stop := by
    cases hw : firstOf (.object members) ["endSec", "end"] with
    | none => exact ⟨_, rfl⟩
    | some w => exact exists_toNumber numbers (h.times.mono (by simp)) hw
  obtain ⟨text, htext₁⟩ := htext ["text"] (by simp) ""
  obtain ⟨textEn, htext₂⟩ := htext ["textEn", "text_en"] (by simp) ""
  obtain ⟨speaker, htext₃⟩ := htext ["speaker"] (by simp) "SPEAKER_00"
  simp only [segment, hstart, hstop, htext₁, htext₂, htext₃, Option.bind_eq_bind, Option.bind_some]
  exact ⟨_, rfl⟩

theorem exists_fromParsed {v : Value} (h : IsPayload v) : ∃ result, fromParsed numbers toLowerCase v = some result := by
  have htext : ∀ keys ⊆ ["language", "text", "textEn", "text_en", "dialectHint", "dialect_hint", "dialectLabel",
      "dialect_label", "analysis"], ∀ otherwise, ∃ text, textOr otherwise (firstOf v keys) = some text :=
    fun _ hkeys otherwise => exists_textOr (h.texts.mono hkeys) otherwise
  obtain ⟨segments, hsegments⟩ := exists_mapItems h.segments fun _ hs => exists_segment numbers hs
  obtain ⟨mentioned, hmentioned⟩ := exists_mapItems h.mentioned fun _ hn => exists_itemText hn
  obtain ⟨names, hnames⟩ : ∃ names,
      (((firstOf v ["speakerNames", "speaker_names"]).map entries).getD []).mapM speakerName = some names := by
    refine CheckedList.mapM_isSome_iff.mpr fun entry hentry => exists_speakerName ?_
    cases hw : firstOf v ["speakerNames", "speaker_names"] with
    | none =>
      rw [hw] at hentry
      cases hentry
    | some w =>
      obtain ⟨members, rfl, hmembers⟩ := h.names.firstOf hw
      rw [hw] at hentry
      exact hmembers entry hentry
  obtain ⟨text, htext₁⟩ := htext ["text"] (by simp) ""
  obtain ⟨textEn, htext₂⟩ := htext ["textEn", "text_en"] (by simp) ""
  obtain ⟨hint, htext₃⟩ := htext ["dialectHint", "dialect_hint"] (by simp) ""
  obtain ⟨label, htext₄⟩ := htext ["dialectLabel", "dialect_label"] (by simp) ""
  obtain ⟨language, htext₅⟩ := htext ["language"] (by simp) "bn"
  obtain ⟨analysis, htext₆⟩ := htext ["analysis"] (by simp) ""
  simp only [fromParsed, hsegments, hmentioned, hnames, htext₁, htext₂, htext₃, htext₄, htext₅, htext₆,
    Option.bind_eq_bind, Option.bind_some]
  exact ⟨_, rfl⟩

end Functions

/-! ## Recovering a payload -/

theorem noFence_iff (v : Value) : ¬ fence <:+: stringify v ↔ ∀ s, StringIn s v → ¬ js "```" <:+: s := by
  have hfence := FencedJson.ticks_stringify (n := 3) (by decide) v
  have hmark : js "```" = List.replicate 3 96 := by decide
  rw [hmark, fence, hfence]
  push Not
  rfl

section Recovery

variable {ν : Type} {numbers : Numbers ν} {toLowerCase : JsString → JsString}
  {readNumber : List Char → Option JsNumber} {raw text : List Char} {v : Value} {result : VoiceJson ν}

theorem parseGeminiVoiceJson_ok (htext : objectText raw = some text) (hparse : parse readNumber text = some v)
    (hfields : fromParsed numbers toLowerCase v = some result) :
    parseGeminiVoiceJson numbers toLowerCase readNumber raw = .ok result := by
  simp only [parseGeminiVoiceJson, htext, hparse, hfields]

theorem parse_of_ok (h : parseGeminiVoiceJson numbers toLowerCase readNumber raw = .ok result) :
    (objectText raw).bind (parse readNumber) ≠ none := by
  intro hnone
  rw [parseGeminiVoiceJson] at h
  split at h
  · cases h
  · rename_i text htext
    rw [htext, Option.bind_some] at hnone
    rw [hnone] at h
    cases h

end Recovery

/-! ## Two payloads -/

def decimal (chars : List Char) : ℕ := chars.foldl (fun n c => 10 * n + (c.toNat - 48)) 0

def naturals : Numbers ℕ := ⟨fun n => decimal n.chars, fun s => decimal (s.map fun u => Char.ofNat u.toNat), max⟩

/-- Reads a number that is written as `JSON.stringify` writes it. -/
def readCanonical (chars : List Char) : Option JsNumber :=
  if h : chars ≠ [] ∧ chars.all JsonText.isNumeric = true then some ⟨chars, h.1, List.all_eq_true.mp h.2⟩ else none

theorem readCanonical_chars (n : JsNumber) : readCanonical n.chars = some n :=
  dif_pos ⟨n.nonempty, List.all_eq_true.mpr n.numeric⟩

def payloadOf (spoken analysis : JsString) : Value :=
  .object
    [(js "segments", .array [.object [(js "startSec", .number (natural 1)), (js "text", .string spoken)]]),
      (js "analysis", .string analysis)]

theorem parsed_payloadOf (spoken analysis : JsString) : Parsed readCanonical (payloadOf spoken analysis) := by
  have houter : ValueParse.Listed [js "segments", js "analysis"] := by decide +kernel
  have hinner : ValueParse.Listed [js "startSec", js "text"] := by decide +kernel
  refine .object houter (List.forall_mem_cons.mpr ⟨.array ?_, List.forall_mem_singleton.mpr (.string _)⟩)
  refine List.forall_mem_singleton.mpr (.object hinner ?_)
  exact List.forall_mem_cons.mpr ⟨.number (readCanonical_chars _), List.forall_mem_singleton.mpr (.string _)⟩

theorem isSegment_spoken (spoken : JsString) :
    IsSegment (.object [(js "startSec", .number (natural 1)), (js "text", .string spoken)]) where
  isObject := ⟨_, rfl⟩
  texts := by simp [Optional, Value.member, IsText, List.lookup]
  times := by simp [Optional, Value.member, IsNumber, List.lookup]

theorem isPayload_payloadOf (spoken analysis : JsString) : IsPayload (payloadOf spoken analysis) where
  isObject := ⟨_, rfl⟩
  texts := by simp [Optional, payloadOf, Value.member, IsText, List.lookup]
  names := by simp [Optional, payloadOf, Value.member, List.lookup]
  mentioned := by simp [Optional, payloadOf, Value.member, List.lookup]
  segments := by simpa [Optional, payloadOf, Value.member, List.lookup, IsArrayOf] using isSegment_spoken spoken

/-- Quotation marks, braces, a surrogate by itself and two backticks. -/
def plainPayload : Value := payloadOf (js "\"\x7d``\x7b" ++ [0xD800]) (js "`` `\n")

/-- A code fence in the analysis. -/
def fencedPayload : Value := payloadOf (js "ok") (js "```\x7b\x7d```")

/-! ## Recovering a payload -/

/-- A payload's text, in a code fence or not, gives what its own fields give exactly
where no string of the payload has three backticks in a row. -/
theorem payload_recovered_iff {ν : Type} (numbers : Numbers ν) (toLowerCase : JsString → JsString)
    (readNumber : List Char → Option JsNumber) {v : Value} (hv : Parsed readNumber v) (hp : IsPayload v) :
    (∃ result, fromParsed numbers toLowerCase v = some result ∧
      parseGeminiVoiceJson numbers toLowerCase readNumber (stringify v) = .ok result ∧
        parseGeminiVoiceJson numbers toLowerCase readNumber (wrap (stringify v)) = .ok result) ↔
      ∀ s, StringIn s v → ¬ js "```" <:+: s := by
  obtain ⟨members, rfl⟩ := hp.isObject
  rw [← noFence_iff]
  constructor
  · rintro ⟨result, -, -, hwrapped⟩ hfence
    exact parse_of_ok hwrapped (FencedJson.parse_wrap_none hv hfence)
  · intro hfence
    obtain ⟨result, hresult⟩ := exists_fromParsed numbers toLowerCase hp
    obtain ⟨htext, hwrapped, hparse⟩ := FencedJson.parse_objectText hv hfence
    exact ⟨result, hresult, parseGeminiVoiceJson_ok htext hparse hresult,
      parseGeminiVoiceJson_ok hwrapped hparse hresult⟩

theorem payload_recovered_plain : (∃ result, fromParsed naturals id plainPayload = some result ∧
    parseGeminiVoiceJson naturals id readCanonical (stringify plainPayload) = .ok result ∧
      parseGeminiVoiceJson naturals id readCanonical (wrap (stringify plainPayload)) = .ok result) ∧
    ∀ s, StringIn s plainPayload → ¬ js "```" <:+: s := by
  have hstrings := (noFence_iff plainPayload).mp (by decide +kernel)
  exact ⟨(payload_recovered_iff naturals id readCanonical (parsed_payloadOf _ _) (isPayload_payloadOf _ _)).mpr hstrings,
    hstrings⟩

/-- Without a fence around it, the payload loses its transcript; with one, it is rejected. -/
theorem fence_in_analysis : Parsed readCanonical fencedPayload ∧ IsPayload fencedPayload ∧
    (fromParsed naturals id fencedPayload).map VoiceJson.text = some (js "ok") ∧
    (parseGeminiVoiceJson naturals id readCanonical (stringify fencedPayload)).toOption.map VoiceJson.text =
      some [] ∧
    parseGeminiVoiceJson naturals id readCanonical (wrap (stringify fencedPayload)) = .error .syntaxError ∧
    ¬ ∃ result, fromParsed naturals id fencedPayload = some result ∧
      parseGeminiVoiceJson naturals id readCanonical (stringify fencedPayload) = .ok result ∧
        parseGeminiVoiceJson naturals id readCanonical (wrap (stringify fencedPayload)) = .ok result := by
  have hwrapped : parseGeminiVoiceJson naturals id readCanonical (wrap (stringify fencedPayload)) =
      .error .syntaxError := by decide +kernel
  refine ⟨parsed_payloadOf _ _, isPayload_payloadOf _ _, by decide +kernel, by decide +kernel, hwrapped, ?_⟩
  rintro ⟨result, -, -, hresult⟩
  rw [hwrapped] at hresult
  cases hresult

end ModelForge.GeminiVoiceJson
