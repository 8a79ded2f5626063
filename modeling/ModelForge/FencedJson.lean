import ModelForge.SpacedText
import ModelForge.TextMarks
import ModelForge.ValueParse

set_option autoImplicit false

/-!
# A JSON object in a code fence

How `parseGeminiVoiceJson` finds the object in a reply. It looks for a fence
anywhere in the reply, so three backticks inside a string of the object are taken
for one.
-/
namespace ModelForge.FencedJson
open EventStream
open JsonText (escapeChar hexDigit quotationMark backslash isNumeric)
open LlamaPool (isWhiteSpace trim)
open SpacedText (Framed)
open TextMarks (cut Spells)
open ValueParse (Parsed parse memberText)

/-! ## Finding the object -/

def fence : List Char := List.replicate 3 '`'

/-- Passes over `(?:json)?`, in capitals or not. -/
def afterLanguage (text : List Char) : List Char :=
  if (text.take 4).map Char.toLower = ['j', 's', 'o', 'n'] then text.drop 4 else text

/-- What the group in `/```(?:json)?\s*([\s\S]*?)```/i` matches. A match begins at the
first fence that another one follows, and what stands between them is shortest; there
is no fence in what the optional parts take, so taking less finds no other match. -/
def fenced (text : List Char) : Option (List Char) := do
  let (_, inside) ← cut fence text
  let (body, _) ← cut fence ((afterLanguage inside).dropWhile isWhiteSpace)
  return body

/-- `cleaned` -/
def cleaned (raw : List Char) : List Char :=
  match fenced (trim raw) with
  | some body => trim body
  | none => trim raw

def lastIndexOf (c : Char) (text : List Char) : Option ℕ :=
  (text.reverse.findIdx? (· = c)).map fun i => text.length - 1 - i

/-- `cleaned.slice(start, end + 1)`, `none` where there is no object in the reply. -/
def objectText (raw : List Char) : Option (List Char) :=
  match (cleaned raw).findIdx? (· = '\x7b'), lastIndexOf '\x7d' (cleaned raw) with
  | some start, some last => if last ≤ start then none else some (((cleaned raw).take (last + 1)).drop start)
  | _, _ => none

/-- A text in a Markdown code fence for JSON. -/
def wrap (text : List Char) : List Char := fence ++ ['j', 's', 'o', 'n', '\n'] ++ text ++ '\n' :: fence

/-- The optional parts of the pattern take no fence and no part of one. -/
theorem fence_infix_stripped (inside : List Char) :
    fence <:+: (afterLanguage inside).dropWhile isWhiteSpace ↔ fence <:+: inside := by
  have hne : fence ≠ [] := by decide
  have hletter : isWhiteSpace '`' = false ∧ '`'.toLower ∉ ['j', 's', 'o', 'n'] := by decide
  have hspace : ∀ text : List Char, fence <:+: text.dropWhile isWhiteSpace ↔ fence <:+: text := by
    intro text
    rw [← List.takeWhile_append_dropWhile (p := isWhiteSpace) (l := text), TextMarks.infix_append_of_disjoint hne,
      List.takeWhile_append_dropWhile]
    intro c hc hmem
    have hblank := List.mem_takeWhile_imp hc
    rw [List.eq_of_mem_replicate hmem, hletter.1] at hblank
    cases hblank
  rw [hspace, afterLanguage]
  split
  · rename_i hjson
    conv_rhs => rw [← List.take_append_drop 4 inside]
    rw [TextMarks.infix_append_of_disjoint hne]
    intro c hc hmem
    have hlower := List.mem_map_of_mem (f := Char.toLower) hc
    rw [hjson, List.eq_of_mem_replicate hmem] at hlower
    exact hletter.2 hlower
  · rfl

/-- The pattern matches where the text has two fences, one behind the other. -/
theorem fenced_eq_none_iff (text : List Char) :
    fenced text = none ↔ ¬ ∃ front inner back, text = front ++ fence ++ inner ++ fence ++ back := by
  have hne : fence ≠ [] := by decide
  have hinside : ∀ inside, cut fence ((afterLanguage inside).dropWhile isWhiteSpace) = none ↔ ¬ fence <:+: inside :=
    fun inside => by rw [TextMarks.cut_eq_none_iff hne, fence_infix_stripped]
  cases hcut : cut fence text with
  | none =>
    have hnone := (TextMarks.cut_eq_none_iff hne).mp hcut
    rw [fenced, hcut]
    refine iff_of_true rfl ?_
    rintro ⟨front, inner, back, rfl⟩
    exact hnone ⟨front, inner ++ fence ++ back, by simp⟩
  | some parts =>
    obtain ⟨before, inside⟩ := parts
    have htext := TextMarks.eq_of_cut hcut
    have hfenced : fenced text = none ↔ ¬ fence <:+: inside := by
      rw [← hinside]
      simp only [fenced, hcut, Option.bind_eq_bind, Option.bind_some]
      cases cut fence ((afterLanguage inside).dropWhile isWhiteSpace) <;> simp
    rw [hfenced, not_iff_not]
    constructor
    · rintro ⟨inner, back, rfl⟩
      exact ⟨before, inner, back, by simpa using htext⟩
    · rintro ⟨front, inner, back, hsplit⟩
      have hsecond : text = front ++ fence ++ (inner ++ fence ++ back) := by simpa using hsplit
      have hfirst := TextMarks.length_le_of_cut hcut hsecond
      have hle : (before ++ fence).length ≤ (front ++ fence ++ inner).length := by
        simp only [List.length_append]
        omega
      have hrest : inside = (front ++ fence ++ inner).drop (before ++ fence).length ++ (fence ++ back) := by
        rw [← List.drop_append_of_le_length hle, ← List.append_assoc, ← hsplit, htext, List.drop_left]
      exact ⟨_, back, by rw [hrest, List.append_assoc]⟩

/-! ## Backticks in the text of a value -/

/-- A string of a value, or a key of an object in it. -/
inductive StringIn (s : JsString) : Value → Prop
  | string : StringIn s (.string s)
  | item {values : List Value} {v : Value} (hv : v ∈ values) (h : StringIn s v) : StringIn s (.array values)
  | key {members : List (JsString × Value)} {v : Value} (hm : (s, v) ∈ members) : StringIn s (.object members)
  | member {members : List (JsString × Value)} {m : JsString × Value} (hm : m ∈ members) (h : StringIn s m.2) :
    StringIn s (.object members)

theorem hexDigit_ne_tick {n : ℕ} (h : n < 16) : '`' ≠ hexDigit n := by
  interval_cases n <;> decide

theorem tick_notMem_escapeChar {c : Char} (hc : c ≠ '`') : '`' ∉ escapeChar c := by
  unfold escapeChar
  split_ifs with _ _ _ _ _ _ _ hcontrol
  iterate 7 decide
  · have hhigh := hexDigit_ne_tick (n := c.toNat / 16) (by omega)
    have hlow := hexDigit_ne_tick (n := c.toNat % 16) (by omega)
    simp [backslash, hhigh, hlow]
  · simpa using hc.symm

theorem tick_notMem_escapeUnit {u : UInt16} (hu : u ≠ 96) : '`' ∉ escapeUnit u := by
  have hlt : u.toNat < 65536 := u.toNat_lt
  unfold escapeUnit
  split
  · have h₁ := hexDigit_ne_tick (n := u.toNat / 4096) (by omega)
    have h₂ := hexDigit_ne_tick (n := u.toNat / 256 % 16) (by omega)
    have h₃ := hexDigit_ne_tick (n := u.toNat / 16 % 16) (by omega)
    have h₄ := hexDigit_ne_tick (n := u.toNat % 16) (by omega)
    simp [backslash, h₁, h₂, h₃, h₄]
  · rename_i hsurrogate
    have hnat := ValueParse.toNat_ofNat_of_not_surrogate hsurrogate
    refine tick_notMem_escapeChar fun htick => hu ?_
    rw [htick] at hnat
    exact UInt16.toNat_inj.mp (hnat.symm.trans (by decide))

theorem escapeUnit_ne_nil (u : UInt16) : escapeUnit u ≠ [] := by
  unfold escapeUnit
  split
  · exact List.cons_ne_nil _ _
  · exact JsonText.escapeChar_ne_nil _

theorem escapeUnits_cons {u : UInt16} {s : JsString} (h : ∀ v ∈ s.head?, (isHigh u && isLow v) = false) :
    escapeUnits (u :: s) = escapeUnit u ++ escapeUnits s := by
  cases s with
  | nil => rw [escapeUnits, escapeUnits, List.append_nil]
  | cons v s => rw [escapeUnits, h v rfl, if_neg Bool.false_ne_true]

/-- A backtick inside a string is written as it is, and nothing else is written with one. -/
theorem spells_tick : Spells escapeUnits 96 '`' where
  nil := rfl
  letter s := escapeUnits_cons fun v _ => rfl
  piece u s hu := by
    by_cases hpair : ∃ v ∈ s.head?, (isHigh u && isLow v) = true
    · obtain ⟨v, hv, hpair⟩ := hpair
      obtain ⟨rest, rfl⟩ := List.head?_eq_some_iff.mp hv
      have hlow : isLow v = true := (Bool.and_eq_true_iff.mp hpair).2
      have hhigh : isHigh u = true := (Bool.and_eq_true_iff.mp hpair).1
      have hnat := StreamRoundTrip.toNat_pairChar hhigh hlow
      refine ⟨[u, v], rest, [pairChar u v], rfl, ?_, List.cons_ne_nil _ _, List.cons_ne_nil _ _, ?_, ?_⟩
      · rw [escapeUnits, if_pos hpair, List.singleton_append]
      · have hv : (96 : UInt16) ≠ v := by
          rintro rfl
          exact absurd hlow (by decide)
        simp [hu.symm, hv]
      · rw [List.mem_singleton]
        intro htick
        rw [← htick] at hnat
        have htick : '`'.toNat = 96 := rfl
        omega
    · push Not at hpair
      refine ⟨[u], s, escapeUnit u, rfl, escapeUnits_cons fun v hv => Bool.eq_false_iff.mpr (hpair v hv),
        List.cons_ne_nil _ _, escapeUnit_ne_nil u, by simpa using hu.symm, tick_notMem_escapeUnit hu⟩

@[elab_as_elim] theorem value_induction {motive : Value → Prop} (null : motive .null) (bool : ∀ b, motive (.bool b))
    (number : ∀ n, motive (.number n)) (string : ∀ s, motive (.string s))
    (array : ∀ values, (∀ v ∈ values, motive v) → motive (.array values))
    (object : ∀ members, (∀ m ∈ members, motive m.2) → motive (.object members)) (v : Value) : motive v := by
  refine @Value.rec motive (fun values => ∀ v ∈ values, motive v) (fun members => ∀ m ∈ members, motive m.2)
    (fun m => motive m.2) null bool number string array object ?_ ?_ ?_ ?_ ?_ v
  · exact List.forall_mem_nil _
  · exact fun _ _ hv hvalues => List.forall_mem_cons.mpr ⟨hv, hvalues⟩
  · exact List.forall_mem_nil _
  · exact fun _ _ hm hmembers => List.forall_mem_cons.mpr ⟨hm, hmembers⟩
  · exact fun _ _ hv => hv

section Ticks

variable {n : ℕ}

theorem notMem_ticks {c : Char} (hc : c ≠ '`') : c ∉ List.replicate n '`' :=
  fun hmem => hc (List.eq_of_mem_replicate hmem)

theorem ticks_ne_nil (hn : 0 < n) : List.replicate n '`' ≠ [] := by
  simpa using hn.ne'

theorem ticks_quote (hn : 0 < n) (s : JsString) :
    List.replicate n '`' <:+: quote s ↔ List.replicate n 96 <:+: s := by
  have hmark : quotationMark ∉ List.replicate n '`' := notMem_ticks (by decide)
  rw [quote, TextMarks.infix_framed (ticks_ne_nil hn) hmark hmark, spells_tick.infix_iff hn]

theorem ticks_array (hn : 0 < n) (values : List Value) : List.replicate n '`' <:+: stringify (.array values) ↔
    ∃ v ∈ values, List.replicate n '`' <:+: stringify v := by
  rw [stringify, ValueParse.stringifyItems_eq_map,
    TextMarks.infix_framed (ticks_ne_nil hn) (notMem_ticks (by decide)) (notMem_ticks (by decide)),
    TextMarks.infix_intercalate (ticks_ne_nil hn) (notMem_ticks (by decide))]
  simp only [List.mem_map, exists_exists_and_eq_and]

theorem ticks_object (hn : 0 < n) (members : List (JsString × Value)) :
    List.replicate n '`' <:+: stringify (.object members) ↔
      ∃ m ∈ members, List.replicate n 96 <:+: m.1 ∨ List.replicate n '`' <:+: stringify m.2 := by
  rw [stringify, ValueParse.stringifyMembers_eq_map,
    TextMarks.infix_framed (ticks_ne_nil hn) (notMem_ticks (by decide)) (notMem_ticks (by decide)),
    TextMarks.infix_intercalate (ticks_ne_nil hn) (notMem_ticks (by decide))]
  simp only [List.mem_map, exists_exists_and_eq_and, memberText,
    TextMarks.infix_append_cons (notMem_ticks (by decide : ':' ≠ '`')), ticks_quote hn]

theorem exists_string_of_ticks (hn : 0 < n) (v : Value) (h : List.replicate n '`' <:+: stringify v) :
    ∃ s, StringIn s v ∧ List.replicate n 96 <:+: s := by
  induction v using value_induction with
  | null =>
    rw [stringify] at h
    exact absurd h (TextMarks.not_infix_of_notMem hn (by decide))
  | bool b =>
    rw [stringify] at h
    refine absurd h (TextMarks.not_infix_of_notMem hn ?_)
    cases b <;> decide
  | number m =>
    rw [stringify] at h
    refine absurd h (TextMarks.not_infix_of_notMem hn fun hmem => ?_)
    exact absurd (m.numeric _ hmem) (by decide)
  | string s =>
    rw [stringify] at h
    exact ⟨s, .string, (ticks_quote hn s).mp h⟩
  | array values ih =>
    obtain ⟨v, hv, hticks⟩ := (ticks_array hn values).mp h
    obtain ⟨s, hs, hinfix⟩ := ih v hv hticks
    exact ⟨s, .item hv hs, hinfix⟩
  | object members ih =>
    obtain ⟨m, hm, hkey | hticks⟩ := (ticks_object hn members).mp h
    · exact ⟨m.1, .key hm, hkey⟩
    · obtain ⟨s, hs, hinfix⟩ := ih m hm hticks
      exact ⟨s, .member hm hs, hinfix⟩

theorem ticks_of_string (hn : 0 < n) {s : JsString} {v : Value} (hs : StringIn s v)
    (h : List.replicate n 96 <:+: s) : List.replicate n '`' <:+: stringify v := by
  induction hs with
  | string =>
    rw [stringify]
    exact (ticks_quote hn s).mpr h
  | item hv _ ih => exact (ticks_array hn _).mpr ⟨_, hv, ih⟩
  | key hm => exact (ticks_object hn _).mpr ⟨_, hm, .inl h⟩
  | member hm _ ih => exact (ticks_object hn _).mpr ⟨_, hm, .inr ih⟩

/-- Backticks stand in a row in the text of a value where they do in one of its strings. -/
theorem ticks_stringify (hn : 0 < n) (v : Value) : List.replicate n '`' <:+: stringify v ↔
    ∃ s, StringIn s v ∧ List.replicate n 96 <:+: s :=
  ⟨exists_string_of_ticks hn v, fun ⟨_, hs, h⟩ => ticks_of_string hn hs h⟩

end Ticks

/-! ## The object in a reply -/

theorem objectText_of_cleaned {raw inner : List Char} (h : cleaned raw = '\x7b' :: (inner ++ ['\x7d'])) :
    objectText raw = some (cleaned raw) := by
  have hfirst : (cleaned raw).findIdx? (· = '\x7b') = some 0 := by simp [h, List.findIdx?_cons]
  have hlast : lastIndexOf '\x7d' (cleaned raw) = some (inner.length + 1) := by
    simp [lastIndexOf, h, List.findIdx?_cons]
  have htake : (cleaned raw).take (inner.length + 1 + 1) = cleaned raw := by
    rw [List.take_of_length_le]
    simp [h]
  rw [objectText, hfirst, hlast]
  simp only [Nat.le_zero, Nat.add_eq_zero_iff, one_ne_zero, and_false, if_false, htake, List.drop_zero]

/-- What is taken from a text that starts with a brace is the front of the text. -/
theorem objectText_prefix {raw inner text : List Char} (h : cleaned raw = '\x7b' :: inner)
    (htext : objectText raw = some text) : text <+: cleaned raw := by
  have hfirst : (cleaned raw).findIdx? (· = '\x7b') = some 0 := by simp [h, List.findIdx?_cons]
  rw [objectText, hfirst] at htext
  split at htext
  · rename_i start last hstart _
    cases hstart
    split at htext
    · cases htext
    · cases htext
      exact List.take_prefix _ _
  · cases htext

theorem framed_object (inner : List Char) : Framed isWhiteSpace ('\x7b' :: (inner ++ ['\x7d'])) where
  head := ⟨_, _, rfl, by decide⟩
  last := ⟨'\x7b' :: inner, _, rfl, by decide⟩

theorem objectText_object {inner : List Char} (h : ¬ fence <:+: '\x7b' :: (inner ++ ['\x7d'])) :
    objectText ('\x7b' :: (inner ++ ['\x7d'])) = some ('\x7b' :: (inner ++ ['\x7d'])) := by
  have htrim : trim ('\x7b' :: (inner ++ ['\x7d'])) = '\x7b' :: (inner ++ ['\x7d']) :=
    SpacedText.trim_framed (framed_object inner)
  have hfenced : fenced ('\x7b' :: (inner ++ ['\x7d'])) = none := by
    rw [fenced, (TextMarks.cut_eq_none_iff (by decide)).mpr h]
    rfl
  have hcleaned : cleaned ('\x7b' :: (inner ++ ['\x7d'])) = '\x7b' :: (inner ++ ['\x7d']) := by
    rw [cleaned, htrim, hfenced]
  rw [objectText_of_cleaned hcleaned, hcleaned]

/-- The fence around a text opens at its first letter and closes at the first fence. -/
theorem cleaned_wrap {inner body behind : List Char}
    (h : cut fence ('\x7b' :: (inner ++ '\n' :: fence)) = some (body, behind)) :
    cleaned (wrap ('\x7b' :: inner)) = trim body := by
  have htrim : trim (wrap ('\x7b' :: inner)) = wrap ('\x7b' :: inner) := by
    have hframed : Framed isWhiteSpace (wrap ('\x7b' :: inner)) := by
      constructor
      · exact ⟨'`', _, rfl, by decide⟩
      · exact ⟨fence ++ ['j', 's', 'o', 'n', '\n'] ++ '\x7b' :: inner ++ '\n' :: List.replicate 2 '`', '`',
          by simp [wrap, fence], by decide⟩
    exact SpacedText.trim_framed hframed
  have hopen : cut fence (wrap ('\x7b' :: inner)) =
      some ([], ['j', 's', 'o', 'n', '\n'] ++ '\x7b' :: inner ++ '\n' :: fence) := by
    rw [wrap, List.append_assoc, List.append_assoc]
    exact TextMarks.cut_mark_append (by decide) _
  have hlanguage : (afterLanguage (['j', 's', 'o', 'n', '\n'] ++ '\x7b' :: inner ++ '\n' :: fence)).dropWhile
      isWhiteSpace = '\x7b' :: (inner ++ '\n' :: fence) := by
    have hjson : ((['j', 's', 'o', 'n', '\n'] ++ '\x7b' :: inner ++ '\n' :: fence).take 4).map Char.toLower =
        ['j', 's', 'o', 'n'] := rfl
    rw [afterLanguage, if_pos hjson]
    change ('\n' :: '\x7b' :: (inner ++ '\n' :: fence)).dropWhile isWhiteSpace = _
    rw [List.dropWhile_cons_of_pos (by decide), List.dropWhile_cons_of_neg (by decide)]
  have hfenced : fenced (wrap ('\x7b' :: inner)) = some body := by
    simp only [fenced, hopen, Option.bind_eq_bind, Option.bind_some, hlanguage, h]
    rfl
  rw [cleaned, htrim, hfenced]

theorem objectText_wrap {inner : List Char} (h : ¬ fence <:+: '\x7b' :: (inner ++ ['\x7d'])) :
    objectText (wrap ('\x7b' :: (inner ++ ['\x7d']))) = some ('\x7b' :: (inner ++ ['\x7d'])) := by
  have hcut : cut fence ('\x7b' :: (inner ++ ['\x7d'] ++ '\n' :: fence)) =
      some ('\x7b' :: (inner ++ ['\x7d']) ++ ['\n'], []) := by
    have hclose : cut fence fence = some ([], []) := TextMarks.cut_mark_append (by decide) []
    rw [← List.cons_append, TextMarks.cut_append_cons (by decide) (by decide) h, hclose]
    rfl
  have hblank : ∀ c ∈ ['\n'], isWhiteSpace c = true := List.forall_mem_singleton.mpr (by decide)
  have htrim : trim ('\x7b' :: (inner ++ ['\x7d']) ++ ['\n']) = '\x7b' :: (inner ++ ['\x7d']) :=
    (framed_object inner).trim_eq (List.forall_mem_nil _) hblank
  have hcleaned := (cleaned_wrap hcut).trans htrim
  rw [objectText_of_cleaned hcleaned, hcleaned]

/-- With three backticks in a row, the text ends before them. -/
theorem objectText_wrap_cut {inner text : List Char} (h : fence <:+: '\x7b' :: inner)
    (htext : objectText (wrap ('\x7b' :: inner)) = some text) :
    text <+: '\x7b' :: inner ∧ text ≠ '\x7b' :: inner := by
  have hsome : cut fence ('\x7b' :: inner) ≠ none := fun hnone =>
    (TextMarks.cut_eq_none_iff (by decide)).mp hnone h
  obtain ⟨⟨body, behind⟩, hcut⟩ := Option.ne_none_iff_exists'.mp hsome
  have hsplit := TextMarks.eq_of_cut hcut
  have hcleaned := cleaned_wrap (TextMarks.cut_append hcut ('\n' :: fence))
  cases body with
  | nil => cases (List.cons.inj hsplit).1
  | cons c body =>
    obtain rfl : c = '\x7b' := (List.cons.inj hsplit).1.symm
    have hbrace : Framed isWhiteSpace ['\x7b'] := ⟨⟨_, _, rfl, by decide⟩, ⟨[], _, rfl, by decide⟩⟩
    have htrim : trim ('\x7b' :: body) = '\x7b' :: body.rdropWhile isWhiteSpace := SpacedText.trim_context hbrace [] body
    rw [htrim] at hcleaned
    have hprefix := objectText_prefix hcleaned htext
    have hbody : text <+: '\x7b' :: body := by
      rw [hcleaned] at hprefix
      exact hprefix.trans (List.cons_prefix_cons.mpr ⟨rfl, List.rdropWhile_prefix _ _⟩)
    have hshort := hbody.length_le
    refine ⟨hbody.trans ⟨fence ++ behind, by rw [hsplit, List.append_assoc]⟩, fun heq => ?_⟩
    rw [heq, hsplit, List.length_append, List.length_append] at hshort
    have hlength : fence.length = 3 := rfl
    omega

/-! ## The value in a reply -/

section Reader

variable {readNumber : List Char → Option JsonText.JsNumber} {members : List (JsString × Value)}

theorem stringify_object (members : List (JsString × Value)) :
    ∃ inner, stringify (.object members) = '\x7b' :: (inner ++ ['\x7d']) := ⟨_, by rw [stringify]⟩

theorem parse_objectText (hv : Parsed readNumber (.object members))
    (h : ¬ fence <:+: stringify (.object members)) :
    objectText (stringify (.object members)) = some (stringify (.object members)) ∧
      objectText (wrap (stringify (.object members))) = some (stringify (.object members)) ∧
        parse readNumber (stringify (.object members)) = some (.object members) := by
  obtain ⟨inner, hinner⟩ := stringify_object members
  refine ⟨?_, ?_, ValueParse.parse_stringify hv⟩
  · rw [hinner] at h ⊢
    exact objectText_object h
  · rw [hinner] at h ⊢
    exact objectText_wrap h

/-- The text that is left of an object with three backticks in a row is no JSON. -/
theorem parse_wrap_none (hv : Parsed readNumber (.object members)) (h : fence <:+: stringify (.object members)) :
    (objectText (wrap (stringify (.object members)))).bind (parse readNumber) = none := by
  obtain ⟨inner, hinner⟩ := stringify_object members
  cases htext : objectText (wrap (stringify (.object members))) with
  | none => rfl
  | some text =>
    have hcut : text <+: stringify (.object members) ∧ text ≠ stringify (.object members) := by
      rw [hinner] at h htext ⊢
      exact objectText_wrap_cut h htext
    exact ValueParse.parse_prefix hv hcut.1 hcut.2

end Reader

end ModelForge.FencedJson
