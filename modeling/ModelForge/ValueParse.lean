import ModelForge.ItemReader
import ModelForge.JsonParse
import ModelForge.StreamRoundTrip

set_option autoImplicit false

/-!
# JSON.parse for values over code units

A text is read by recursive descent, a surrogate that is in no pair from its escape.
The text of a value is read back as the value, and no text that stops inside an
object is read at all.
-/
namespace ModelForge.ValueParse
open EventStream
open ItemReader (Reader Extends items)
open JsonParse (skipSpace readHex isNumberChar)
open JsonText (JsNumber escapeChar hexDigit quotationMark backslash isNumeric Delimited)

/-! ## The reader -/

def unitsOf (c : Char) : JsString := (CanonicalJson.codeUnits c).map UInt16.ofNat

def escapeValue (c : Char) : Option UInt16 :=
  if c = 'b' then some 8
  else if c = 't' then some 9
  else if c = 'n' then some 10
  else if c = 'f' then some 12
  else if c = 'r' then some 13
  else if c = quotationMark ∨ c = backslash ∨ c = '/' then some (UInt16.ofNat c.toNat)
  else none

/-- The units of a string after its opening mark. -/
def readUnits : List Char → Option (JsString × List Char)
  | [] => none
  | c :: rest =>
    if c = quotationMark then some ([], rest)
    else if c = backslash then
      match rest with
      | [] => none
      | e :: rest =>
        if e = 'u' then
          match rest with
          | x :: y :: z :: w :: rest => do
            let (n, _) ← readHex [x, y, z, w]
            let (units, rest) ← readUnits rest
            return (UInt16.ofNat n :: units, rest)
          | _ => none
        else do
          let u ← escapeValue e
          let (units, rest) ← readUnits rest
          return (u :: units, rest)
    else if c.toNat < 32 then none
    else do
      let (units, rest) ← readUnits rest
      return (unitsOf c ++ units, rest)

/-- Where an object lists a key: array indices come first. -/
def rank (key : JsString) : ℕ :=
  (CanonicalJson.arrayIndex (String.ofList (key.map fun u => Char.ofNat u.toNat))).getD 4294967295

/-- A property that is there keeps its place; the keys are listed in property order. -/
def ownProperties {α : Type} (members : List (JsString × α)) : List (JsString × α) :=
  (members.foldl (fun record m => record.set m.1 m.2) (KeyedMap.empty : KeyedMap JsString α)).entries.insertionSort
    fun a b => rank a.1 ≤ rank b.1

/-- A member of an object, from the opening mark of its key on. -/
def readMember (readValue : Reader Char Value) : Reader Char (JsString × Value)
  | [] => none
  | c :: rest =>
    if c = quotationMark then do
      let (key, rest) ← readUnits rest
      if (skipSpace rest).head? = some ':' then
        let (value, rest) ← readValue (skipSpace (skipSpace rest).tail)
        return ((key, value), rest)
      else none
    else none

section Reader

-- the number that a run of number characters denotes, where they are a JSON number
variable (readNumber : List Char → Option JsNumber)

/-- A value and what follows it; the fuel bounds the nesting and the items. -/
def readValue : ℕ → Reader Char Value
  | 0, _ => none
  | _ + 1, [] => none
  | fuel + 1, c :: rest =>
    if c = quotationMark then (readUnits rest).map fun read => (.string read.1, read.2)
    else if c = '[' then
      if (skipSpace rest).head? = some ']' then some (.array [], (skipSpace rest).tail)
      else (items skipSpace ',' ']' (fun text => readValue fuel (skipSpace text)) fuel rest).map
        fun read => (.array read.1, read.2)
    else if c = '\x7b' then
      if (skipSpace rest).head? = some '\x7d' then some (.object [], (skipSpace rest).tail)
      else (items skipSpace ',' '\x7d' (fun text => readMember (readValue fuel) (skipSpace text)) fuel rest).map
        fun read => (.object (ownProperties read.1), read.2)
    else if c = 'n' then
      ("ull".toList.isPrefixOf? rest).map fun rest => (.null, rest)
    else if c = 't' then
      ("rue".toList.isPrefixOf? rest).map fun rest => (.bool true, rest)
    else if c = 'f' then
      ("alse".toList.isPrefixOf? rest).map fun rest => (.bool false, rest)
    else
      (readNumber ((c :: rest).takeWhile isNumberChar)).map fun n =>
        (.number n, (c :: rest).dropWhile isNumberChar)

/-- `JSON.parse`, `none` where it throws. -/
def parse (text : List Char) : Option Value :=
  match readValue readNumber text.length (skipSpace text) with
  | some (value, rest) => if skipSpace rest = [] then some value else none
  | none => none

end Reader

/-! ## Strings -/

theorem readUnits_mark (rest : List Char) : readUnits (quotationMark :: rest) = some ([], rest) := by
  rw [readUnits.eq_def]
  exact if_pos rfl

theorem readUnits_plain {c : Char} (hmark : c ≠ quotationMark) (hslash : c ≠ backslash) (hc : 32 ≤ c.toNat)
    (rest : List Char) :
    readUnits (c :: rest) = (readUnits rest).map fun read => (unitsOf c ++ read.1, read.2) := by
  rw [readUnits.eq_def]
  dsimp only
  rw [if_neg hmark, if_neg hslash, if_neg (not_lt.mpr hc)]
  cases readUnits rest <;> rfl

theorem readUnits_escape {e : Char} {u : UInt16} (he : escapeValue e = some u) (rest : List Char) :
    readUnits (backslash :: e :: rest) = (readUnits rest).map fun read => (u :: read.1, read.2) := by
  have hne : e ≠ 'u' := by
    rintro rfl
    cases he
  rw [readUnits.eq_def]
  dsimp only
  rw [if_neg (by decide), if_pos rfl, if_neg hne, he]
  cases readUnits rest <;> rfl

theorem readUnits_hex {x y z w : Char} {n : ℕ} (h : readHex [x, y, z, w] = some (n, [])) (rest : List Char) :
    readUnits (backslash :: 'u' :: x :: y :: z :: w :: rest) =
      (readUnits rest).map fun read => (UInt16.ofNat n :: read.1, read.2) := by
  rw [readUnits.eq_def]
  dsimp only
  rw [if_neg (by decide), if_pos rfl, if_pos rfl, h]
  cases readUnits rest <;> rfl

theorem readHex_four {x y z w : Char} {n : ℕ} {rest : List Char} (h : readHex [x, y, z, w] = some (n, rest)) :
    rest = [] := by
  simp only [readHex, Option.pure_def, Option.bind_eq_bind, Option.bind_eq_some_iff, Option.some.injEq,
    Prod.mk.injEq] at h
  obtain ⟨-, -, -, -, -, -, -, -, -, h⟩ := h
  exact h.symm

theorem readUnits_append {text rest : List Char} {s : JsString} (h : readUnits text = some (s, rest))
    (more : List Char) : readUnits (text ++ more) = some (s, rest ++ more) := by
  fun_induction readUnits text generalizing s with
  | case1 => cases h
  | case2 rest' =>
    cases h
    exact readUnits_mark _
  | case3 => cases h
  | case4 x y z w rest' hmark ih =>
    simp only [Option.bind_eq_bind, Option.bind_eq_some_iff, Prod.exists] at h
    obtain ⟨n, after, hhex, units, last, hunits, h⟩ := h
    cases h
    obtain rfl := readHex_four hhex
    simp only [List.cons_append, readUnits_hex hhex, ih hunits, Option.map_some]
  | case5 => cases h
  | case6 e rest' he hmark ih =>
    simp only [Option.bind_eq_bind, Option.bind_eq_some_iff, Prod.exists] at h
    obtain ⟨u, hu, units, last, hunits, h⟩ := h
    cases h
    simp only [List.cons_append, readUnits_escape hu, ih hunits, Option.map_some]
  | case7 => cases h
  | case8 c rest' hmark hslash hplain ih =>
    simp only [Option.bind_eq_bind, Option.bind_eq_some_iff, Prod.exists] at h
    obtain ⟨units, last, hunits, h⟩ := h
    cases h
    simp only [List.cons_append, readUnits_plain hmark hslash (not_lt.mp hplain), ih hunits, Option.map_some]

theorem hexDigitValue_hexDigit {n : ℕ} (h : n < 16) : JsonParse.hexDigitValue (hexDigit n) = some n := by
  interval_cases n <;> decide

theorem readHex_hexDigit {a b c d : ℕ} (ha : a < 16) (hb : b < 16) (hc : c < 16) (hd : d < 16) :
    readHex [hexDigit a, hexDigit b, hexDigit c, hexDigit d] = some (16 * (16 * (16 * a + b) + c) + d, []) := by
  simp only [readHex, hexDigitValue_hexDigit, ha, hb, hc, hd]
  rfl

theorem unitsOf_eq {c : Char} (h : c.toNat < 65536) : unitsOf c = [UInt16.ofNat c.toNat] := by
  rw [unitsOf, CanonicalJson.codeUnits, if_pos h, List.map_singleton]

theorem unitsOf_pairChar {high low : UInt16} (hhigh : isHigh high = true) (hlow : isLow low = true) :
    unitsOf (pairChar high low) = [high, low] := by
  have hnat := StreamRoundTrip.toNat_pairChar hhigh hlow
  simp only [isHigh, isLow, Bool.and_eq_true, decide_eq_true_eq] at hhigh hlow
  have hfirst : 55296 + ((pairChar high low).toNat - 65536) / 1024 = high.toNat := by omega
  have hsecond : 56320 + ((pairChar high low).toNat - 65536) % 1024 = low.toNat := by omega
  rw [unitsOf, CanonicalJson.codeUnits, if_neg (by omega), hfirst, hsecond]
  simp

theorem readUnits_escapeChar {c : Char} (hc : c.toNat < 65536) (rest : List Char) :
    readUnits (escapeChar c ++ rest) =
      (readUnits rest).map fun read => (UInt16.ofNat c.toNat :: read.1, read.2) := by
  unfold escapeChar
  split_ifs with hmark hslash h8 h9 h10 h12 h13 hcontrol
  · subst hmark
    exact readUnits_escape rfl rest
  · subst hslash
    exact readUnits_escape rfl rest
  · rw [h8]
    exact readUnits_escape rfl rest
  · rw [h9]
    exact readUnits_escape rfl rest
  · rw [h10]
    exact readUnits_escape rfl rest
  · rw [h12]
    exact readUnits_escape rfl rest
  · rw [h13]
    exact readUnits_escape rfl rest
  · have hhex := readHex_hexDigit (a := 0) (b := 0) (c := c.toNat / 16) (d := c.toNat % 16)
      (by omega) (by omega) (by omega) (by omega)
    have hn : 16 * (16 * (16 * 0 + 0) + c.toNat / 16) + c.toNat % 16 = c.toNat := by omega
    rw [hn] at hhex
    exact readUnits_hex hhex rest
  · rw [List.singleton_append, readUnits_plain hmark hslash (not_lt.mp hcontrol), unitsOf_eq hc]
    rfl

theorem toNat_ofNat_of_not_surrogate {u : UInt16} (h : ¬ (isHigh u || isLow u) = true) :
    (Char.ofNat u.toNat).toNat = u.toNat := by
  have hu : u.toNat < 65536 := u.toNat_lt
  have hvalid : u.toNat.isValidChar := by
    simp only [isHigh, isLow, Bool.or_eq_true, Bool.and_eq_true, decide_eq_true_eq] at h
    unfold Nat.isValidChar
    omega
  rw [Char.ofNat, dif_pos hvalid]
  rfl

theorem readUnits_escapeUnit (u : UInt16) (rest : List Char) :
    readUnits (escapeUnit u ++ rest) = (readUnits rest).map fun read => (u :: read.1, read.2) := by
  have hu : u.toNat < 65536 := u.toNat_lt
  unfold escapeUnit
  split
  · have hhex := readHex_hexDigit (a := u.toNat / 4096) (b := u.toNat / 256 % 16) (c := u.toNat / 16 % 16)
      (d := u.toNat % 16) (by omega) (by omega) (by omega) (by omega)
    have hn : 16 * (16 * (16 * (u.toNat / 4096) + u.toNat / 256 % 16) + u.toNat / 16 % 16) + u.toNat % 16 =
        u.toNat := by omega
    rw [hn] at hhex
    exact (readUnits_hex hhex rest).trans (by rw [UInt16.ofNat_toNat])
  · rename_i hsurrogate
    have hnat := toNat_ofNat_of_not_surrogate hsurrogate
    have hlt : (Char.ofNat u.toNat).toNat < 65536 := hnat.trans_lt hu
    rw [readUnits_escapeChar hlt, hnat, UInt16.ofNat_toNat]

theorem readUnits_pairChar {high low : UInt16} (hhigh : isHigh high = true) (hlow : isLow low = true)
    (rest : List Char) : readUnits (pairChar high low :: rest) =
      (readUnits rest).map fun read => (high :: low :: read.1, read.2) := by
  have hnat := StreamRoundTrip.toNat_pairChar hhigh hlow
  have hne : ∀ c : Char, c.toNat < 65536 → pairChar high low ≠ c := by
    rintro c hc rfl
    omega
  rw [readUnits_plain (hne _ (by decide)) (hne _ (by decide)) (by omega), unitsOf_pairChar hhigh hlow]
  rfl

/-- A string's text is read back as the string, surrogates in no pair included. -/
theorem readUnits_escapeUnits (s : JsString) (more : List Char) :
    readUnits (escapeUnits s ++ quotationMark :: more) = some (s, more) := by
  induction s using escapeUnits.induct with
  | case1 => exact readUnits_mark more
  | case2 u =>
    rw [escapeUnits, readUnits_escapeUnit, readUnits_mark]
    rfl
  | case3 u v rest hpair ih =>
    rw [escapeUnits, if_pos hpair, List.cons_append]
    rw [Bool.and_eq_true] at hpair
    rw [readUnits_pairChar hpair.1 hpair.2, ih]
    rfl
  | case4 u v rest hpair ih =>
    rw [escapeUnits, if_neg hpair, List.append_assoc, readUnits_escapeUnit, ih]
    rfl

/-! ## Blanks -/

theorem dropWhile_append_of_ne_nil {p : Char → Bool} {text : List Char} (h : text.dropWhile p ≠ [])
    (more : List Char) : (text ++ more).dropWhile p = text.dropWhile p ++ more := by
  rw [List.dropWhile_append, if_neg fun hempty => h (List.isEmpty_iff.mp hempty)]

theorem skipSpace_append (text more : List Char) (h : skipSpace text ≠ []) :
    skipSpace (text ++ more) = skipSpace text ++ more := dropWhile_append_of_ne_nil h more

theorem skipSpace_head {text : List Char} {c : Char} (h : (skipSpace text).head? = some c) (more : List Char) :
    (skipSpace (text ++ more)).head? = some c ∧ (skipSpace (text ++ more)).tail = (skipSpace text).tail ++ more := by
  obtain ⟨rest, hrest⟩ := List.head?_eq_some_iff.mp h
  rw [skipSpace_append text more (by simp [hrest]), hrest]
  exact ⟨rfl, rfl⟩

theorem skipSpace_head_ne {text : List Char} {c : Char} (hne : skipSpace text ≠ [])
    (h : (skipSpace text).head? ≠ some c) (more : List Char) : (skipSpace (text ++ more)).head? ≠ some c := by
  rwa [skipSpace_append text more hne, List.head?_append_of_ne_nil _ hne]

/-! ## More text behind a value -/

theorem readMember_extends {one one' : Reader Char Value} (h : Extends one one') (hnone : one [] = none) :
    Extends (readMember one) (readMember one') := by
  intro text member rest more hread hrest
  cases text with
  | nil => cases hread
  | cons c text =>
    rw [readMember] at hread
    rw [List.cons_append, readMember]
    split at hread
    · rename_i hmark
      rw [if_pos hmark]
      simp only [Option.bind_eq_bind, Option.bind_eq_some_iff, Prod.exists] at hread ⊢
      obtain ⟨key, after, hkey, hread⟩ := hread
      refine ⟨key, after ++ more, readUnits_append hkey more, ?_⟩
      split at hread
      · rename_i hcolon
        obtain ⟨hhead, htail⟩ := skipSpace_head hcolon more
        simp only [Option.bind_eq_some_iff, Prod.exists] at hread
        obtain ⟨value, last, hvalue, hread⟩ := hread
        cases hread
        have hskip : Extends (fun text => one (skipSpace text)) fun text => one' (skipSpace text) :=
          h.skip hnone skipSpace_append
        have hvalue' := hskip _ value rest more hvalue hrest
        dsimp only at hvalue'
        rw [if_pos hhead, htail, hvalue']
        rfl
      · cases hread
    · cases hread

/-! ## What can be read back -/

/-- The keys of an object, as it lists them. -/
def Listed (keys : List JsString) : Prop := keys.Nodup ∧ keys.Pairwise fun a b => rank a ≤ rank b

instance (keys : List JsString) : Decidable (Listed keys) :=
  inferInstanceAs (Decidable (keys.Nodup ∧ keys.Pairwise fun a b => rank a ≤ rank b))

theorem ownProperties_of_listed {α : Type} {members : List (JsString × α)} (h : Listed (members.map Prod.fst)) :
    ownProperties members = members := by
  have hentries := KeyedMap.entries_foldl_set members KeyedMap.empty
    (by simpa [KeyedMap.keys, KeyedMap.empty] using h.1)
  rw [ownProperties, hentries]
  exact (List.pairwise_map.mp h.2).insertionSort_eq

/-- A value that `JSON.parse` reads back: its numbers are read, and its objects list
their keys in property order. -/
inductive Parsed (readNumber : List Char → Option JsNumber) : Value → Prop
  | null : Parsed readNumber .null
  | bool (b : Bool) : Parsed readNumber (.bool b)
  | number {n : JsNumber} (hn : readNumber n.chars = some n) : Parsed readNumber (.number n)
  | string (s : JsString) : Parsed readNumber (.string s)
  | array {values : List Value} (hvalues : ∀ v ∈ values, Parsed readNumber v) : Parsed readNumber (.array values)
  | object {members : List (JsString × Value)} (hkeys : Listed (members.map Prod.fst))
      (hmembers : ∀ m ∈ members, Parsed readNumber m.2) : Parsed readNumber (.object members)

theorem stringifyItems_eq_map (values : List Value) : stringifyItems values = values.map stringify := by
  induction values with
  | nil => rfl
  | cons v values ih => rw [stringifyItems, ih, List.map_cons]

def memberText (m : JsString × Value) : List Char := quote m.1 ++ ':' :: stringify m.2

theorem stringifyMembers_eq_map (members : List (JsString × Value)) :
    stringifyMembers members = members.map memberText := by
  induction members with
  | nil => rfl
  | cons m members ih => rw [stringifyMembers, ih, List.map_cons, memberText]

/-- A value's text starts with none of the characters that end, join or space values. -/
theorem stringify_head (v : Value) : ∃ c rest, stringify v = c :: rest ∧ JsonText.kindOfHead c ≠ 6 := by
  cases v with
  | null => exact ⟨'n', _, rfl, by decide⟩
  | bool b => cases b <;> exact ⟨_, _, rfl, by decide⟩
  | number n =>
    obtain ⟨c, rest, hn⟩ := List.exists_cons_of_ne_nil n.nonempty
    have hkind := JsonText.kindOfHead_of_numeric (n.numeric c (by rw [hn]; exact List.mem_cons_self))
    refine ⟨c, rest, ?_, by rw [hkind]; decide⟩
    rw [stringify, hn]
  | string s => exact ⟨quotationMark, _, by rw [stringify, quote], by decide⟩
  | array values => exact ⟨'[', _, by rw [stringify], by decide⟩
  | object members => exact ⟨'\x7b', _, by rw [stringify], by decide⟩

theorem skipSpace_stringify (v : Value) (more : List Char) :
    skipSpace (stringify v ++ more) = stringify v ++ more := by
  obtain ⟨c, rest, hv, hkind⟩ := stringify_head v
  rw [hv, List.cons_append]
  exact JsonParse.skipSpace_cons (fun hspace => hkind (JsonParse.kind_of_space hspace)) _

theorem head?_stringify_ne {c : Char} (hc : JsonText.kindOfHead c = 6) (v : Value) (more : List Char) :
    (stringify v ++ more).head? ≠ some c := by
  obtain ⟨d, rest, hv, hkind⟩ := stringify_head v
  rw [hv, List.cons_append, List.head?_cons]
  rintro ⟨⟩
  exact hkind hc

theorem length_intercalate (texts : List (List Char)) : texts.length ≤ ([','].intercalate texts).length + 1 ∧
    ∀ text ∈ texts, text.length ≤ ([','].intercalate texts).length := by
  induction texts with
  | nil => simp
  | cons text texts ih =>
    have hcons := JsonParse.length_intercalate_cons text texts
    by_cases hnil : texts = []
    · simp [hnil]
    · rw [if_neg hnil] at hcons
      rw [hcons, List.length_cons]
      refine ⟨by omega, List.forall_mem_cons.mpr ⟨by omega, fun other hother => ?_⟩⟩
      have hle := ih.2 other hother
      omega

section Reader

variable {readNumber : List Char → Option JsNumber}

theorem readValue_nil (fuel : ℕ) : readValue readNumber fuel [] = none := by
  cases fuel <;> rfl

theorem isPrefixOf?_append {word text rest : List Char} (h : word.isPrefixOf? text = some rest)
    (more : List Char) : word.isPrefixOf? (text ++ more) = some (rest ++ more) := by
  rw [List.isPrefixOf?_eq_some_iff_append_eq] at h ⊢
  rw [← h, List.append_assoc]

theorem numberChars_stop {text : List Char} (h : text.dropWhile isNumberChar ≠ []) (more : List Char) :
    (text ++ more).takeWhile isNumberChar = text.takeWhile isNumberChar ∧
      (text ++ more).dropWhile isNumberChar = text.dropWhile isNumberChar ++ more := by
  have hdrop := dropWhile_append_of_ne_nil h more
  refine ⟨?_, hdrop⟩
  have hsplit := List.takeWhile_append_dropWhile (p := isNumberChar) (l := text ++ more)
  rw [hdrop, ← List.append_assoc] at hsplit
  have htext := List.append_cancel_right hsplit
  exact List.append_cancel_right (htext.trans List.takeWhile_append_dropWhile.symm)

/-- What was read stays read with more fuel and more text behind; only a number must
not end the text. -/
theorem readValue_append {fuel fuel' : ℕ} (hfuel : fuel ≤ fuel') {text rest : List Char} {v : Value}
    (h : readValue readNumber fuel text = some (v, rest)) (hstop : rest ≠ [] ∨ ∀ n, v ≠ .number n)
    (more : List Char) : readValue readNumber fuel' (text ++ more) = some (v, rest ++ more) := by
  induction fuel generalizing fuel' text rest v more with
  | zero => cases h
  | succ fuel ih =>
    obtain ⟨fuel', rfl⟩ : ∃ f, fuel' = f + 1 := ⟨fuel' - 1, by omega⟩
    have hle := Nat.le_of_succ_le_succ hfuel
    have hextends : Extends (readValue readNumber fuel) (readValue readNumber fuel') :=
      fun text v rest more h hrest => ih hle h (.inl hrest) more
    have hword : ∀ (word text : List Char) (w : Value), (word.isPrefixOf? text).map (fun rest => (w, rest)) = some (v, rest) →
        (word.isPrefixOf? (text ++ more)).map (fun rest => (w, rest)) = some (v, rest ++ more) := by
      intro word text w hread
      obtain ⟨after, hprefix, hread⟩ := Option.map_eq_some_iff.mp hread
      cases hread
      rw [isPrefixOf?_append hprefix more]
      rfl
    cases text with
    | nil => cases h
    | cons c text =>
      rw [readValue] at h
      rw [List.cons_append, readValue]
      split_ifs at h with hmark harray hclose hobject hclose hn ht hf
      · obtain ⟨⟨s, after⟩, hunits, hread⟩ := Option.map_eq_some_iff.mp h
        cases hread
        rw [if_pos hmark, readUnits_append hunits more]
        rfl
      · obtain ⟨hhead, htail⟩ := skipSpace_head hclose more
        cases h
        rw [if_neg hmark, if_pos harray, if_pos hhead, htail]
      · obtain ⟨⟨values, after⟩, hitems, hread⟩ := Option.map_eq_some_iff.mp h
        cases hread
        have hvalue := hextends.skip (readValue_nil fuel) skipSpace_append
        have hmore := ItemReader.items_append hvalue skipSpace_append rfl hle hitems more
        have hstart := ItemReader.start_ne_nil (readValue_nil fuel) hitems
        rw [if_neg hmark, if_pos harray, if_neg (skipSpace_head_ne hstart hclose more), hmore]
        rfl
      · obtain ⟨hhead, htail⟩ := skipSpace_head hclose more
        cases h
        rw [if_neg hmark, if_neg harray, if_pos hobject, if_pos hhead, htail]
      · obtain ⟨⟨members, after⟩, hitems, hread⟩ := Option.map_eq_some_iff.mp h
        cases hread
        have hmember := (readMember_extends hextends (readValue_nil fuel)).skip rfl skipSpace_append
        have hmore := ItemReader.items_append hmember skipSpace_append rfl hle hitems more
        have hstart := ItemReader.start_ne_nil rfl hitems
        rw [if_neg hmark, if_neg harray, if_pos hobject, if_neg (skipSpace_head_ne hstart hclose more), hmore]
        rfl
      · rw [if_neg hmark, if_neg harray, if_neg hobject, if_pos hn]
        exact hword _ _ _ h
      · rw [if_neg hmark, if_neg harray, if_neg hobject, if_neg hn, if_pos ht]
        exact hword _ _ _ h
      · rw [if_neg hmark, if_neg harray, if_neg hobject, if_neg hn, if_neg ht, if_pos hf]
        exact hword _ _ _ h
      · obtain ⟨n, hnumber, hread⟩ := Option.map_eq_some_iff.mp h
        cases hread
        have hrest : (c :: text).dropWhile isNumberChar ≠ [] := hstop.resolve_right fun hne => hne n rfl
        rw [if_neg hmark, if_neg harray, if_neg hobject, if_neg hn, if_neg ht, if_neg hf, ← List.cons_append,
          (numberChars_stop hrest more).1, (numberChars_stop hrest more).2, hnumber]
        rfl

theorem delimited_nil : Delimited [] := nofun

theorem delimited_cons {c : Char} (h : c = ',' ∨ c = ']' ∨ c = '\x7d') (more : List Char) : Delimited (c :: more) := by
  rintro d ⟨⟩
  exact h

theorem items_texts {α : Type} {write : α → List Char} {one : Reader Char α} {as : List α} {close : Char} {fuel : ℕ}
    (hclose : close ≠ ',' ∧ close ∉ JsonParse.spaces) (hne : as ≠ [])
    (hfuel : ([','].intercalate (as.map write)).length < fuel)
    (hread : ∀ a ∈ as, (write a).length < fuel → ∀ c more, c = ',' ∨ c = close →
      one (write a ++ c :: more) = some (a, c :: more)) (more : List Char) :
    items skipSpace ',' close one fuel ([','].intercalate (as.map write) ++ close :: more) = some (as, more) := by
  obtain ⟨hcount, hlength⟩ := length_intercalate (as.map write)
  rw [List.length_map] at hcount
  refine ItemReader.items_intercalate (by omega) hne hclose.1.symm (JsonParse.skipSpace_cons (by decide))
    (JsonParse.skipSpace_cons hclose.2) (fun a ha => hread a ha ?_) more
  exact (hlength (write a) (List.mem_map_of_mem ha)).trans_lt hfuel

theorem readValue_array {values : List Value} {fuel : ℕ} (hfuel : (stringify (.array values)).length ≤ fuel + 1)
    (hread : ∀ v ∈ values, (stringify v).length ≤ fuel → ∀ more, Delimited more →
      readValue readNumber fuel (stringify v ++ more) = some (v, more)) (more : List Char) :
    readValue readNumber (fuel + 1) (stringify (.array values) ++ more) = some (.array values, more) := by
  cases values with
  | nil => rfl
  | cons v values =>
    rw [stringify, stringifyItems_eq_map, List.length_cons, List.length_append, List.length_singleton] at hfuel
    have hone : ∀ w ∈ v :: values, (stringify w).length < fuel → ∀ c rest, c = ',' ∨ c = ']' →
        readValue readNumber fuel (skipSpace (stringify w ++ c :: rest)) = some (w, c :: rest) := by
      intro w hw hlt c rest hc
      rw [skipSpace_stringify]
      exact hread w hw hlt.le _ (delimited_cons (hc.imp_right .inl) rest)
    have hitems : items skipSpace ',' ']' (fun text => readValue readNumber fuel (skipSpace text)) fuel
        ([','].intercalate ((v :: values).map stringify) ++ ']' :: more) = some (v :: values, more) := by
      refine items_texts (by decide) (List.cons_ne_nil v values) (by omega) ?_ more
      exact hone
    have hopen : (skipSpace ([','].intercalate ((v :: values).map stringify) ++ ']' :: more)).head? ≠ some ']' := by
      rw [List.map_cons, JsonText.intercalate_cons, skipSpace_stringify]
      exact head?_stringify_ne (by decide) v _
    rw [stringify, stringifyItems_eq_map, List.cons_append, List.append_assoc, List.singleton_append, readValue,
      if_neg (by decide), if_pos rfl, if_neg hopen, hitems]
    rfl

theorem readMember_text {one : Reader Char Value} {m : JsString × Value} {more : List Char}
    (h : one (stringify m.2 ++ more) = some (m.2, more)) :
    readMember one (skipSpace (memberText m ++ more)) = some (m, more) := by
  rw [memberText, List.append_assoc, quote, List.cons_append, JsonParse.skipSpace_cons (by decide), readMember,
    if_pos rfl, List.append_assoc, List.singleton_append, readUnits_escapeUnits]
  simp only [Option.bind_eq_bind, Option.bind_some]
  rw [List.cons_append, JsonParse.skipSpace_cons (by decide), List.head?_cons, if_pos rfl, List.tail_cons,
    skipSpace_stringify, h]
  rfl

/-- An object is read back where its members are, and its keys are listed in order. -/
theorem readValue_object {members : List (JsString × Value)} {fuel : ℕ}
    (hfuel : (stringify (.object members)).length ≤ fuel + 1) (hkeys : Listed (members.map Prod.fst))
    (hread : ∀ m ∈ members, (stringify m.2).length ≤ fuel → ∀ more, Delimited more →
      readValue readNumber fuel (stringify m.2 ++ more) = some (m.2, more)) (more : List Char) :
    readValue readNumber (fuel + 1) (stringify (.object members) ++ more) = some (.object members, more) := by
  cases members with
  | nil => rfl
  | cons m members =>
    rw [stringify, stringifyMembers_eq_map, List.length_cons, List.length_append, List.length_singleton] at hfuel
    have hone : ∀ m' ∈ m :: members, (memberText m').length < fuel → ∀ c rest, c = ',' ∨ c = '\x7d' →
        readMember (readValue readNumber fuel) (skipSpace (memberText m' ++ c :: rest)) = some (m', c :: rest) := by
      intro m' hm' hlt c rest hc
      rw [memberText, List.length_append, List.length_cons] at hlt
      exact readMember_text (hread m' hm' (by omega) _ (delimited_cons (hc.imp_right .inr) rest))
    have hitems : items skipSpace ',' '\x7d' (fun text => readMember (readValue readNumber fuel) (skipSpace text)) fuel
        ([','].intercalate ((m :: members).map memberText) ++ '\x7d' :: more) = some (m :: members, more) := by
      refine items_texts (by decide) (List.cons_ne_nil m members) (by omega) ?_ more
      exact hone
    have hopen : (skipSpace ([','].intercalate ((m :: members).map memberText) ++ '\x7d' :: more)).head? ≠
        some '\x7d' := by
      rw [List.map_cons, JsonText.intercalate_cons, memberText, quote, List.append_assoc, List.cons_append,
        JsonParse.skipSpace_cons (by decide)]
      simp [quotationMark]
    rw [stringify, stringifyMembers_eq_map, List.cons_append, List.append_assoc, List.singleton_append, readValue,
      if_neg (by decide), if_neg (by decide), if_pos rfl, if_neg hopen, hitems, Option.map_some,
      ownProperties_of_listed hkeys]

theorem exists_fuel {v : Value} {fuel : ℕ} (h : (stringify v).length ≤ fuel) : ∃ f, fuel = f + 1 := by
  obtain ⟨c, rest, hhead, -⟩ := stringify_head v
  rw [hhead, List.length_cons] at h
  exact ⟨fuel - 1, by omega⟩

theorem readValue_stringify {v : Value} (hv : Parsed readNumber v) {fuel : ℕ}
    (hfuel : (stringify v).length ≤ fuel) {more : List Char} (hmore : Delimited more) :
    readValue readNumber fuel (stringify v ++ more) = some (v, more) := by
  induction hv generalizing fuel more with
  | null =>
    obtain ⟨fuel, rfl⟩ := exists_fuel hfuel
    rfl
  | bool b =>
    obtain ⟨fuel, rfl⟩ := exists_fuel hfuel
    cases b <;> rfl
  | @number n hn =>
    obtain ⟨fuel, rfl⟩ := exists_fuel hfuel
    obtain ⟨c, rest, hchars⟩ := List.exists_cons_of_ne_nil n.nonempty
    have hnumeric : isNumeric c = true := n.numeric c (hchars ▸ List.mem_cons_self)
    have hne : ∀ d, isNumeric d = false → c ≠ d := by
      rintro d hd rfl
      rw [hnumeric] at hd
      cases hd
    obtain ⟨htake, hdrop⟩ := JsonParse.numberChars_append n.numeric hmore
    rw [hchars, List.cons_append] at htake hdrop
    rw [stringify, hchars, List.cons_append, readValue, if_neg (hne _ (by decide)),
      if_neg (hne _ (by decide)), if_neg (hne _ (by decide)), if_neg (hne _ (by decide)),
      if_neg (hne _ (by decide)), if_neg (hne _ (by decide)), htake, hdrop, ← hchars, hn]
    rfl
  | string s =>
    obtain ⟨fuel, rfl⟩ := exists_fuel hfuel
    rw [stringify, quote, List.cons_append, readValue, if_pos rfl, List.append_assoc, List.singleton_append,
      readUnits_escapeUnits]
    rfl
  | array hvalues ih =>
    obtain ⟨fuel, rfl⟩ := exists_fuel hfuel
    exact readValue_array hfuel (fun v hv hle more hmore => ih v hv hle hmore) more
  | object hkeys hmembers ih =>
    obtain ⟨fuel, rfl⟩ := exists_fuel hfuel
    exact readValue_object hfuel hkeys (fun m hm hle more hmore => ih m hm hle hmore) more

/-- `JSON.parse` undoes `JSON.stringify`. -/
theorem parse_stringify {v : Value} (hv : Parsed readNumber v) : parse readNumber (stringify v) = some v := by
  have hspace := skipSpace_stringify v []
  have hread := readValue_stringify hv le_rfl delimited_nil
  rw [List.append_nil] at hspace hread
  rw [parse, hspace, hread]
  rfl

/-- The parser that the client of the event stream relies on. -/
theorem readable {v : Value} (hv : Parsed readNumber v) (hobject : ∃ members, v = .object members)
    (herror : errorMessage v = []) : StreamRoundTrip.Readable (parse readNumber) v :=
  ⟨hobject, parse_stringify hv, herror⟩

theorem readValue_brace {fuel : ℕ} {text rest : List Char} {v : Value}
    (h : readValue readNumber fuel ('\x7b' :: text) = some (v, rest)) : ∃ members, v = .object members := by
  cases fuel with
  | zero => cases h
  | succ fuel =>
    rw [readValue, if_neg (by decide), if_neg (by decide), if_pos rfl] at h
    split at h
    · cases h
      exact ⟨[], rfl⟩
    · obtain ⟨read, -, hread⟩ := Option.map_eq_some_iff.mp h
      cases hread
      exact ⟨_, rfl⟩

/-- A text that stops inside an object is not read. -/
theorem parse_prefix {members : List (JsString × Value)} (hv : Parsed readNumber (.object members))
    {front : List Char} (hfront : front <+: stringify (.object members))
    (hne : front ≠ stringify (.object members)) : parse readNumber front = none := by
  obtain ⟨more, hmore⟩ := hfront
  cases front with
  | nil => rfl
  | cons c front =>
    have hc : c = '\x7b' := by
      rw [stringify] at hmore
      exact (List.cons.inj hmore).1
    subst hc
    rw [parse, JsonParse.skipSpace_cons (by decide)]
    split
    · rename_i v rest hread
      obtain ⟨_, rfl⟩ := readValue_brace hread
      have hle : ('\x7b' :: front).length ≤ (stringify (.object members)).length := by
        rw [← hmore, List.length_append]
        omega
      have hlong := readValue_append hle hread (.inr nofun) more
      have hwhole := readValue_stringify hv le_rfl delimited_nil
      rw [hmore] at hlong
      rw [List.append_nil, hlong] at hwhole
      have hnil := (List.append_eq_nil_iff.mp (congrArg Prod.snd (Option.some.inj hwhole))).2
      exact absurd (by rw [← hmore, hnil, List.append_nil]) hne
    · rfl

end Reader

end ModelForge.ValueParse
