import ModelForge.CanonicalJson
import ModelForge.KeyedMap

set_option autoImplicit false

/-!
# JSON.parse

A JSON text is read by recursive descent. The text of a value is read back as the
value, with the members of its objects listed as an object lists its keys.
-/
namespace ModelForge.JsonParse
open JsonText JsonMembers CanonicalJson

/-! ## The reader -/

/-- Tab, line feed, carriage return and space. -/
def spaces : List Char := [9, 10, 13, 32].map Char.ofNat

def skipSpace (cs : List Char) : List Char := cs.dropWhile fun c => c ∈ spaces

def hexDigitValue (c : Char) : Option ℕ :=
  if c.isDigit then some (c.toNat - 48)
  else if 97 ≤ c.toNat ∧ c.toNat ≤ 102 then some (c.toNat - 87)
  else if 65 ≤ c.toNat ∧ c.toNat ≤ 70 then some (c.toNat - 55)
  else none

/-- Four hexadecimal digits. -/
def readHex : List Char → Option (ℕ × List Char)
  | a :: b :: c :: d :: rest => do
    return (16 * (16 * (16 * (← hexDigitValue a) + (← hexDigitValue b)) + (← hexDigitValue c)) +
      (← hexDigitValue d), rest)
  | _ => none

/-- What follows `\u`: a code unit, or two that are a surrogate pair. A surrogate
by itself is no character. -/
def readUnicode (cs : List Char) : Option (Char × List Char) := do
  let (high, rest) ← readHex cs
  if high < 55296 ∨ 57343 < high then return (Char.ofNat high, rest)
  else if 56319 < high then none
  else if rest.take 2 = [backslash, 'u'] then
    let (low, rest) ← readHex (rest.drop 2)
    if 56319 < low ∧ low < 57344 then
      return (Char.ofNat (65536 + 1024 * (high - 55296) + (low - 56320)), rest)
    else none
  else none

/-- What follows a backslash. -/
def readEscape : List Char → Option (Char × List Char)
  | [] => none
  | c :: rest =>
    if c = 'u' then readUnicode rest
    else if c = 'b' then some (Char.ofNat 8, rest)
    else if c = 't' then some (Char.ofNat 9, rest)
    else if c = 'n' then some (Char.ofNat 10, rest)
    else if c = 'f' then some (Char.ofNat 12, rest)
    else if c = 'r' then some (Char.ofNat 13, rest)
    else if c = quotationMark ∨ c = backslash ∨ c = '/' then some (c, rest)
    else none

/-- The characters of a string after its opening mark; the fuel bounds them. -/
def readChars : ℕ → List Char → Option (List Char × List Char)
  | _, [] => none
  | 0, _ => none
  | fuel + 1, c :: rest =>
    if c = quotationMark then some ([], rest)
    else if c = backslash then do
      let (d, rest) ← readEscape rest
      let (ds, rest) ← readChars fuel rest
      return (d :: ds, rest)
    else if c.toNat < 32 then none
    else do
      let (ds, rest) ← readChars fuel rest
      return (c :: ds, rest)

/-- A string, from its opening mark on. -/
def readString : List Char → Option (String × List Char)
  | [] => none
  | c :: rest =>
    if c = quotationMark then
      (readChars (rest.length + 1) rest).map fun read => (String.ofList read.1, read.2)
    else none

/-- A property that is there keeps its place; the keys are listed in property order. -/
def ownProperties (members : List (String × Json)) : List (String × Json) :=
  propertyOrder.arrange
    (members.foldl (fun record m => record.set m.1 m.2) (KeyedMap.empty : KeyedMap String Json)).entries

def isNumberChar (c : Char) : Bool := isNumeric c || c = 'E'

section Reader

-- the number that a run of number characters denotes, where they are a JSON number
variable (readNumber : List Char → Option JsNumber)

mutual

/-- A value and what follows it; the fuel bounds the nesting and the items. -/
def readValue : ℕ → List Char → Option (Json × List Char)
  | 0, _ => none
  | _ + 1, [] => none
  | fuel + 1, c :: rest =>
    if c = quotationMark then
      (readString (c :: rest)).map fun read => (.string read.1, read.2)
    else if c = '[' then
      if (skipSpace rest).head? = some ']' then some (.array [], (skipSpace rest).tail)
      else (readItems fuel rest).map fun read => (.array read.1, read.2)
    else if c = '\x7b' then
      if (skipSpace rest).head? = some '\x7d' then some (.object [], (skipSpace rest).tail)
      else (readMembers fuel rest).map fun read => (.object (ownProperties read.1), read.2)
    else if c = 'n' then
      ("ull".toList.isPrefixOf? rest).map fun rest => (.null, rest)
    else if c = 't' then
      ("rue".toList.isPrefixOf? rest).map fun rest => (.bool true, rest)
    else if c = 'f' then
      ("alse".toList.isPrefixOf? rest).map fun rest => (.bool false, rest)
    else
      (readNumber ((c :: rest).takeWhile isNumberChar)).map fun n =>
        (.number n, (c :: rest).dropWhile isNumberChar)

/-- The items of an array, up to its end. -/
def readItems : ℕ → List Char → Option (List Json × List Char)
  | 0, _ => none
  | fuel + 1, cs => do
    let (value, rest) ← readValue fuel (skipSpace cs)
    match skipSpace rest with
    | [] => none
    | c :: rest =>
      if c = ']' then return ([value], rest)
      else if c = ',' then
        let (values, rest) ← readItems fuel rest
        return (value :: values, rest)
      else none

/-- The members of an object, up to its end. -/
def readMembers : ℕ → List Char → Option (List (String × Json) × List Char)
  | 0, _ => none
  | fuel + 1, cs => do
    let (key, rest) ← readString (skipSpace cs)
    if (skipSpace rest).head? = some ':' then
      let (value, rest) ← readValue fuel (skipSpace (skipSpace rest).tail)
      match skipSpace rest with
      | [] => none
      | c :: rest =>
        if c = '\x7d' then return ([(key, value)], rest)
        else if c = ',' then
          let (members, rest) ← readMembers fuel rest
          return ((key, value) :: members, rest)
        else none
    else none

end

/-- `JSON.parse`, `none` where it throws. -/
def parse (text : String) : Option Json :=
  match readValue readNumber text.length (skipSpace text.toList) with
  | some (value, rest) => if skipSpace rest = [] then some value else none
  | none => none

end Reader

/-! ## Strings -/

theorem readHex_append {cs rest : List Char} {n : ℕ} (h : readHex cs = some (n, rest)) (more : List Char) :
    readHex (cs ++ more) = some (n, rest ++ more) := by
  match cs, h with
  | a :: b :: c :: d :: rest', h =>
    simp only [readHex, Option.pure_def, Option.bind_eq_bind, Option.bind_eq_some_iff,
      Option.some.injEq, Prod.mk.injEq] at h
    obtain ⟨va, ha, vb, hb, vc, hc, vd, hd, rfl, rfl⟩ := h
    simp only [List.cons_append, readHex, ha, hb, hc, hd]
    rfl

theorem readUnicode_append {cs rest : List Char} {d : Char} (h : readUnicode cs = some (d, rest))
    (more : List Char) : readUnicode (cs ++ more) = some (d, rest ++ more) := by
  simp only [readUnicode, Option.bind_eq_bind, Option.bind_eq_some_iff, Prod.exists] at h ⊢
  obtain ⟨high, after, hhigh, h⟩ := h
  refine ⟨high, after ++ more, readHex_append hhigh more, ?_⟩
  split at h
  · rename_i hplain
    rw [if_pos hplain]
    simp only [Option.pure_def, Option.some.injEq, Prod.mk.injEq] at h ⊢
    exact ⟨h.1, by rw [h.2]⟩
  · rename_i hsurrogate
    rw [if_neg hsurrogate]
    split at h
    · cases h
    · rename_i hfirst
      rw [if_neg hfirst]
      split at h
      · rename_i hmark
        have hlength : 2 ≤ after.length := by
          have htake := congrArg List.length hmark
          rw [List.length_take] at htake
          simp only [List.length_cons, List.length_nil] at htake
          omega
        rw [List.take_append_of_le_length hlength, if_pos hmark, List.drop_append_of_le_length hlength]
        simp only [Option.bind_eq_some_iff, Prod.exists] at h ⊢
        obtain ⟨low, last, hlow, h⟩ := h
        refine ⟨low, last ++ more, readHex_append hlow more, ?_⟩
        split at h
        · rename_i hpair
          rw [if_pos hpair]
          simp only [Option.pure_def, Option.some.injEq, Prod.mk.injEq] at h ⊢
          exact ⟨h.1, by rw [h.2]⟩
        · cases h
      · cases h

theorem readEscape_append {cs rest : List Char} {d : Char} (h : readEscape cs = some (d, rest))
    (more : List Char) : readEscape (cs ++ more) = some (d, rest ++ more) := by
  cases cs with
  | nil => cases h
  | cons c cs =>
    rw [List.cons_append, readEscape]
    rw [readEscape] at h
    by_cases hu : c = 'u'
    · rw [if_pos hu] at h ⊢
      exact readUnicode_append h more
    · rw [if_neg hu] at h ⊢
      split_ifs at h ⊢ <;> cases h <;> rfl

set_option maxRecDepth 3000 in
theorem readEscape_all :
    (escapedChars.all fun c => readEscape (escapeChar c).tail = some (c, [])) = true := by
  decide +kernel

theorem readEscape_escapeChar {c : Char} (h : c ∈ escapedChars) (more : List Char) :
    readEscape ((escapeChar c).tail ++ more) = some (c, more) :=
  readEscape_append (of_decide_eq_true (List.all_eq_true.mp readEscape_all c h)) more

/-- The characters of a quoted string are read back, one at a time. -/
theorem readChars_quote (cs more : List Char) {fuel : ℕ} (hfuel : cs.length < fuel) :
    readChars fuel (cs.flatMap escapeChar ++ quotationMark :: more) = some (cs, more) := by
  induction cs generalizing fuel with
  | nil =>
    obtain ⟨fuel, rfl⟩ := Nat.exists_eq_succ_of_ne_zero (Nat.ne_zero_of_lt hfuel)
    rw [List.flatMap_nil, List.nil_append, readChars, if_pos rfl]
  | cons c cs ih =>
    obtain ⟨fuel, rfl⟩ := Nat.exists_eq_succ_of_ne_zero (Nat.ne_zero_of_lt hfuel)
    have hrest := ih (Nat.lt_of_succ_lt_succ hfuel)
    rw [List.flatMap_cons, List.append_assoc]
    by_cases hc : c ∈ escapedChars
    · obtain ⟨tail, htail⟩ : ∃ tail, escapeChar c = backslash :: tail :=
        List.head?_eq_some_iff.mp (escapeChar_shape hc).1
      have hread := readEscape_escapeChar hc (cs.flatMap escapeChar ++ quotationMark :: more)
      rw [htail, List.tail_cons] at hread
      rw [htail, List.cons_append, readChars, if_neg (by decide), if_pos rfl, hread]
      simp only [Option.bind_eq_bind, Option.bind_some, hrest]
      rfl
    · have hmark : c ≠ quotationMark := by
        rintro rfl
        exact hc (by decide)
      have hslash : c ≠ backslash := by
        rintro rfl
        exact hc (by decide)
      have hplain : ¬ c.toNat < 32 := by
        intro hlt
        refine hc (List.mem_cons_of_mem _ (List.mem_cons_of_mem _ ?_))
        exact List.mem_map.mpr ⟨c.toNat, List.mem_range.mpr hlt, Char.ofNat_toNat c⟩
      rw [escapeChar_of_notMem hc, List.singleton_append, readChars, if_neg hmark, if_neg hslash,
        if_neg hplain, hrest]
      rfl

theorem readString_quote (s : String) (more : List Char) :
    readString (quote s ++ more) = some (s, more) := by
  have hfuel : s.toList.length <
      (s.toList.flatMap escapeChar ++ [quotationMark] ++ more).length + 1 := by
    have hle : s.toList.length ≤ (s.toList.flatMap escapeChar).length := by
      rw [List.length_flatMap]
      refine List.length_le_sum_of_one_le _ ?_ |>.trans' (by rw [List.length_map])
      intro n hn
      obtain ⟨c, -, rfl⟩ := List.mem_map.mp hn
      exact List.length_pos_of_ne_nil (escapeChar_ne_nil c)
    simp only [List.length_append]
    omega
  rw [quote, List.cons_append, readString, if_pos rfl]
  rw [List.append_assoc, List.singleton_append] at hfuel ⊢
  rw [readChars_quote _ _ hfuel, Option.map_some, String.ofList_toList]

/-! ## Values -/

theorem skipSpace_cons {c : Char} (h : c ∉ spaces) (rest : List Char) :
    skipSpace (c :: rest) = c :: rest := by
  rw [skipSpace, List.dropWhile_cons_of_neg (by simpa using h)]

theorem kind_of_space {c : Char} (h : c ∈ spaces) : kindOfHead c = 6 := by
  simp only [spaces, List.map_cons, List.map_nil, List.mem_cons, List.not_mem_nil, or_false] at h
  rcases h with rfl | rfl | rfl | rfl <;> decide

/-- A value's text does not start with white space. -/
theorem skipSpace_render (t : Json) (more : List Char) :
    skipSpace (render t ++ more) = render t ++ more := by
  obtain ⟨c, rest, hrender, hkind⟩ := render_head t
  rw [hrender, List.cons_append]
  refine skipSpace_cons (fun hspace => ?_) _
  rw [kind_of_space hspace] at hkind
  cases t <;> cases hkind

theorem skipSpace_quote (s : String) (more : List Char) :
    skipSpace (quote s ++ more) = quote s ++ more := skipSpace_cons (by decide) _

theorem numberChars_append {chars : List Char} (h : ∀ c ∈ chars, isNumeric c = true) {more : List Char}
    (hmore : Delimited more) :
    (chars ++ more).takeWhile isNumberChar = chars ∧ (chars ++ more).dropWhile isNumberChar = more := by
  have hall : ∀ c ∈ chars, isNumberChar c = true := fun c hc => by
    rw [isNumberChar, h c hc, Bool.true_or]
  rw [List.takeWhile_append_of_pos hall, List.dropWhile_append_of_pos hall]
  cases more with
  | nil => simp
  | cons c rest =>
    have hstop : isNumberChar c = false := by
      rcases hmore c rfl with rfl | rfl | rfl <;> decide
    rw [List.takeWhile_cons_of_neg (by simp [hstop]), List.dropWhile_cons_of_neg (by simp [hstop]),
      List.append_nil]
    exact ⟨rfl, rfl⟩

theorem ownProperties_eq {ms : List (String × Json)} (h : (ms.map Prod.fst).Nodup) :
    ownProperties ms = propertyOrder.arrange ms := by
  rw [ownProperties, KeyedMap.entries_foldl_set ms KeyedMap.empty (by simpa [KeyedMap.keys, KeyedMap.empty] using h)]
  rfl

mutual

/-- The numbers in a value. -/
def numbers : Json → List JsNumber
  | .null => []
  | .bool _ => []
  | .number n => [n]
  | .string _ => []
  | .array items => numbersItems items
  | .object members => numbersMembers members

def numbersItems : List Json → List JsNumber
  | [] => []
  | t :: rest => numbers t ++ numbersItems rest

def numbersMembers : List (String × Json) → List JsNumber
  | [] => []
  | (_, t) :: rest => numbers t ++ numbersMembers rest

end

/-- A value's text starts with none of the characters that end or join values. -/
theorem head_render_ne {c : Char} (hc : kindOfHead c = 6) (t : Json) (more : List Char) :
    (render t ++ more).head? ≠ some c := by
  obtain ⟨d, rest, hrender, hkind⟩ := render_head t
  rw [hrender, List.cons_append, List.head?_cons]
  intro h
  rw [Option.some.inj h, hc] at hkind
  cases t <;> cases hkind

theorem length_intercalate_cons (x : List Char) (xs : List (List Char)) :
    ([','].intercalate (x :: xs)).length =
      x.length + if xs = [] then 0 else ([','].intercalate xs).length + 1 := by
  have h := congrArg List.length (intercalate_cons x xs [])
  rw [List.append_nil] at h
  rw [h, List.length_append]
  split <;> simp

section Reader

variable {readNumber : List Char → Option JsNumber}

mutual

/-- The text of a value is read back, with what follows it left. -/
theorem readValue_render : ∀ t : Json, DistinctKeys t →
    (∀ n ∈ numbers t, readNumber n.chars = some n) → ∀ (fuel : ℕ) (more : List Char),
      Delimited more → (render t).length ≤ fuel →
        readValue readNumber fuel (render t ++ more) = some (reorder propertyOrder t, more)
  | .null, _, _, fuel + 1, more, _, _ => rfl
  | .bool true, _, _, fuel + 1, more, _, _ => rfl
  | .bool false, _, _, fuel + 1, more, _, _ => rfl
  | .number n, _, hnumbers, fuel, more, hmore, hfuel => by
    obtain ⟨c, rest, hchars⟩ := List.exists_cons_of_ne_nil n.nonempty
    have hnumeric : isNumeric c = true := n.numeric c (hchars ▸ List.mem_cons_self)
    have hne : ∀ d, isNumeric d = false → c ≠ d := by
      rintro d hd rfl
      rw [hnumeric] at hd
      cases hd
    obtain ⟨fuel, rfl⟩ : ∃ f, fuel = f + 1 := by
      refine Nat.exists_eq_succ_of_ne_zero fun hzero => ?_
      rw [hzero, render, hchars] at hfuel
      cases hfuel
    obtain ⟨htake, hdrop⟩ := numberChars_append n.numeric hmore
    rw [hchars, List.cons_append] at htake hdrop
    rw [render, hchars, List.cons_append, readValue, if_neg (hne _ (by decide)),
      if_neg (hne _ (by decide)), if_neg (hne _ (by decide)), if_neg (hne _ (by decide)),
      if_neg (hne _ (by decide)), if_neg (hne _ (by decide)), htake, hdrop, ← hchars,
      hnumbers n (List.mem_singleton.mpr rfl)]
    rfl
  | .string s, _, _, fuel + 1, more, _, _ => by
    have hread := readString_quote s more
    rw [quote, List.cons_append] at hread
    rw [render, quote, List.cons_append, readValue, if_pos rfl, hread]
    rfl
  | .array [], _, _, fuel + 1, more, _, _ => rfl
  | .array (t :: rest), hdistinct, hnumbers, fuel + 1, more, _, hfuel => by
    have hlength : ([','].intercalate (renderItems (t :: rest))).length < fuel := by
      rw [render, List.length_cons, List.length_append, List.length_singleton] at hfuel
      omega
    have hread := readItems_render t rest hdistinct hnumbers fuel more hlength
    have hstart : skipSpace ([','].intercalate (renderItems (t :: rest)) ++ ']' :: more) =
        [','].intercalate (renderItems (t :: rest)) ++ ']' :: more := by
      rw [renderItems, intercalate_cons, skipSpace_render]
    have hnotEnd : ([','].intercalate (renderItems (t :: rest)) ++ ']' :: more).head? ≠ some ']' := by
      rw [renderItems, intercalate_cons]
      exact head_render_ne (by decide) t _
    rw [render, List.cons_append, List.append_assoc, List.singleton_append, readValue,
      if_neg (by decide), if_pos rfl, hstart, if_neg hnotEnd, hread]
    rfl
  | .object [], _, _, fuel + 1, more, _, _ => rfl
  | .object (m :: rest), hdistinct, hnumbers, fuel + 1, more, _, hfuel => by
    have hlength : ([','].intercalate (renderMembers (m :: rest))).length < fuel := by
      rw [render, List.length_cons, List.length_append, List.length_singleton] at hfuel
      omega
    have hread := readMembers_render m rest hdistinct.2 hnumbers fuel more hlength
    have hstart : skipSpace ([','].intercalate (renderMembers (m :: rest)) ++ '\x7d' :: more) =
        [','].intercalate (renderMembers (m :: rest)) ++ '\x7d' :: more := by
      rw [renderMembers, intercalate_cons, List.append_assoc, skipSpace_quote]
    have hnotEnd : ([','].intercalate (renderMembers (m :: rest)) ++ '\x7d' :: more).head? ≠
        some '\x7d' := by
      rw [renderMembers, intercalate_cons, List.append_assoc]
      exact head_render_ne (by decide) (.string m.1) _
    have hkeys : ((reorderMembers propertyOrder (m :: rest)).map Prod.fst).Nodup := by
      rw [reorderMembers_keys]
      exact hdistinct.1
    rw [render, List.cons_append, List.append_assoc, List.singleton_append, readValue,
      if_neg (by decide), if_neg (by decide), if_pos rfl, hstart, if_neg hnotEnd, hread,
      Option.map_some, ownProperties_eq hkeys, reorder]

theorem readItems_render : ∀ (t : Json) (rest : List Json), EverywhereItems List.Nodup (t :: rest) →
    (∀ n ∈ numbersItems (t :: rest), readNumber n.chars = some n) → ∀ (fuel : ℕ) (more : List Char),
      ([','].intercalate (renderItems (t :: rest))).length < fuel →
        readItems readNumber fuel ([','].intercalate (renderItems (t :: rest)) ++ ']' :: more) =
          some (reorderItems propertyOrder (t :: rest), more)
  | t, rest, hdistinct, hnumbers, fuel + 1, more, hfuel => by
    obtain ⟨ht, hrest⟩ := List.forall_mem_append.mp hnumbers
    rw [renderItems, length_intercalate_cons] at hfuel
    cases rest with
    | nil =>
      have hread := readValue_render t hdistinct.1 ht fuel (']' :: more) (delimited_bracket more)
        (by omega)
      rw [renderItems, intercalate_cons, renderItems, if_pos rfl, readItems, skipSpace_render, hread]
      rfl
    | cons t' rest =>
      rw [if_neg (by simp [renderItems])] at hfuel
      have hread := readValue_render t hdistinct.1 ht fuel
        (',' :: ([','].intercalate (renderItems (t' :: rest)) ++ ']' :: more))
        (delimited_comma _) (by omega)
      have hmore := readItems_render t' rest hdistinct.2 hrest fuel more (by omega)
      rw [renderItems, intercalate_cons, if_neg (by simp [renderItems]), readItems, skipSpace_render,
        hread]
      simp only [Option.bind_eq_bind, Option.bind_some]
      rw [skipSpace_cons (by decide)]
      simp only [hmore]
      rfl

theorem readMembers_render : ∀ (m : String × Json) (rest : List (String × Json)),
    EverywhereMembers List.Nodup (m :: rest) →
    (∀ n ∈ numbersMembers (m :: rest), readNumber n.chars = some n) →
      ∀ (fuel : ℕ) (more : List Char),
        ([','].intercalate (renderMembers (m :: rest))).length < fuel →
          readMembers readNumber fuel ([','].intercalate (renderMembers (m :: rest)) ++ '\x7d' :: more) =
            some (reorderMembers propertyOrder (m :: rest), more)
  | (k, t), rest, hdistinct, hnumbers, fuel + 1, more, hfuel => by
    obtain ⟨ht, hrest⟩ := List.forall_mem_append.mp hnumbers
    rw [renderMembers, length_intercalate_cons, List.length_append, List.length_cons] at hfuel
    cases rest with
    | nil =>
      have hread := readValue_render t hdistinct.1 ht fuel ('\x7d' :: more) (delimited_brace more)
        (by omega)
      rw [renderMembers, intercalate_cons, renderMembers, if_pos rfl, List.append_assoc,
        List.cons_append, readMembers, skipSpace_quote, readString_quote]
      simp only [Option.bind_eq_bind, Option.bind_some]
      rw [skipSpace_cons (by decide)]
      simp only [List.head?_cons, List.tail_cons, if_true, skipSpace_render, hread]
      rfl
    | cons m' rest =>
      rw [if_neg (by simp [renderMembers])] at hfuel
      have hread := readValue_render t hdistinct.1 ht fuel
        (',' :: ([','].intercalate (renderMembers (m' :: rest)) ++ '\x7d' :: more))
        (delimited_comma _) (by omega)
      have hmore := readMembers_render m' rest hdistinct.2 hrest fuel more (by omega)
      rw [renderMembers, intercalate_cons, if_neg (by simp [renderMembers]), List.append_assoc,
        List.cons_append, readMembers, skipSpace_quote, readString_quote]
      simp only [Option.bind_eq_bind, Option.bind_some]
      rw [skipSpace_cons (by decide)]
      simp only [List.head?_cons, List.tail_cons, if_true, skipSpace_render, hread, Option.bind_some]
      rw [skipSpace_cons (by decide)]
      simp only [hmore]
      rfl

end

end Reader

/-- `JSON.parse` undoes `JSON.stringify`, up to the order of the keys. -/
theorem parse_text (readNumber : List Char → Option JsNumber) (t : Json) (hdistinct : DistinctKeys t)
    (hnumbers : ∀ n ∈ numbers t, readNumber n.chars = some n) :
    parse readNumber (text t) = some (reorder propertyOrder t) := by
  have hlength : (text t).length = (render t).length := String.length_ofList
  have hspace := skipSpace_render t []
  have hread := readValue_render t hdistinct hnumbers (render t).length [] nofun le_rfl
  rw [List.append_nil] at hspace hread
  rw [parse, toList_text, hlength, hspace, hread]
  rfl

/-- The parser, where each number's text is read back as the number. -/
def jsonParser (readNumber : List Char → Option JsNumber)
    (h : ∀ n : JsNumber, readNumber n.chars = some n) : JsonParser where
  parse := parse readNumber
  inverts t distinct := parse_text readNumber t distinct fun n _ => h n

end ModelForge.JsonParse
