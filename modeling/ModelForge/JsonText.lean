import Mathlib

set_option autoImplicit false

/-!
# JSON values and their text

Values with their members in order, and the text `JSON.stringify` writes for
them. The text can be read in one way only, so it determines the value.
-/
namespace ModelForge.JsonText

/-- A code per symbol that no continuation of another code starts with. -/
def PrefixFree {α β : Type} (code : α → List β) : Prop :=
  ∀ a b x y, code a ++ x = code b ++ y → a = b ∧ x = y

theorem PrefixFree.flatMap_injective {α β : Type} {code : α → List β} (h : PrefixFree code)
    (nonempty : ∀ a, code a ≠ []) : Function.Injective fun l : List α => l.flatMap code := by
  intro l
  induction l with
  | nil =>
    intro l' he
    cases l' with
    | nil => rfl
    | cons b rest =>
      simp only [List.flatMap_nil, List.flatMap_cons] at he
      exact absurd (List.append_eq_nil_iff.mp he.symm).1 (nonempty b)
  | cons a l ih =>
    intro l' he
    cases l' with
    | nil =>
      simp only [List.flatMap_nil, List.flatMap_cons] at he
      exact absurd (List.append_eq_nil_iff.mp he).1 (nonempty a)
    | cons b rest =>
      simp only [List.flatMap_cons] at he
      obtain ⟨rfl, hrest⟩ := h a b _ _ he
      rw [ih hrest]

/-- Codes up to a mark that none of them starts with. -/
theorem PrefixFree.flatMap_cancel {α β : Type} {code : α → List β} (h : PrefixFree code) {mark : β}
    (nonempty : ∀ a, code a ≠ []) (unmarked : ∀ a, (code a).head? ≠ some mark) (l l' : List α)
    (r r' : List β) (he : l.flatMap code ++ mark :: r = l'.flatMap code ++ mark :: r') :
    l = l' ∧ r = r' := by
  have stuck : ∀ (a : α) (x y : List β), mark :: x ≠ code a ++ y := by
    intro a x y hxy
    cases hc : code a with
    | nil => exact nonempty a hc
    | cons b rest =>
      rw [hc] at hxy
      refine unmarked a ?_
      rw [hc, List.head?_cons, (List.cons.inj hxy).1]
  induction l generalizing l' with
  | nil =>
    cases l' with
    | nil => exact ⟨rfl, (List.cons.inj he).2⟩
    | cons b rest =>
      rw [List.flatMap_cons, List.append_assoc] at he
      exact absurd he (stuck b _ _)
  | cons a l ih =>
    cases l' with
    | nil =>
      rw [List.flatMap_cons, List.append_assoc] at he
      exact absurd he.symm (stuck a _ _)
    | cons b rest =>
      rw [List.flatMap_cons, List.flatMap_cons, List.append_assoc, List.append_assoc] at he
      obtain ⟨rfl, hrest⟩ := h a b _ _ he
      obtain ⟨rfl, hr⟩ := ih rest hrest
      exact ⟨rfl, hr⟩

def quotationMark : Char := Char.ofNat 34

def backslash : Char := Char.ofNat 92

def hexDigit (n : ℕ) : Char := Char.ofNat (if n < 10 then 48 + n else 87 + n)

/-- How `JSON.stringify` writes one character inside a string. -/
def escapeChar (c : Char) : List Char :=
  if c = quotationMark then [backslash, quotationMark]
  else if c = backslash then [backslash, backslash]
  else if c.toNat = 8 then [backslash, 'b']
  else if c.toNat = 9 then [backslash, 't']
  else if c.toNat = 10 then [backslash, 'n']
  else if c.toNat = 12 then [backslash, 'f']
  else if c.toNat = 13 then [backslash, 'r']
  else if c.toNat < 32 then [backslash, 'u', '0', '0', hexDigit (c.toNat / 16), hexDigit (c.toNat % 16)]
  else [c]

def escapedChars : List Char := quotationMark :: backslash :: (List.range 32).map Char.ofNat

theorem escapeChar_of_notMem {c : Char} (h : c ∉ escapedChars) : escapeChar c = [c] := by
  simp only [escapedChars, List.mem_cons, List.mem_map, List.mem_range, not_or, not_exists,
    not_and] at h
  obtain ⟨hq, hb, hc⟩ := h
  have hlarge : 32 ≤ c.toNat := by
    by_contra hlt
    exact hc c.toNat (by omega) (Char.ofNat_toNat c)
  unfold escapeChar
  rw [if_neg hq, if_neg hb, if_neg (by omega), if_neg (by omega), if_neg (by omega),
    if_neg (by omega), if_neg (by omega), if_neg (by omega)]

def hexValue (c : Char) : ℕ := if c.toNat < 58 then c.toNat - 48 else c.toNat - 87

/-- Reads the code of an escaped character back. -/
def unescape : List Char → Char
  | [_, _, _, _, a, b] => Char.ofNat (16 * hexValue a + hexValue b)
  | [_, c] =>
    if c = 'b' then Char.ofNat 8
    else if c = 't' then Char.ofNat 9
    else if c = 'n' then Char.ofNat 10
    else if c = 'f' then Char.ofNat 12
    else if c = 'r' then Char.ofNat 13
    else c
  | _ => quotationMark

set_option maxRecDepth 3000 in
theorem escapeChar_head : (escapedChars.all fun c => (escapeChar c).head? = some backslash) = true := by
  decide +kernel

set_option maxRecDepth 3000 in
theorem escapeChar_length : (escapedChars.all fun c => (escapeChar c).length =
    if (escapeChar c)[1]? = some 'u' then 6 else 2) = true := by
  decide +kernel

set_option maxRecDepth 3000 in
theorem unescape_escapeChar : (escapedChars.all fun c => unescape (escapeChar c) = c) = true := by
  decide +kernel

theorem escapeChar_shape {c : Char} (h : c ∈ escapedChars) :
    (escapeChar c).head? = some backslash ∧
      (escapeChar c).length = (if (escapeChar c)[1]? = some 'u' then 6 else 2) ∧
      unescape (escapeChar c) = c :=
  ⟨of_decide_eq_true (List.all_eq_true.mp escapeChar_head c h),
    of_decide_eq_true (List.all_eq_true.mp escapeChar_length c h),
    of_decide_eq_true (List.all_eq_true.mp unescape_escapeChar c h)⟩

/-- The second character of an escape tells its length. -/
theorem escapeChar_cancel {c c' : Char} (hc : c ∈ escapedChars) (hc' : c' ∈ escapedChars)
    (h : escapeChar c <+: escapeChar c') : c = c' := by
  obtain ⟨-, hlen, hread⟩ := escapeChar_shape hc
  obtain ⟨-, hlen', hread'⟩ := escapeChar_shape hc'
  obtain ⟨rest, hrest⟩ := h
  have htwo : 1 < (escapeChar c).length := by
    rw [hlen]
    split <;> omega
  have hsecond : (escapeChar c)[1]? = (escapeChar c')[1]? := by
    rw [← hrest, List.getElem?_append_left htwo]
  have hsame : escapeChar c = escapeChar c' := by
    have hadd := congrArg List.length hrest
    rw [List.length_append, hlen, hlen', hsecond] at hadd
    rw [← hrest, List.eq_nil_of_length_eq_zero (by omega : rest.length = 0), List.append_nil]
  rw [← hread, hsame, hread']

theorem head_escapeChar (c : Char) :
    (escapeChar c).head? = some (if c ∈ escapedChars then backslash else c) := by
  split
  · exact (escapeChar_shape ‹_›).1
  · rw [escapeChar_of_notMem ‹_›]
    rfl

theorem escapeChar_ne_nil (c : Char) : escapeChar c ≠ [] := by
  intro h
  have := head_escapeChar c
  rw [h] at this
  cases this

theorem escapeChar_prefixFree : PrefixFree escapeChar := by
  intro c c' x y h
  have hhead : (if c ∈ escapedChars then backslash else c) =
      if c' ∈ escapedChars then backslash else c' := by
    have := congrArg List.head? h
    rw [List.head?_append_of_ne_nil _ (escapeChar_ne_nil c),
      List.head?_append_of_ne_nil _ (escapeChar_ne_nil c'), head_escapeChar, head_escapeChar] at this
    exact Option.some.inj this
  have heq : c = c' := by
    by_cases hc : c ∈ escapedChars
    · by_cases hc' : c' ∈ escapedChars
      · rcases List.prefix_or_prefix_of_prefix (List.prefix_append (escapeChar c) x)
          (h ▸ List.prefix_append (escapeChar c') y) with hp | hp
        · exact escapeChar_cancel hc hc' hp
        · exact (escapeChar_cancel hc' hc hp).symm
      · rw [if_pos hc, if_neg hc'] at hhead
        exact absurd (by decide : backslash ∈ escapedChars) (hhead ▸ hc')
    · by_cases hc' : c' ∈ escapedChars
      · rw [if_neg hc, if_pos hc'] at hhead
        exact absurd (by decide : backslash ∈ escapedChars) (hhead ▸ hc)
      · rw [if_neg hc, if_neg hc'] at hhead
        exact hhead
  subst heq
  exact ⟨rfl, List.append_cancel_left h⟩

theorem head_escapeChar_ne (c : Char) : (escapeChar c).head? ≠ some quotationMark := by
  rw [head_escapeChar]
  intro h
  split at h
  · exact absurd (Option.some.inj h) (by decide)
  · rename_i hc
    rw [Option.some.inj h] at hc
    exact hc (by decide)

def quote (s : String) : List Char :=
  quotationMark :: (s.toList.flatMap escapeChar ++ [quotationMark])

theorem quote_cancel {s s' : String} {r r' : List Char} (h : quote s ++ r = quote s' ++ r') :
    s = s' ∧ r = r' := by
  have hbody : s.toList.flatMap escapeChar ++ [quotationMark] ++ r =
      s'.toList.flatMap escapeChar ++ [quotationMark] ++ r' := (List.cons.inj h).2
  rw [List.append_assoc, List.append_assoc] at hbody
  obtain ⟨hs, hr⟩ := escapeChar_prefixFree.flatMap_cancel escapeChar_ne_nil head_escapeChar_ne _ _ _ _
    hbody
  exact ⟨String.toList_inj.mp hs, hr⟩

def isNumeric (c : Char) : Bool := c.isDigit || c = '-' || c = '+' || c = '.' || c = 'e'

/-- A finite number, given by the text `JSON.stringify` writes for it. -/
structure JsNumber where
  chars : List Char
  nonempty : chars ≠ []
  numeric : ∀ c ∈ chars, isNumeric c = true

inductive Json where
  | null
  | bool (b : Bool)
  | number (n : JsNumber)
  | string (s : String)
  | array (items : List Json)
  | object (members : List (String × Json))

mutual

def render : Json → List Char
  | .null => "null".toList
  | .bool b => if b then "true".toList else "false".toList
  | .number n => n.chars
  | .string s => quote s
  | .array items => '[' :: ([','].intercalate (renderItems items) ++ [']'])
  | .object members => '\x7b' :: ([','].intercalate (renderMembers members) ++ ['\x7d'])

def renderItems : List Json → List (List Char)
  | [] => []
  | t :: rest => render t :: renderItems rest

def renderMembers : List (String × Json) → List (List Char)
  | [] => []
  | (k, t) :: rest => (quote k ++ ':' :: render t) :: renderMembers rest

end

/-- The JSON text of a value, its members in the order given. -/
def text (t : Json) : String := String.ofList (render t)

/-- What follows a complete value: the end, a comma or a closing bracket. -/
def Delimited (r : List Char) : Prop := ∀ c ∈ r.head?, c = ',' ∨ c = ']' ∨ c = '\x7d'

/-- The kind of value that a text starting with this character is of. -/
def kindOfHead (c : Char) : ℕ :=
  if c = 'n' then 0
  else if c = 't' ∨ c = 'f' then 1
  else if c = quotationMark then 3
  else if c = '[' then 4
  else if c = '\x7b' then 5
  else if isNumeric c then 2
  else 6

def kind : Json → ℕ
  | .null => 0
  | .bool _ => 1
  | .number _ => 2
  | .string _ => 3
  | .array _ => 4
  | .object _ => 5

theorem kindOfHead_of_numeric {c : Char} (h : isNumeric c = true) : kindOfHead c = 2 := by
  have hne : ∀ d : Char, isNumeric d = false → c ≠ d := by
    rintro d hd rfl
    rw [h] at hd
    cases hd
  unfold kindOfHead
  rw [if_neg (hne _ (by decide)), if_neg (not_or.mpr ⟨hne _ (by decide), hne _ (by decide)⟩),
    if_neg (hne _ (by decide)), if_neg (hne _ (by decide)), if_neg (hne _ (by decide)), if_pos h]

theorem render_head (t : Json) : ∃ c rest, render t = c :: rest ∧ kindOfHead c = kind t := by
  cases t with
  | null => exact ⟨'n', _, rfl, rfl⟩
  | bool b => cases b <;> exact ⟨_, _, rfl, rfl⟩
  | number n =>
    obtain ⟨c, rest, hn⟩ := List.exists_cons_of_ne_nil n.nonempty
    exact ⟨c, rest, hn, kindOfHead_of_numeric (n.numeric c (by rw [hn]; exact List.mem_cons_self))⟩
  | string s => exact ⟨_, _, rfl, rfl⟩
  | array items => exact ⟨_, _, rfl, rfl⟩
  | object members => exact ⟨_, _, rfl, rfl⟩

theorem kind_eq {t t' : Json} {r r' : List Char} (h : render t ++ r = render t' ++ r') :
    kind t = kind t' := by
  obtain ⟨c, rest, hc, hk⟩ := render_head t
  obtain ⟨c', rest', hc', hk'⟩ := render_head t'
  rw [hc, hc'] at h
  rw [← hk, ← hk', (List.cons.inj h).1]

theorem numeric_cancel {xs ys r r' : List Char} (hxs : ∀ c ∈ xs, isNumeric c = true)
    (hys : ∀ c ∈ ys, isNumeric c = true) (hr : Delimited r) (hr' : Delimited r')
    (h : xs ++ r = ys ++ r') : xs = ys ∧ r = r' := by
  have stop : ∀ l : List Char, Delimited l → l.takeWhile isNumeric = [] := by
    intro l hl
    cases l with
    | nil => rfl
    | cons c rest =>
      refine List.takeWhile_cons_of_neg ?_
      rcases hl c rfl with rfl | rfl | rfl <;> decide
  have htake := congrArg (List.takeWhile isNumeric) h
  rw [List.takeWhile_append_of_pos hxs, List.takeWhile_append_of_pos hys, stop r hr, stop r' hr',
    List.append_nil, List.append_nil] at htake
  subst htake
  exact ⟨rfl, List.append_cancel_left h⟩

theorem delimited_comma (r : List Char) : Delimited (',' :: r) := by
  rintro c ⟨⟩
  exact .inl rfl

theorem delimited_bracket (r : List Char) : Delimited (']' :: r) := by
  rintro c ⟨⟩
  exact .inr (.inl rfl)

theorem delimited_brace (r : List Char) : Delimited ('\x7d' :: r) := by
  rintro c ⟨⟩
  exact .inr (.inr rfl)

/-- Joining by commas, one element at a time. -/
theorem intercalate_cons (x : List Char) (xs : List (List Char)) (close : List Char) :
    [','].intercalate (x :: xs) ++ close =
      x ++ if xs = [] then close else ',' :: ([','].intercalate xs ++ close) := by
  split
  · rename_i h
    rw [h, List.intercalate_singleton]
  · rename_i h
    rw [List.intercalate_cons_of_ne_nil h]
    simp

theorem renderItems_eq_nil {items : List Json} : renderItems items = [] ↔ items = [] := by
  cases items <;> simp [renderItems]

theorem renderMembers_eq_nil {members : List (String × Json)} :
    renderMembers members = [] ↔ members = [] := by
  cases members <;> simp [renderMembers]

/-- What follows an item is the closing bracket, or a comma and more items. -/
theorem rest_cancel {α : Type} {rest rest' : List α} [Decidable (rest = [])] [Decidable (rest' = [])]
    {close : Char} {r r' later later' : List Char} (hclose : close ≠ ',')
    (h : (if rest = [] then close :: r else ',' :: later) =
      if rest' = [] then close :: r' else ',' :: later')
    (hlater : later = later' → rest = rest' ∧ r = r') : rest = rest' ∧ r = r' := by
  by_cases hn : rest = []
  · by_cases hn' : rest' = []
    · rw [if_pos hn, if_pos hn'] at h
      exact ⟨hn.trans hn'.symm, (List.cons.inj h).2⟩
    · rw [if_pos hn, if_neg hn'] at h
      exact absurd (List.cons.inj h).1 hclose
  · by_cases hn' : rest' = []
    · rw [if_neg hn, if_pos hn'] at h
      exact absurd (List.cons.inj h).1.symm hclose
    · rw [if_neg hn, if_neg hn'] at h
      exact hlater (List.cons.inj h).2

mutual

/-- A text is read in one way only. -/
theorem render_cancel : ∀ (t t' : Json) (r r' : List Char), Delimited r → Delimited r' →
    render t ++ r = render t' ++ r' → t = t' ∧ r = r'
  | .null, t', r, r', _, _, h => by
    have hk := kind_eq h
    cases t' <;> cases hk
    exact ⟨rfl, List.append_cancel_left h⟩
  | .bool b, t', r, r', _, _, h => by
    have hk := kind_eq h
    cases t' <;> cases hk
    rename_i b'
    cases b <;> cases b'
    · exact ⟨rfl, List.append_cancel_left h⟩
    · cases (List.cons.inj h).1
    · cases (List.cons.inj h).1
    · exact ⟨rfl, List.append_cancel_left h⟩
  | .number n, t', r, r', hr, hr', h => by
    have hk := kind_eq h
    cases t' <;> cases hk
    rename_i n'
    obtain ⟨hn, hrest⟩ := numeric_cancel n.numeric n'.numeric hr hr' h
    cases n
    cases n'
    cases hn
    exact ⟨rfl, hrest⟩
  | .string s, t', r, r', _, _, h => by
    have hk := kind_eq h
    cases t' <;> cases hk
    obtain ⟨rfl, hrest⟩ := quote_cancel h
    exact ⟨rfl, hrest⟩
  | .array items, t', r, r', _, _, h => by
    have hk := kind_eq h
    cases t' <;> cases hk
    rename_i items'
    have hbody : [','].intercalate (renderItems items) ++ [']'] ++ r =
        [','].intercalate (renderItems items') ++ [']'] ++ r' := (List.cons.inj h).2
    rw [List.append_assoc, List.append_assoc] at hbody
    obtain ⟨rfl, hrest⟩ := renderItems_cancel items items' r r' hbody
    exact ⟨rfl, hrest⟩
  | .object members, t', r, r', _, _, h => by
    have hk := kind_eq h
    cases t' <;> cases hk
    rename_i members'
    have hbody : [','].intercalate (renderMembers members) ++ ['\x7d'] ++ r =
        [','].intercalate (renderMembers members') ++ ['\x7d'] ++ r' := (List.cons.inj h).2
    rw [List.append_assoc, List.append_assoc] at hbody
    obtain ⟨rfl, hrest⟩ := renderMembers_cancel members members' r r' hbody
    exact ⟨rfl, hrest⟩

theorem renderItems_cancel : ∀ (items items' : List Json) (r r' : List Char),
    [','].intercalate (renderItems items) ++ ']' :: r =
      [','].intercalate (renderItems items') ++ ']' :: r' → items = items' ∧ r = r'
  | [], [], r, r', h => ⟨rfl, (List.cons.inj h).2⟩
  | [], t' :: rest', r, r', h => by
    obtain ⟨c, cs, hc, hkind⟩ := render_head t'
    rw [renderItems, renderItems, intercalate_cons, hc] at h
    rw [← (List.cons.inj h).1] at hkind
    cases t' <;> cases hkind
  | t :: rest, [], r, r', h => by
    obtain ⟨c, cs, hc, hkind⟩ := render_head t
    rw [renderItems, renderItems, intercalate_cons, hc] at h
    rw [(List.cons.inj h).1] at hkind
    cases t <;> cases hkind
  | t :: rest, t' :: rest', r, r', h => by
    rw [renderItems, renderItems, intercalate_cons, intercalate_cons] at h
    obtain ⟨rfl, hrest⟩ := render_cancel t t' _ _
      (by split <;> first | exact delimited_bracket _ | exact delimited_comma _)
      (by split <;> first | exact delimited_bracket _ | exact delimited_comma _) h
    simp only [renderItems_eq_nil] at hrest
    obtain ⟨rfl, hr⟩ := rest_cancel (by decide) hrest fun hlater => renderItems_cancel rest rest' r r' hlater
    exact ⟨rfl, hr⟩

theorem renderMembers_cancel : ∀ (members members' : List (String × Json)) (r r' : List Char),
    [','].intercalate (renderMembers members) ++ '\x7d' :: r =
      [','].intercalate (renderMembers members') ++ '\x7d' :: r' → members = members' ∧ r = r'
  | [], [], r, r', h => ⟨rfl, (List.cons.inj h).2⟩
  | [], (k', t') :: rest', r, r', h => by
    rw [renderMembers, renderMembers, intercalate_cons] at h
    cases (List.cons.inj h).1
  | (k, t) :: rest, [], r, r', h => by
    rw [renderMembers, renderMembers, intercalate_cons] at h
    cases (List.cons.inj h).1
  | (k, t) :: rest, (k', t') :: rest', r, r', h => by
    rw [renderMembers, renderMembers, intercalate_cons, intercalate_cons, List.append_assoc,
      List.append_assoc] at h
    obtain ⟨rfl, hvalue⟩ := quote_cancel h
    obtain ⟨rfl, hrest⟩ := render_cancel t t' _ _
      (by split <;> first | exact delimited_brace _ | exact delimited_comma _)
      (by split <;> first | exact delimited_brace _ | exact delimited_comma _)
      (List.cons.inj hvalue).2
    simp only [renderMembers_eq_nil] at hrest
    obtain ⟨rfl, hr⟩ := rest_cancel (by decide) hrest fun hlater => renderMembers_cancel rest rest' r r' hlater
    exact ⟨rfl, hr⟩

end

theorem text_injective : Function.Injective text := by
  intro t t' h
  have hrender : render t = render t' := String.ofList_injective h
  refine (render_cancel t t' [] [] nofun nofun ?_).1
  rw [List.append_nil, List.append_nil, hrender]

end ModelForge.JsonText
