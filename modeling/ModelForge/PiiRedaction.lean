import ModelForge.EventStream
import ModelForge.PatternScan

set_option autoImplicit false

/-!
# Redaction of personal data

The rules of the local provider, applied one after the other, and what is left
for them to find in a text that they have redacted.
-/
namespace ModelForge.PiiRedaction
open EventStream (JsString js)
open PatternScan (Regex Pattern Token)

/-! ## Character classes -/

def unit (c : Char) : UInt16 := UInt16.ofNat c.toNat

def between (first last : Char) (u : UInt16) : Bool :=
  first.toNat ≤ u.toNat && u.toNat ≤ last.toNat

def among (cs : String) (u : UInt16) : Bool := cs.toList.any fun c => c.toNat == u.toNat

/-- `\d` -/
def digit (u : UInt16) : Bool := between '0' '9' u

/-- `[A-Z]` under the flag `i` -/
def letter (u : UInt16) : Bool := between 'A' 'Z' u || between 'a' 'z' u

/-- `\w` -/
def word (u : UInt16) : Bool := letter u || digit u || among "_" u

/-- `\b` -/
def boundary (prev next : Option UInt16) : Bool := prev.any word != next.any word

/-! ## The rules -/

/-- `/(?<!\d)(?:\d[ -]?){12,18}\d(?!\d)/g` -/
def creditCard : Pattern UInt16 where
  before prev _ := !prev.any digit
  body := .seq (.times (.seq (.one digit) (.opt (.one (among " -")))) 12 6) (.one digit)
  after _ next := !next.any digit
  consumes := by decide

/-- `/\b[A-Z0-9._%+-]+@[A-Z0-9.-]+\.[A-Z]{2,}\b/gi` -/
def email : Pattern UInt16 where
  before := boundary
  body := .seq (.many (fun u => letter u || digit u || among "._%+-" u) 1)
    (.seq (.one (among "@"))
      (.seq (.many (fun u => letter u || digit u || among ".-" u) 1)
        (.seq (.one (among ".")) (.many letter 2))))
  after := boundary
  consumes := by decide

/-- `/(?<![\w+])(?:\+?\d{1,3}[ .-]?)?(?:\(\d{2,4}\)[ .-]?)?\d(?:[ .-]?\d){6,11}(?!\w)/g` -/
def phone : Pattern UInt16 where
  before prev _ := !prev.any fun u => word u || among "+" u
  body :=
    .seq (.opt (.seq (.opt (.one (among "+")))
        (.seq (.times (.one digit) 1 2) (.opt (.one (among " .-"))))))
      (.seq (.opt (.seq (.one (among "("))
          (.seq (.times (.one digit) 2 2) (.seq (.one (among ")")) (.opt (.one (among " .-")))))))
        (.seq (.one digit) (.times (.seq (.opt (.one (among " .-"))) (.one digit)) 6 5)))
  after _ next := !next.any word
  consumes := by decide

structure Rule where
  ruleId : String
  pattern : Pattern UInt16
  replacement : JsString

def RULES : List Rule :=
  [⟨"credit_card", creditCard, js "[REDACTED_CREDIT_CARD]"⟩,
    ⟨"email", email, js "[REDACTED_EMAIL]"⟩,
    ⟨"phone", phone, js "[REDACTED_PHONE]"⟩]

structure PiiFinding where
  ruleId : String
  count : ℕ
deriving DecidableEq

structure PiiRedactionResult where
  text : JsString
  findings : List PiiFinding
deriving DecidableEq

/-- One turn of the loop over the rules. -/
def applyRule (result : PiiRedactionResult) (rule : Rule) : PiiRedactionResult :=
  let found := rule.pattern.matchAll result.text
  if found.length = 0 then result
  else
    { text := rule.pattern.replaceAll rule.replacement result.text
      findings := result.findings ++ [⟨rule.ruleId, found.length⟩] }

def redact (text : JsString) : PiiRedactionResult := RULES.foldl applyRule ⟨text, []⟩

example : redact (js "Email me@example.com, call +1 (415) 555-2671, card 4111 1111 1111 1111.") =
    ⟨js "Email [REDACTED_EMAIL], call [REDACTED_PHONE], card [REDACTED_CREDIT_CARD].",
      [⟨"credit_card", 1⟩, ⟨"email", 1⟩, ⟨"phone", 1⟩]⟩ := by decide +kernel

/-! ## The ends of a match -/

theorem word_of_digit {u : UInt16} (h : digit u = true) : word u = true := by simp [word, h]

theorem word_of_letter {u : UInt16} (h : letter u = true) : word u = true := by simp [word, h]

theorem not_digit_of_letter {u : UInt16} (h : letter u = true) : digit u = false := by
  simp only [letter, digit, between, Bool.or_eq_true, Bool.and_eq_true, decide_eq_true_eq] at h ⊢
  have h0 : '0'.toNat = 48 ∧ '9'.toNat = 57 := by decide
  have hA : 'A'.toNat = 65 ∧ 'a'.toNat = 97 := by decide
  rw [h0.1, h0.2, Bool.and_eq_false_iff, decide_eq_false_iff_not, decide_eq_false_iff_not]
  omega

theorem creditCard_first {w : JsString} (h : creditCard.body.lang w) :
    ∃ d, w.head? = some d ∧ digit d = true := by
  obtain ⟨u, v, ⟨ws, hleast, _, hws, rfl⟩, _, rfl⟩ := h
  cases ws with
  | nil => simp at hleast
  | cons w ws =>
    obtain ⟨_, o, ⟨d, hd, rfl⟩, _, rfl⟩ := hws w (by simp)
    exact ⟨d, by simp, hd⟩

theorem creditCard_last {w : JsString} (h : creditCard.body.lang w) :
    ∃ d, w.getLast? = some d ∧ digit d = true := by
  obtain ⟨u, v, _, ⟨d, hd, rfl⟩, rfl⟩ := h
  exact ⟨d, by simp, hd⟩

theorem email_last {w : JsString} (h : email.body.lang w) :
    ∃ d, w.getLast? = some d ∧ letter d = true := by
  obtain ⟨_, _, _, ⟨_, _, _, ⟨_, _, _, ⟨_, v, _, ⟨hlen, hv⟩, rfl⟩, rfl⟩, rfl⟩, rfl⟩ := h
  have hne : v ≠ [] := by
    intro h
    simp [h] at hlen
  refine ⟨v.getLast hne, ?_, hv _ (List.getLast_mem hne)⟩
  simp only [← List.append_assoc]
  rw [List.getLast?_append_of_ne_nil _ hne, List.getLast?_eq_some_getLast hne]

theorem phone_last {w : JsString} (h : phone.body.lang w) :
    ∃ d, w.getLast? = some d ∧ digit d = true := by
  obtain ⟨_, _, _, ⟨_, _, _, ⟨_, _, _, ⟨ws, hleast, _, hws, rfl⟩, rfl⟩, rfl⟩, rfl⟩ := h
  cases List.eq_nil_or_concat ws with
  | inl h => simp [h] at hleast
  | inr h =>
    obtain ⟨init, w, rfl⟩ := h
    obtain ⟨_, _, _, ⟨d, hd, rfl⟩, rfl⟩ := hws w (by simp)
    exact ⟨d, by simp, hd⟩

/-! ## Matches side by side -/

theorem creditCard_endsApart : creditCard.EndsApart creditCard := by
  intro v w _ hw hbefore _
  obtain ⟨d, hlast, hd⟩ := creditCard_last hw
  simp [creditCard, hlast, hd] at hbefore

theorem creditCard_startsApart : creditCard.StartsApart creditCard := by
  intro v w _ hw hafter _
  obtain ⟨d, hfirst, hd⟩ := creditCard_first hw
  simp [creditCard, hfirst, hd] at hafter

/-- Next to a digit or a letter, the boundary of an address is a character of no word. -/
theorem not_word_of_boundary {u : UInt16} {o : Option UInt16} (hu : word u = true)
    (h : boundary (some u) o = true ∨ boundary o (some u) = true) : o.any word = false := by
  simpa [boundary, hu] using h

theorem not_digit_of_not_word {o : Option UInt16} (h : o.any word = false) :
    o.any digit = false := by
  cases o with
  | none => rfl
  | some u =>
    cases hd : digit u with
    | false => simpa using hd
    | true => simp [word_of_digit hd] at h

theorem email_endsApart_creditCard : email.EndsApart creditCard := by
  intro v w _ hw hbefore _
  obtain ⟨d, hlast, hd⟩ := creditCard_last hw
  rw [hlast] at hbefore
  have hnext := not_word_of_boundary (word_of_digit hd) (.inl hbefore)
  simp [creditCard, not_digit_of_not_word hnext]

theorem email_startsApart_creditCard : email.StartsApart creditCard := by
  intro v w hv _ _ _
  obtain ⟨c, hlast, hc⟩ := email_last hv
  simp [creditCard, hlast, not_digit_of_letter hc]

theorem email_endsApart : email.EndsApart email := by
  intro v w _ hw hbefore _
  obtain ⟨c, hlast, hc⟩ := email_last hw
  rw [hlast] at hbefore ⊢
  exact hbefore

theorem email_startsApart : email.StartsApart email := by
  intro v w hv _ hafter _
  obtain ⟨c, hlast, hc⟩ := email_last hv
  rw [hlast] at hafter ⊢
  exact hafter

/-- A phone number begins behind no character of a word. -/
theorem phone_before {u : UInt16} {o : Option UInt16} (hu : word u = true) :
    phone.before (some u) o = false := by simp [phone, hu]

theorem phone_endsApart_creditCard : phone.EndsApart creditCard := by
  intro v w _ hw hbefore _
  obtain ⟨d, hlast, hd⟩ := creditCard_last hw
  rw [hlast, phone_before (word_of_digit hd)] at hbefore
  contradiction

theorem phone_startsApart_creditCard : phone.StartsApart creditCard := by
  intro v w _ hw hafter _
  obtain ⟨d, hfirst, hd⟩ := creditCard_first hw
  simp [phone, hfirst, word_of_digit hd] at hafter

theorem phone_endsApart_email : phone.EndsApart email := by
  intro v w _ hw hbefore _
  obtain ⟨c, hlast, hc⟩ := email_last hw
  rw [hlast, phone_before (word_of_letter hc)] at hbefore
  contradiction

theorem phone_startsApart_email : phone.StartsApart email := by
  intro v w hv hw hafter hbefore
  have hnext : w.head?.any word = false := by simpa [phone] using hafter
  simp [email, boundary, hnext] at hbefore

theorem phone_endsApart : phone.EndsApart phone := by
  intro v w _ hw hbefore _
  obtain ⟨d, hlast, hd⟩ := phone_last hw
  rw [hlast, phone_before (word_of_digit hd)] at hbefore
  contradiction

/-! ## The markers -/

def brackets : List UInt16 := [unit '[', unit ']']

def markerNames : List JsString :=
  [js "REDACTED_CREDIT_CARD", js "REDACTED_EMAIL", js "REDACTED_PHONE"]

def markers : List JsString := RULES.map Rule.replacement

theorem markers_eq :
    markers = markerNames.map fun name => unit '[' :: name ++ [unit ']'] := by decide +kernel

theorem of_mem_brackets {P : UInt16 → Prop} (h : P (unit '[') ∧ P (unit ']')) {u : UInt16}
    (hu : u ∈ brackets) : P u := by
  cases List.mem_pair.mp hu with
  | inl hu => exact hu ▸ h.1
  | inr hu => exact hu ▸ h.2

theorem not_word_bracket {u : UInt16} (hu : u ∈ brackets) : word u = false :=
  of_mem_brackets (P := fun u => word u = false) (by decide) hu

theorem creditCard_ignores {u : UInt16} (hu : u ∈ brackets) : creditCard.Ignores u := by
  have hdigit : digit u = false :=
    not_digit_of_not_word (o := some u) (not_word_bracket hu)
  constructor
  · exact of_mem_brackets (P := fun u => creditCard.body.avoids u = true) (by decide) hu
  · intro o
    simp [creditCard, hdigit]
  · intro o
    simp [creditCard, hdigit]

theorem email_ignores {u : UInt16} (hu : u ∈ brackets) : email.Ignores u := by
  have hword := not_word_bracket hu
  constructor
  · exact of_mem_brackets (P := fun u => email.body.avoids u = true) (by decide) hu
  · intro o
    simp [email, boundary, hword]
  · intro o
    simp [email, boundary, hword]

theorem phone_ignores {u : UInt16} (hu : u ∈ brackets) : phone.Ignores u := by
  have hword := not_word_bracket hu
  have hplus : among "+" u = false :=
    of_mem_brackets (P := fun u => among "+" u = false) (by decide) hu
  constructor
  · exact of_mem_brackets (P := fun u => phone.body.avoids u = true) (by decide) hu
  · intro o
    simp [phone, hword, hplus]
  · intro o
    simp [phone, hword]

/-- Every rule passes over every marker. -/
theorem marker_passesOver {q : Pattern UInt16} (hq : ∀ u ∈ brackets, q.Ignores u)
    (hname : ∀ name ∈ markerNames, q.tokens none 0 name = name.map .char) {M : JsString}
    (hM : M ∈ markers) : q.PassesOver M := by
  rw [markers_eq] at hM
  obtain ⟨name, hmem, rfl⟩ := List.mem_map.mp hM
  exact Pattern.passesOver_of_ignores (hq _ (by simp [brackets])) (hq _ (by simp [brackets]))
    (hname name hmem)

theorem creditCard_passesOver {M : JsString} (hM : M ∈ markers) : creditCard.PassesOver M :=
  marker_passesOver (fun _ => creditCard_ignores) (by decide +kernel) hM

theorem email_passesOver {M : JsString} (hM : M ∈ markers) : email.PassesOver M :=
  marker_passesOver (fun _ => email_ignores) (by decide +kernel) hM

theorem phone_passesOver {M : JsString} (hM : M ∈ markers) : phone.PassesOver M :=
  marker_passesOver (fun _ => phone_ignores) (by decide +kernel) hM

/-! ## The redacted text -/

def findingCount (findings : List PiiFinding) : ℕ := (findings.map PiiFinding.count).sum

/-- A marker is longer by ten characters at most than what it stands for. -/
theorem length_replacement {rule : Rule} (h : rule ∈ RULES) :
    rule.replacement.length ≤ rule.pattern.body.minLength + 10 := by
  have hall : ∀ rule ∈ RULES,
      rule.replacement.length ≤ rule.pattern.body.minLength + 10 := by decide +kernel
  exact hall rule h

theorem length_applyRule (result : PiiRedactionResult) {rule : Rule} (h : rule ∈ RULES) :
    (applyRule result rule).text.length + 10 * findingCount result.findings ≤
      result.text.length + 10 * findingCount (applyRule result rule).findings := by
  have hlen := rule.pattern.length_replaceAll_le (length_replacement h) result.text
  dsimp only [applyRule]
  split
  next => omega
  next =>
    simp only [findingCount, List.map_append, List.map_cons, List.map_nil, List.sum_append,
      List.sum_singleton]
    omega

theorem length_foldl (rules : List Rule) (h : ∀ rule ∈ rules, rule ∈ RULES)
    (result : PiiRedactionResult) :
    (rules.foldl applyRule result).text.length + 10 * findingCount result.findings ≤
      result.text.length + 10 * findingCount (rules.foldl applyRule result).findings := by
  induction rules generalizing result with
  | nil => exact le_rfl
  | cons rule rules ih =>
    have hstep := length_applyRule result (h rule (by simp))
    have hrest := ih (fun r hr => h r (by simp [hr])) (applyRule result rule)
    rw [List.foldl_cons]
    omega

theorem length_redact (t : JsString) :
    (redact t).text.length ≤ t.length + 10 * findingCount (redact t).findings := by
  have h := length_foldl RULES (fun _ h => h) ⟨t, []⟩
  simpa [findingCount, redact] using h


def CARD : JsString := js "[REDACTED_CREDIT_CARD]"
def EMAIL : JsString := js "[REDACTED_EMAIL]"
def PHONE : JsString := js "[REDACTED_PHONE]"

theorem applyRule_text (result : PiiRedactionResult) (rule : Rule) :
    (applyRule result rule).text = rule.pattern.replaceAll rule.replacement result.text := by
  dsimp only [applyRule]
  split
  next h =>
    rw [Pattern.replaceAll_of_clean]
    exact Pattern.matchAll_eq_nil.mp (List.eq_nil_of_length_eq_zero h)
  next => rfl

theorem applyRule_findings (result : PiiRedactionResult) (rule : Rule) :
    (applyRule result rule).findings = [] ↔
      result.findings = [] ∧ rule.pattern.Clean result.text := by
  rw [← Pattern.matchAll_eq_nil]
  dsimp only [applyRule]
  split
  next h => simp [List.eq_nil_of_length_eq_zero h]
  next h =>
    simp only [List.append_eq_nil_iff, List.cons_ne_nil, and_false, false_iff, not_and]
    intro _ hnil
    exact h (by rw [hnil]; rfl)

/-- The text is cut at its cards, the pieces at their addresses, and these at their phones. -/
theorem redact_text (t : JsString) : (redact t).text =
    CARD.intercalate ((creditCard.split t).map fun r =>
      EMAIL.intercalate ((email.split r).map fun s => PHONE.intercalate (phone.split s))) := by
  have hcard : CARD ∈ markers := by decide +kernel
  have hemail : EMAIL ∈ markers := by decide +kernel
  calc (redact t).text
    _ = phone.replaceAll PHONE (email.replaceAll EMAIL (creditCard.replaceAll CARD t)) := by
      simp only [redact, RULES, List.foldl_cons, List.foldl_nil, applyRule_text]
      rfl
    _ = CARD.intercalate ((creditCard.split t).map fun r =>
          phone.replaceAll PHONE (email.replaceAll EMAIL r)) := by
      rw [Pattern.replaceAll_eq creditCard, (email_passesOver hcard).replaceAll_intercalate,
        (phone_passesOver hcard).replaceAll_intercalate, List.map_map]
      rfl
    _ = _ := by
      have hphone : phone.replaceAll PHONE = fun s => PHONE.intercalate (phone.split s) :=
        funext (Pattern.replaceAll_eq phone PHONE)
      simp only [Pattern.replaceAll_eq email, (phone_passesOver hemail).replaceAll_intercalate, hphone]

/-- A rule that passes over the markers finds in the redacted text what it finds in the pieces. -/
theorem clean_redact {q : Pattern UInt16} (hq : ∀ {M}, M ∈ markers → q.PassesOver M) (t : JsString) :
    q.Clean (redact t).text ↔
      ∀ r ∈ creditCard.split t, ∀ s ∈ email.split r, ∀ u ∈ phone.split s, q.Clean u := by
  have hcard := hq (M := CARD) (by decide +kernel)
  have hemail := hq (M := EMAIL) (by decide +kernel)
  have hphone := hq (M := PHONE) (by decide +kernel)
  simp only [redact_text, hcard.clean_intercalate, hemail.clean_intercalate,
    hphone.clean_intercalate, List.forall_mem_map]

theorem redact_creditCard (t : JsString) : creditCard.Clean (redact t).text := by
  rw [clean_redact creditCard_passesOver]
  intro r hr s hs
  apply Pattern.split_clean phone_endsApart_creditCard phone_startsApart_creditCard
  apply Pattern.split_clean email_endsApart_creditCard email_startsApart_creditCard _ s hs
  exact Pattern.split_self_clean creditCard_endsApart creditCard_startsApart t r hr

theorem redact_email (t : JsString) : email.Clean (redact t).text := by
  rw [clean_redact email_passesOver]
  intro r _ s hs
  apply Pattern.split_clean phone_endsApart_email phone_startsApart_email
  exact Pattern.split_self_clean email_endsApart email_startsApart r s hs

/-- Between the cards and the addresses, no phone number stands directly behind another. -/
def PhonesApart (t : JsString) : Prop :=
  ∀ r ∈ creditCard.split t, ∀ s ∈ email.split r, ∀ u ∈ (phone.split s).tail,
    phone.matchAt none u = none

theorem redact_phone (t : JsString) : phone.Clean (redact t).text ↔ PhonesApart t := by
  rw [clean_redact phone_passesOver]
  simp only [Pattern.split_self phone_endsApart]
  rfl

theorem redact_findings (t : JsString) : (redact t).findings = [] ↔
    creditCard.Clean t ∧ email.Clean t ∧ phone.Clean t := by
  simp only [redact, RULES, List.foldl_cons, List.foldl_nil, applyRule_findings, applyRule_text,
    true_and]
  constructor
  · intro ⟨⟨hcard, hemail⟩, hphone⟩
    rw [Pattern.replaceAll_of_clean hcard] at hemail hphone
    rw [Pattern.replaceAll_of_clean hemail] at hphone
    exact ⟨hcard, hemail, hphone⟩
  · intro ⟨hcard, hemail, hphone⟩
    rw [Pattern.replaceAll_of_clean hcard, Pattern.replaceAll_of_clean hemail]
    exact ⟨⟨hcard, hemail⟩, hphone⟩

theorem redact_of_clean {t : JsString} (hcard : creditCard.Clean t) (hemail : email.Clean t)
    (hphone : phone.Clean t) : (redact t).text = t := by
  simp only [redact, RULES, List.foldl_cons, List.foldl_nil, applyRule_text]
  rw [Pattern.replaceAll_of_clean hcard, Pattern.replaceAll_of_clean hemail,
    Pattern.replaceAll_of_clean hphone]

/-- A second redaction changes nothing and finds nothing. -/
def Settled (t : JsString) : Prop :=
  (redact (redact t).text).text = (redact t).text ∧ (redact (redact t).text).findings = []

theorem settled_iff (t : JsString) : Settled t ↔ PhonesApart t := by
  rw [← redact_phone]
  constructor
  · intro h
    exact ((redact_findings _).mp h.2).2.2
  · intro h
    constructor
    · exact redact_of_clean (redact_creditCard t) (redact_email t) h
    · exact (redact_findings _).mpr ⟨redact_creditCard t, redact_email t, h⟩

/-- Behind the first number, the second one was not looked at. -/
theorem exposed_phone : ¬ Settled (js "1234567+15551234567") := by
  intro h
  have hnone : (redact (redact (js "1234567+15551234567")).text).findings ≠ [] := by
    decide +kernel
  exact hnone h.2

end ModelForge.PiiRedaction
