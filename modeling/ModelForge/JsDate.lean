import Mathlib

set_option autoImplicit false

/-!
# Dates as ISO strings

`Date.prototype.toISOString` of a time in milliseconds. Different times have
different strings, and no string has a blank in it.
-/
namespace ModelForge.JsDate

/-! ## The calendar -/

/-- The days from 1970 to the start of a year. -/
def dayFromYear (year : ℤ) : ℤ :=
  365 * (year - 1970) + (year - 1969) / 4 - (year - 1901) / 100 + (year - 1601) / 400

/-- The year of a day: 400 years have 146097 days, so the estimate is off by one at most. -/
def yearFromDay (day : ℤ) : ℤ :=
  let year := 1970 + day * 400 / 146097
  if day < dayFromYear year then year - 1
  else if dayFromYear (year + 1) ≤ day then year + 1
  else year

theorem yearFromDay_spec (day : ℤ) :
    dayFromYear (yearFromDay day) ≤ day ∧ day < dayFromYear (yearFromDay day + 1) := by
  have hbelow : dayFromYear (1970 + day * 400 / 146097 - 1) ≤ day := by
    unfold dayFromYear
    omega
  have habove : day < dayFromYear (1970 + day * 400 / 146097 + 1 + 1) := by
    unfold dayFromYear
    omega
  unfold yearFromDay
  dsimp only
  split
  · rename_i hlt
    rw [Int.sub_add_cancel]
    exact ⟨hbelow, hlt⟩
  · rename_i hle
    split
    · rename_i hnext
      exact ⟨hnext, habove⟩
    · rename_i hlast
      exact ⟨not_lt.mp hle, not_le.mp hlast⟩

def isLeap (year : ℤ) : Bool := dayFromYear (year + 1) - dayFromYear year = 366

/-- The first day of each month in its year. -/
def monthStarts (leap : Bool) : List ℤ :=
  if leap then [0, 31, 60, 91, 121, 152, 182, 213, 244, 274, 305, 335]
  else [0, 31, 59, 90, 120, 151, 181, 212, 243, 273, 304, 334]

def monthStart (leap : Bool) (month : ℕ) : ℤ := (monthStarts leap).getD month 0

/-- The last month that has started. -/
def monthFromDay (leap : Bool) (dayInYear : ℤ) : ℕ :=
  ((List.range 12).reverse.find? fun month => monthStart leap month ≤ dayInYear).getD 0

theorem monthStart_le (leap : Bool) {dayInYear : ℤ} (h : 0 ≤ dayInYear) :
    monthStart leap (monthFromDay leap dayInYear) ≤ dayInYear := by
  unfold monthFromDay
  cases hfound : (List.range 12).reverse.find? fun month => monthStart leap month ≤ dayInYear with
  | none =>
    have hzero : monthStart leap 0 = 0 := by cases leap <;> rfl
    rw [Option.getD_none, hzero]
    exact h
  | some month =>
    have hstarted := List.find?_some hfound
    exact of_decide_eq_true hstarted

/-- The parts of a time in its order of writing. -/
structure Fields where
  year : ℤ
  month : ℕ
  date : ℕ
  hours : ℕ
  minutes : ℕ
  seconds : ℕ
  milliseconds : ℕ
  deriving DecidableEq, Repr

def fields (time : ℤ) : Fields :=
  let day := time / 86400000
  let inDay := (time % 86400000).toNat
  let year := yearFromDay day
  let dayInYear := day - dayFromYear year
  let month := monthFromDay (isLeap year) dayInYear
  { year := year
    month := month + 1
    date := (dayInYear - monthStart (isLeap year) month).toNat + 1
    hours := inDay / 3600000
    minutes := inDay / 60000 % 60
    seconds := inDay / 1000 % 60
    milliseconds := inDay % 1000 }

example : fields 951782400000 = ⟨2000, 2, 29, 0, 0, 0, 0⟩ := by decide +kernel

/-- The day of a year, month and date, and the time of the other fields in it. -/
def timeOf (f : Fields) : ℤ :=
  (dayFromYear f.year + monthStart (isLeap f.year) (f.month - 1) + (f.date - 1)) * 86400000 +
    (((f.hours * 60 + f.minutes) * 60 + f.seconds) * 1000 + f.milliseconds : ℕ)

theorem timeOf_fields (time : ℤ) : timeOf (fields time) = time := by
  obtain ⟨hyear, -⟩ := yearFromDay_spec (time / 86400000)
  have hmonth := monthStart_le (isLeap (yearFromDay (time / 86400000))) (Int.sub_nonneg.mpr hyear)
  simp only [timeOf, fields, Nat.add_sub_cancel]
  generalize monthStart _ _ = start at *
  generalize dayFromYear _ = first at *
  omega

theorem fields_injective : Function.Injective fields :=
  Function.LeftInverse.injective timeOf_fields

/-! ## The string -/

/-- A number with zeros in front up to a width. -/
def pad (width n : ℕ) : List Char := (Nat.toDigits 10 n).leftpad width '0'

theorem isDigit_pad {width n : ℕ} {c : Char} (hc : c ∈ pad width n) : c.isDigit = true := by
  rcases List.mem_append.mp hc with hzero | hdigit
  · rw [(List.mem_replicate.mp hzero).2]
    rfl
  · exact Nat.isDigit_of_mem_toDigits (by decide) (by decide) hdigit

theorem ofDigitChars_pad (width n : ℕ) : Nat.ofDigitChars 10 (pad width n) 0 = n := by
  rw [pad, List.leftpad, Nat.ofDigitChars_append, Nat.ofDigitChars_replicate_zero, Nat.mul_zero,
    Nat.ofDigitChars_ten_toDigits]

theorem pad_injective (width : ℕ) : Function.Injective (pad width) := fun n m h => by
  rw [← ofDigitChars_pad width n, h, ofDigitChars_pad]

/-- A run of one kind of characters ends where one of another kind stands. -/
theorem run_cancel {p : Char → Bool} {xs ys rest rest' : List Char} {c c' : Char}
    (hxs : ∀ x ∈ xs, p x = true) (hys : ∀ y ∈ ys, p y = true) (hc : p c = false) (hc' : p c' = false)
    (h : xs ++ c :: rest = ys ++ c' :: rest') : xs = ys ∧ rest = rest' := by
  have htake := congrArg (List.takeWhile p) h
  rw [List.takeWhile_append_of_pos hxs, List.takeWhile_append_of_pos hys,
    List.takeWhile_cons_of_neg (by simp [hc]), List.takeWhile_cons_of_neg (by simp [hc']),
    List.append_nil, List.append_nil] at htake
  subst htake
  exact ⟨rfl, (List.cons.inj (List.append_cancel_left h)).2⟩

theorem pad_cancel {width n m : ℕ} {c c' : Char} {rest rest' : List Char} (hc : c.isDigit = false)
    (hc' : c'.isDigit = false) (h : pad width n ++ c :: rest = pad width m ++ c' :: rest') :
    n = m ∧ rest = rest' := by
  obtain ⟨hpad, hrest⟩ := run_cancel (fun _ => isDigit_pad) (fun _ => isDigit_pad) hc hc' h
  exact ⟨pad_injective width hpad, hrest⟩

/-- Four digits, or a sign and six. -/
def yearText (year : ℤ) : List Char :=
  if year < 0 then '-' :: pad 6 year.natAbs
  else if 9999 < year then '+' :: pad 6 year.natAbs
  else pad 4 year.natAbs

/-- The text from the month on. -/
def restText (f : Fields) : List Char :=
  pad 2 f.month ++ '-' :: (pad 2 f.date ++ 'T' :: (pad 2 f.hours ++ ':' :: (pad 2 f.minutes ++ ':' ::
    (pad 2 f.seconds ++ '.' :: (pad 3 f.milliseconds ++ ['Z'])))))

def toISOString (time : ℤ) : String :=
  String.ofList (yearText (fields time).year ++ '-' :: restText (fields time))

example : toISOString 1760000000123 = "2025-10-09T08:53:20.123Z" := by decide +kernel

theorem head_pad_append {width n : ℕ} {rest : List Char} {c : Char} (hwidth : 0 < width)
    (h : (pad width n ++ rest).head? = some c) : c.isDigit = true := by
  cases hpad : pad width n with
  | nil =>
    have hlength := congrArg List.length hpad
    rw [pad, List.length_leftpad, List.length_nil] at hlength
    omega
  | cons d ds =>
    rw [hpad, List.cons_append, List.head?_cons, Option.some.injEq] at h
    exact h ▸ isDigit_pad (hpad ▸ List.mem_cons_self)

theorem yearText_cancel {year year' : ℤ} {rest rest' : List Char}
    (h : yearText year ++ '-' :: rest = yearText year' ++ '-' :: rest') :
    year = year' ∧ rest = rest' := by
  have hdigit : ∀ {n : ℕ} {c : Char} {tail tail' : List Char}, c.isDigit = false →
      pad 4 n ++ tail ≠ c :: tail' := by
    intro n c tail tail' hc heq
    have hhead := head_pad_append (by decide) (congrArg List.head? heq)
    rw [hc] at hhead
    cases hhead
  have hsigned : ∀ {n m : ℕ} {c : Char}, c :: pad 6 n ++ '-' :: rest = c :: pad 6 m ++ '-' :: rest' →
      n = m ∧ rest = rest' := fun heq => pad_cancel (by decide) (by decide) (List.cons.inj heq).2
  unfold yearText at h
  rcases lt_or_ge year 0 with hneg | hpos
  · rw [if_pos hneg] at h
    rcases lt_or_ge year' 0 with hneg' | hpos'
    · rw [if_pos hneg'] at h
      obtain ⟨habs, hrest⟩ := hsigned h
      exact ⟨by omega, hrest⟩
    · rw [if_neg (by omega)] at h
      split at h
      · exact absurd (List.cons.inj h).1 (by decide)
      · exact absurd h.symm (hdigit (by decide))
  · rw [if_neg (by omega)] at h
    rcases lt_or_ge year' 0 with hneg' | hpos'
    · rw [if_pos hneg'] at h
      split at h
      · exact absurd (List.cons.inj h).1 (by decide)
      · exact absurd h (hdigit (by decide))
    · rw [if_neg (by omega : ¬ year' < 0)] at h
      split at h <;> split at h
      · obtain ⟨habs, hrest⟩ := hsigned h
        exact ⟨by omega, hrest⟩
      · exact absurd h.symm (hdigit (by decide))
      · exact absurd h (hdigit (by decide))
      · obtain ⟨habs, hrest⟩ := pad_cancel (by decide) (by decide) h
        exact ⟨by omega, hrest⟩

theorem restText_injective {f f' : Fields} (h : restText f = restText f') :
    f.month = f'.month ∧ f.date = f'.date ∧ f.hours = f'.hours ∧ f.minutes = f'.minutes ∧
      f.seconds = f'.seconds ∧ f.milliseconds = f'.milliseconds := by
  obtain ⟨hmonth, h⟩ := pad_cancel (by decide) (by decide) h
  obtain ⟨hdate, h⟩ := pad_cancel (by decide) (by decide) h
  obtain ⟨hhours, h⟩ := pad_cancel (by decide) (by decide) h
  obtain ⟨hminutes, h⟩ := pad_cancel (by decide) (by decide) h
  obtain ⟨hseconds, h⟩ := pad_cancel (by decide) (by decide) h
  obtain ⟨hmilliseconds, -⟩ := pad_cancel (by decide) (by decide) h
  exact ⟨hmonth, hdate, hhours, hminutes, hseconds, hmilliseconds⟩

theorem toISOString_injective : Function.Injective toISOString := by
  intro time time' h
  obtain ⟨hyear, hrest⟩ := yearText_cancel (String.ofList_injective h)
  obtain ⟨hmonth, hdate, hhours, hminutes, hseconds, hmilliseconds⟩ := restText_injective hrest
  apply fields_injective
  cases hf : fields time
  cases hf' : fields time'
  simp_all

theorem blank_notMem_toISOString (time : ℤ) : ' ' ∉ (toISOString time).toList := by
  have hpad : ∀ width n, ' ' ∉ pad width n := fun width n hmem =>
    absurd (isDigit_pad hmem) (by decide)
  have hyear : ' ' ∉ yearText (fields time).year := by
    unfold yearText
    split_ifs <;> simp [hpad]
  rw [toISOString, String.toList_ofList]
  simp [restText, hpad, hyear]

/-- A date after a blank ends a text in one way only. -/
theorem append_toISOString_cancel {xs ys : List Char} {time time' : ℤ}
    (h : xs ++ ' ' :: (toISOString time).toList = ys ++ ' ' :: (toISOString time').toList) :
    xs = ys ∧ time = time' := by
  have hreverse := congrArg List.reverse h
  simp only [List.reverse_append, List.reverse_cons, List.append_assoc, List.singleton_append] at hreverse
  have hplain : ∀ time, ∀ c ∈ (toISOString time).toList.reverse, decide (c ≠ ' ') = true := by
    intro time c hc
    refine decide_eq_true ?_
    rintro rfl
    exact blank_notMem_toISOString time (List.mem_reverse.mp hc)
  obtain ⟨hdate, hrest⟩ := run_cancel (hplain time) (hplain time') (by simp) (by simp) hreverse
  exact ⟨List.reverse_injective hrest,
    toISOString_injective (String.toList_injective (List.reverse_injective hdate))⟩

end ModelForge.JsDate
