import Uno.Core.Text
import Uno.Core.Time
import Uno.Lib.Calendar
import Uno.Lib.FixedDigits
import Uno.Lib.Fold

/-!
# Timestamps and their texts

`DateTime` is the `_ts` of a `Timestamp`: a moment in UTC, by its date and its time of day. Its text is read back
as it was (`parse_format`), and texts are ordered as the moments (`format_lt_iff`). Two timestamps are compared by
their times of day alone, so that all of this is consistent only for timestamps of one date, or of different times
of day (`timestamp_consistent_iff`).
-/

namespace Uno

open Calendar (IsDate ordinal)

structure DateTime where
  year : ℕ
  month : ℕ
  day : ℕ
  hour : ℕ
  minute : ℕ
  second : ℕ
  microsecond : ℕ
  isDate : IsDate year month day
  year_le : year ≤ 9999
  hour_lt : hour < 24
  minute_lt : minute < 60
  second_lt : second < 60
  microsecond_lt : microsecond < 10 ^ 6
  deriving DecidableEq

namespace DateTime

def date (a : DateTime) : ℕ × ℕ × ℕ := (a.year, a.month, a.day)

/-- `timetz()`; the zone is UTC. -/
def timetz (a : DateTime) : ℕ × ℕ × ℕ × ℕ := (a.hour, a.minute, a.second, a.microsecond)

/-- The microseconds since midnight. -/
def sinceMidnight (a : DateTime) : ℕ := ((a.hour * 60 + a.minute) * 60 + a.second) * 10 ^ 6 + a.microsecond

/-- The moment, in microseconds. -/
def instant (a : DateTime) : ℕ := ordinal a.year a.month a.day * Timestamp.microsPerDay + a.sinceMidnight

/-- `__eq__`. -/
def eq (a b : DateTime) : Bool := a.timetz = b.timetz

/-- `__hash__`: `hash` of a moment in UTC. -/
def hash (momentHash : ℕ → ℤ) (a : DateTime) : ℤ := momentHash a.instant

/-- `format()`, by `%Y%m%d-%H%M%S-%f`; the year is not padded. -/
def format (a : DateTime) : Text :=
  dec a.year ++ (fixedDigits 2 a.month ++ (fixedDigits 2 a.day ++ ('-' :: (fixedDigits 2 a.hour ++
    (fixedDigits 2 a.minute ++ (fixedDigits 2 a.second ++ ('-' :: fixedDigits 6 a.microsecond)))))))

/-! ### Parsing -/

/-- A sequence of character classes, as in an alternative of a regular expression. -/
abbrev Pattern := List (Char → Bool)

def lit (c d : Char) : Bool := d = c

def isIn (low high c : Char) : Bool := low ≤ c ∧ c ≤ high

/-- The text that a pattern matches at the start of a text, and the rest of it. -/
def matchPattern : Pattern → Text → Option (Text × Text)
  | [], t => some ([], t)
  | p :: ps, c :: t => if p c then (matchPattern ps t).map fun r => (c :: r.1, r.2) else none
  | _ :: _, [] => none

/-- The matches of the alternatives, in the order in which they are tried. -/
def matchAlts (alts : List Pattern) (t : Text) : List (Text × Text) := alts.filterMap fun p => matchPattern p t

/-- The matches of a sequence of alternatives, in the order in which backtracking finds them. -/
def matchSeq : List (List Pattern) → Text → List (List Text × Text)
  | [], t => [([], t)]
  | alts :: rest, t => (matchAlts alts t).flatMap fun r => (matchSeq rest r.2).map fun s => (r.1 :: s.1, s.2)

def yearAlts : List Pattern := [List.replicate 4 Char.isDigit]

def monthAlts : List Pattern := [[lit '1', isIn '0' '2'], [lit '0', isIn '1' '9'], [isIn '1' '9']]

def dayAlts : List Pattern :=
  [[lit '3', isIn '0' '1'], [isIn '1' '2', Char.isDigit], [lit '0', isIn '1' '9'], [isIn '1' '9'],
    [lit ' ', isIn '1' '9']]

def hourAlts : List Pattern := [[lit '2', isIn '0' '3'], [isIn '0' '1', Char.isDigit], [Char.isDigit]]

def minuteAlts : List Pattern := [[isIn '0' '5', Char.isDigit], [Char.isDigit]]

def secondAlts : List Pattern := [[lit '6', isIn '0' '1'], [isIn '0' '5', Char.isDigit], [Char.isDigit]]

def dashAlts : List Pattern := [[lit '-']]

def microsecondAlts : List Pattern := (List.range 6).map fun i => List.replicate (6 - i) Char.isDigit

/-- The regular expression of `DEFAULT_FORMAT`. -/
def defaultFormat : List (List Pattern) :=
  [yearAlts, monthAlts, dayAlts, dashAlts, hourAlts, minuteAlts, secondAlts, dashAlts, microsecondAlts]

/-- `int(text)`; the text of a day may start with a blank. -/
def fieldValue (text : Text) : Result ℕ := pyInt (text.dropWhile (· = ' '))

/-- `datetime(…)`. -/
def ofFields (year month day hour minute second microsecond : ℕ) : Result DateTime :=
  if h : IsDate year month day ∧ year ≤ 9999 ∧ hour < 24 ∧ minute < 60 ∧ second < 60 ∧ microsecond < 10 ^ 6 then
    .ok ⟨year, month, day, hour, minute, second, microsecond, h.1, h.2.1, h.2.2.1, h.2.2.2.1, h.2.2.2.2.1,
      h.2.2.2.2.2⟩
  else .error (.value "day is out of range for month")

/-- The fields that the default format matched; a fraction is padded to microseconds. -/
def ofTexts : List Text → Result DateTime
  | [year, month, day, _, hour, minute, second, _, fraction] => do
    ofFields (← fieldValue year) (← fieldValue month) (← fieldValue day) (← fieldValue hour) (← fieldValue minute)
      (← fieldValue second) (← fieldValue (fraction ++ List.replicate (6 - fraction.length) '0'))
  | _ => .error (.value "does not match format")

/-- `Timestamp.parse(val)`, by `strptime`, for texts in ASCII. -/
def parse (val : Text) : Result DateTime :=
  match (matchSeq defaultFormat val).head? with
  | none => .error (.value "does not match format")
  | some (texts, []) => ofTexts texts
  | some (_, _ :: _) => .error (.value "unconverted data remains")

/-! ### Reading a text back -/

/-- The first match of the alternatives at a text is the whole text, whatever follows it. -/
def Reads (alts : List Pattern) (x : Text) : Prop := ∀ t, (matchAlts alts (x ++ t)).head? = some (x, t)

theorem head?_flatMap {α β : Type} {f : α → List β} {l : List α} {a : α} {b : β} (hl : l.head? = some a)
    (hf : (f a).head? = some b) : (l.flatMap f).head? = some b := by
  cases l with
  | nil => cases hl
  | cons a' l =>
    obtain rfl : a' = a := Option.some.inj hl
    rw [List.flatMap_cons, List.head?_append, hf]
    rfl

theorem head?_matchSeq {alts : List (List Pattern)} {xs : List Text} (h : List.Forall₂ Reads alts xs) (t : Text) :
    (matchSeq alts (xs.flatten ++ t)).head? = some (xs, t) := by
  induction h with
  | nil => rfl
  | @cons a x alts xs hread _ ih =>
    rw [List.flatten_cons, List.append_assoc, matchSeq]
    refine head?_flatMap (hread _) ?_
    rw [List.head?_map, ih]
    rfl

theorem matchPattern_append {p : Pattern} {x : Text} (h : p.length ≤ x.length) (t : Text) :
    matchPattern p (x ++ t) = (matchPattern p x).map fun r => (r.1, r.2 ++ t) := by
  induction p generalizing x with
  | nil => rfl
  | cons q p ih =>
    cases x with
    | nil => cases h
    | cons c x =>
      rw [List.cons_append, matchPattern, matchPattern, ih (Nat.le_of_succ_le_succ h)]
      split_ifs
      · rw [Option.map_map, Option.map_map]
        rfl
      · rfl

/-- What the alternatives read of a text, when none is longer, they read of every text that starts with it. -/
theorem reads_of_head? {alts : List Pattern} {x : Text} (hlen : ∀ p ∈ alts, p.length ≤ x.length)
    (h : (matchAlts alts x).head? = some (x, [])) : Reads alts x := by
  intro t
  have hmap : matchAlts alts (x ++ t) = (matchAlts alts x).map fun r => (r.1, r.2 ++ t) := by
    unfold matchAlts
    rw [List.map_filterMap]
    exact List.filterMap_congr fun p hp => matchPattern_append (hlen p hp) t
  rw [hmap, List.head?_map, h]
  rfl

theorem matchPattern_digits {w : ℕ} {x : Text} (hlen : x.length = w) (hdigits : ∀ c ∈ x, c.isDigit = true) :
    matchPattern (List.replicate w Char.isDigit) x = some (x, []) := by
  subst hlen
  induction x with
  | nil => rfl
  | cons c x ih =>
    rw [List.length_cons, List.replicate_succ, matchPattern, if_pos (hdigits c List.mem_cons_self),
      ih fun d hd => hdigits d (List.mem_cons_of_mem c hd)]
    rfl

theorem reads_year (n : ℕ) : Reads yearAlts (fixedDigits 4 n) := by
  refine reads_of_head? (by simp [yearAlts]) ?_
  have hmatch := matchPattern_digits (length_fixedDigits 4 n) fun c => isDigit_of_mem_fixedDigits
  rw [matchAlts, yearAlts, List.filterMap_cons, hmatch]
  rfl

theorem reads_microsecond (n : ℕ) : Reads microsecondAlts (fixedDigits 6 n) := by
  refine reads_of_head? ?_ ?_
  · intro p hp
    obtain ⟨i, -, rfl⟩ := List.mem_map.mp hp
    rw [List.length_replicate, length_fixedDigits]
    omega
  · have hmatch := matchPattern_digits (length_fixedDigits 6 n) fun c => isDigit_of_mem_fixedDigits
    show (List.filterMap _ (List.replicate 6 Char.isDigit :: _)).head? = _
    rw [List.filterMap_cons, hmatch]
    rfl

theorem reads_dash : Reads dashAlts ['-'] := reads_of_head? (by decide) (by decide)

theorem reads_month {n : ℕ} (h : 1 ≤ n) (hle : n ≤ 12) : Reads monthAlts (fixedDigits 2 n) := by
  have hall : ∀ m : Fin 13, 1 ≤ m.val →
      (matchAlts monthAlts (fixedDigits 2 m.val)).head? = some (fixedDigits 2 m.val, []) := by decide
  exact reads_of_head? (by simp [monthAlts]) (hall ⟨n, by omega⟩ h)

theorem reads_day {n : ℕ} (h : 1 ≤ n) (hle : n ≤ 31) : Reads dayAlts (fixedDigits 2 n) := by
  have hall : ∀ m : Fin 32, 1 ≤ m.val →
      (matchAlts dayAlts (fixedDigits 2 m.val)).head? = some (fixedDigits 2 m.val, []) := by decide
  exact reads_of_head? (by simp [dayAlts]) (hall ⟨n, by omega⟩ h)

theorem reads_hour {n : ℕ} (h : n < 24) : Reads hourAlts (fixedDigits 2 n) := by
  have hall : ∀ m : Fin 24,
      (matchAlts hourAlts (fixedDigits 2 m.val)).head? = some (fixedDigits 2 m.val, []) := by decide
  exact reads_of_head? (by simp [hourAlts]) (hall ⟨n, h⟩)

theorem reads_minute {n : ℕ} (h : n < 60) : Reads minuteAlts (fixedDigits 2 n) := by
  have hall : ∀ m : Fin 60,
      (matchAlts minuteAlts (fixedDigits 2 m.val)).head? = some (fixedDigits 2 m.val, []) := by decide
  exact reads_of_head? (by simp [minuteAlts]) (hall ⟨n, h⟩)

theorem reads_second {n : ℕ} (h : n < 60) : Reads secondAlts (fixedDigits 2 n) := by
  have hall : ∀ m : Fin 60,
      (matchAlts secondAlts (fixedDigits 2 m.val)).head? = some (fixedDigits 2 m.val, []) := by decide
  exact reads_of_head? (by simp [secondAlts]) (hall ⟨n, h⟩)

theorem fieldValue_fixedDigits {w n : ℕ} (hw : w ≠ 0) (h : n < 10 ^ w) : fieldValue (fixedDigits w n) = .ok n := by
  have hdrop : (fixedDigits w n).dropWhile (fun c => decide (c = ' ')) = fixedDigits w n := by
    refine List.dropWhile_eq_self_iff.mpr fun hpos hblank => ?_
    have hdigit := isDigit_of_mem_fixedDigits (List.getElem_mem hpos)
    rw [of_decide_eq_true hblank] at hdigit
    cases hdigit
  have hne : fixedDigits w n ≠ [] := fun hnil => hw (by rw [← length_fixedDigits w n, hnil]; rfl)
  rw [fieldValue, hdrop, pyInt, if_pos ⟨hne, List.all_eq_true.mpr fun c => isDigit_of_mem_fixedDigits⟩,
    ofDigitChars_fixedDigits h]

/-! ### Texts and moments -/

section texts
variable {a b : DateTime}

theorem dec_year (h : 1000 ≤ a.year) : dec a.year = fixedDigits 4 a.year :=
  toDigits_eq_fixedDigits h (Nat.lt_succ_of_le a.year_le)

theorem month_bounds (a : DateTime) : 1 ≤ a.month ∧ a.month ≤ 12 := ⟨a.isDate.2.1, a.isDate.2.2.1⟩

theorem day_bounds (a : DateTime) : 1 ≤ a.day ∧ a.day ≤ 31 :=
  ⟨a.isDate.2.2.2.1, a.isDate.2.2.2.2.trans (Calendar.daysInMonth_le _ _)⟩

/-- The texts of the fields, in the order of the default format. -/
def fieldTexts (a : DateTime) : List Text :=
  [fixedDigits 4 a.year, fixedDigits 2 a.month, fixedDigits 2 a.day, ['-'], fixedDigits 2 a.hour,
    fixedDigits 2 a.minute, fixedDigits 2 a.second, ['-'], fixedDigits 6 a.microsecond]

theorem format_eq (h : 1000 ≤ a.year) : a.format = a.fieldTexts.flatten := by
  rw [format, dec_year h, fieldTexts]
  simp only [List.flatten_cons, List.flatten_nil, List.append_nil, List.cons_append, List.nil_append]

theorem reads_fieldTexts (a : DateTime) : List.Forall₂ Reads defaultFormat a.fieldTexts := by
  have hmonth := a.month_bounds
  have hday := a.day_bounds
  exact .cons (reads_year _) (.cons (reads_month hmonth.1 hmonth.2) (.cons (reads_day hday.1 hday.2)
    (.cons reads_dash (.cons (reads_hour a.hour_lt) (.cons (reads_minute a.minute_lt)
      (.cons (reads_second a.second_lt) (.cons reads_dash (.cons (reads_microsecond _) .nil))))))))

theorem ofTexts_fieldTexts (a : DateTime) : ofTexts a.fieldTexts = .ok a := by
  have hyear := a.year_le
  have hmonth := a.month_bounds
  have hday := a.day_bounds
  have hhour := a.hour_lt
  have hminute := a.minute_lt
  have hsecond := a.second_lt
  have hmicro := a.microsecond_lt
  have hpad : fixedDigits 6 a.microsecond ++ List.replicate (6 - (fixedDigits 6 a.microsecond).length) '0' =
      fixedDigits 6 a.microsecond := by
    rw [length_fixedDigits]
    exact List.append_nil _
  rw [fieldTexts, ofTexts, hpad, fieldValue_fixedDigits (by decide) (by omega : a.year < 10 ^ 4),
    fieldValue_fixedDigits (by decide) (by omega : a.month < 10 ^ 2),
    fieldValue_fixedDigits (by decide) (by omega : a.day < 10 ^ 2),
    fieldValue_fixedDigits (by decide) (by omega : a.hour < 10 ^ 2),
    fieldValue_fixedDigits (by decide) (by omega : a.minute < 10 ^ 2),
    fieldValue_fixedDigits (by decide) (by omega : a.second < 10 ^ 2),
    fieldValue_fixedDigits (by decide) hmicro]
  show ofFields a.year a.month a.day a.hour a.minute a.second a.microsecond = _
  exact dif_pos ⟨a.isDate, hyear, hhour, hminute, hsecond, hmicro⟩

theorem parse_format (h : 1000 ≤ a.year) : parse a.format = .ok a := by
  have hmatch := head?_matchSeq a.reads_fieldTexts []
  rw [List.append_nil] at hmatch
  rw [parse, format_eq h, hmatch]
  exact a.ofTexts_fieldTexts

theorem format_inj (ha : 1000 ≤ a.year) (hb : 1000 ≤ b.year) : a.format = b.format ↔ a = b := by
  constructor
  · intro h
    have hok : (Except.ok a : Result DateTime) = .ok b := by rw [← parse_format ha, h, parse_format hb]
    exact Except.ok.inj hok
  · rintro rfl
    rfl

/-- The order of the fields, the most significant one first. -/
def Before (a b : DateTime) : Prop :=
  a.year < b.year ∨ a.year = b.year ∧ (a.month < b.month ∨ a.month = b.month ∧ (a.day < b.day ∨ a.day = b.day ∧
    (a.hour < b.hour ∨ a.hour = b.hour ∧ (a.minute < b.minute ∨ a.minute = b.minute ∧
      (a.second < b.second ∨ a.second = b.second ∧ a.microsecond < b.microsecond)))))

theorem before_or_before (h : a ≠ b) : a.Before b ∨ b.Before a := by
  by_contra hnone
  unfold Before at hnone
  obtain ⟨⟩ := a
  obtain ⟨⟩ := b
  simp only at hnone
  apply h
  congr 1 <;> omega

theorem sinceMidnight_lt (a : DateTime) : a.sinceMidnight < Timestamp.microsPerDay := by
  have hhour := a.hour_lt
  have hminute := a.minute_lt
  have hsecond := a.second_lt
  have hmicro := a.microsecond_lt
  unfold sinceMidnight Timestamp.microsPerDay Timestamp.microsPerSecond
  omega

theorem instant_lt_of_before (h : a.Before b) : a.instant < b.instant := by
  have hmidnight := a.sinceMidnight_lt
  have hdates : ordinal a.year a.month a.day < ordinal b.year b.month b.day → a.instant < b.instant := by
    intro hlt
    have hmul := Nat.mul_le_mul_right Timestamp.microsPerDay hlt
    rw [Nat.succ_mul] at hmul
    unfold instant
    omega
  have hdate := Calendar.ordinal_lt a.isDate b.isDate
  rcases h with hyear | ⟨hyear, hmonth | ⟨hmonth, hday | ⟨hday, htime⟩⟩⟩
  · exact hdates (hdate (.inl hyear))
  · exact hdates (hdate (.inr ⟨hyear, .inl hmonth⟩))
  · exact hdates (hdate (.inr ⟨hyear, .inr ⟨hmonth, hday⟩⟩))
  · have htimes : a.sinceMidnight < b.sinceMidnight := by
      have hminute := a.minute_lt
      have hsecond := a.second_lt
      have hmicro := a.microsecond_lt
      unfold sinceMidnight
      omega
    unfold instant
    rw [hyear, hmonth, hday]
    omega

theorem instant_lt_iff : a.instant < b.instant ↔ a.Before b := by
  refine ⟨fun hlt => ?_, instant_lt_of_before⟩
  have hne : a ≠ b := fun heq => lt_irrefl _ (heq ▸ hlt)
  exact (before_or_before hne).resolve_right fun hbefore => lt_asymm hlt (instant_lt_of_before hbefore)

theorem instant_inj : a.instant = b.instant ↔ a = b := by
  constructor
  · intro h
    by_contra hne
    rcases before_or_before hne with hbefore | hbefore
    · exact Nat.ne_of_lt (instant_lt_of_before hbefore) h
    · exact Nat.ne_of_gt (instant_lt_of_before hbefore) h
  · rintro rfl
    rfl

theorem format_lt_iff (ha : 1000 ≤ a.year) (hb : 1000 ≤ b.year) : a.format < b.format ↔ a.instant < b.instant := by
  have hyears := And.intro a.year_le b.year_le
  have hmonths := And.intro a.month_bounds.2 b.month_bounds.2
  have hdays := And.intro a.day_bounds.2 b.day_bounds.2
  have hhours := And.intro a.hour_lt b.hour_lt
  have hminutes := And.intro a.minute_lt b.minute_lt
  have hseconds := And.intro a.second_lt b.second_lt
  have hdash : ∀ u v : Text, '-' :: u < '-' :: v ↔ u < v := fun u v => by
    rw [List.cons_lt_cons_iff]
    simp
  rw [instant_lt_iff, format, format, dec_year ha, dec_year hb, fixedDigits_append_lt_iff (by omega) (by omega),
    fixedDigits_append_lt_iff (by omega) (by omega), fixedDigits_append_lt_iff (by omega) (by omega), hdash,
    fixedDigits_append_lt_iff (by omega) (by omega), fixedDigits_append_lt_iff (by omega) (by omega),
    fixedDigits_append_lt_iff (by omega) (by omega), hdash, fixedDigits_lt_iff a.microsecond_lt b.microsecond_lt]
  rfl

theorem eq_iff : a.eq b = true ↔ a.timetz = b.timetz := decide_eq_true_iff

theorem ext_iff_date_timetz : a = b ↔ a.date = b.date ∧ a.timetz = b.timetz := by
  constructor
  · rintro rfl
    exact ⟨rfl, rfl⟩
  · rintro ⟨hdate, htime⟩
    obtain ⟨⟩ := a
    obtain ⟨⟩ := b
    simp only [date, timetz, Prod.mk.injEq] at hdate htime
    obtain ⟨rfl, rfl, rfl⟩ := hdate
    obtain ⟨rfl, rfl, rfl, rfl⟩ := htime
    rfl

/-! ### Consistency -/

/-- Equality, hashes, texts and their order fit together. -/
structure Consistent (momentHash : ℕ → ℤ) (a b : DateTime) : Prop where
  eq_iff_instant : a.eq b = true ↔ a.instant = b.instant
  instant_iff_format : a.instant = b.instant ↔ a.format = b.format
  hash_eq : a.eq b = true → a.hash momentHash = b.hash momentHash
  parse_format : ∃ c, parse a.format = .ok c ∧ c.eq a = true ∧ c.instant = a.instant
  format_lt_iff : a.format < b.format ↔ a.instant < b.instant

/-- Timestamps are consistent exactly when they have one date or different times of day. -/
theorem timestamp_consistent_iff (momentHash : ℕ → ℤ) (ha : 1000 ≤ a.year) (hb : 1000 ≤ b.year) :
    Consistent momentHash a b ↔ a.date = b.date ∨ a.timetz ≠ b.timetz := by
  constructor
  · intro h
    by_cases htime : a.timetz = b.timetz
    · have hsame := instant_inj.mp (h.eq_iff_instant.mp (eq_iff.mpr htime))
      exact .inl (hsame ▸ rfl)
    · exact .inr htime
  · intro h
    have heq : a.eq b = true ↔ a.instant = b.instant := by
      rw [eq_iff, instant_inj, ext_iff_date_timetz]
      tauto
    refine ⟨heq, ?_, fun hab => congrArg momentHash (heq.mp hab), ⟨a, DateTime.parse_format ha, eq_iff.mpr rfl, rfl⟩,
      DateTime.format_lt_iff ha hb⟩
    rw [instant_inj, format_inj ha hb]

end texts

/-- Noon of a day of January 2024. -/
def noon (day : ℕ) (h : 1 ≤ day ∧ day ≤ 31) : DateTime :=
  ⟨2024, 1, day, 12, 0, 0, 0, ⟨by omega, by omega, by omega, h.1, h.2⟩, by omega, by omega, by omega, by omega, by omega⟩

def newYearsEve : DateTime :=
  ⟨1999, 12, 31, 23, 59, 59, 999999, by decide, by omega, by omega, by omega, by omega, by omega⟩

/-- Two moments a quarter of a century apart, at different times of day. -/
theorem timestamp_consistent_newYearsEve :
    Consistent (fun moment => moment % 2 ^ 61) newYearsEve (noon 1 (by omega)) :=
  (timestamp_consistent_iff _ (by decide) (by decide)).mpr (.inr (by decide))

/-- Noon of two days: equal, but not the same moment. -/
theorem noon_eq_noon :
    (noon 1 (by omega)).eq (noon 2 (by omega)) = true ∧ (noon 1 (by omega)).instant ≠ (noon 2 (by omega)).instant ∧
      ∀ momentHash, ¬ Consistent momentHash (noon 1 (by omega)) (noon 2 (by omega)) := by
  have hne : (noon 1 (by omega)).instant ≠ (noon 2 (by omega)).instant := by decide
  exact ⟨rfl, hne, fun momentHash h => hne (h.eq_iff_instant.mp rfl)⟩

end DateTime

end Uno
