import Mathlib

/-!
# Rtc — the calendar of `cellRtc`

A tick is a number of microseconds since `0001-01-01`.  `tickToDateTime` and `dateTimeToTick` convert it to and from
calendar fields, each with a closed form of its own for the years before a day.
-/

namespace Armsx3.Cell.Rtc

@[ext]
structure DateTime where
  year : Nat
  month : Nat
  day : Nat
  hour : Nat
  minute : Nat
  second : Nat
  microsecond : Nat
  deriving DecidableEq

def isLeapYear (year : Nat) : Bool := year % 4 == 0 && (year % 100 != 0 || year % 400 == 0)

def daysIn400Years : Nat := 365 * 400 + 97

def daysIn100Years : Nat := 365 * 100 + 24

def daysIn4Years : Nat := 365 * 4 + 1

def daysInMonth (leap : Bool) (i : Nat) : Nat :=
  List.getD (if leap then [31, 29, 31, 30, 31, 30, 31, 31, 30, 31, 30, 31]
    else [31, 28, 31, 30, 31, 30, 31, 31, 30, 31, 30, 31]) i 0

def monthOffset (leap : Bool) (i : Nat) : Nat :=
  List.getD (if leap then [0, 31, 60, 91, 121, 152, 182, 213, 244, 274, 305, 335, 0xffff]
    else [0, 31, 59, 90, 120, 151, 181, 212, 243, 273, 304, 334, 0xffff]) i 0

def ticksInDay : Nat := 24 * 60 * 60 * 1000000

/-- The year of a cycle of 400 years in which its day `days` lies. -/
def yearWithin400 (days : Nat) : Nat :=
  (days - days / (daysIn4Years - 1) + days / daysIn100Years - days / (daysIn400Years - 1)) / 365

def daysInYears (years : Nat) : Nat := years * 365 + years / 4 - years / 100 + years / 400

def monthIndex (leap : Bool) (days : Nat) : Nat :=
  let approx := days / 29
  if days < monthOffset leap approx then approx - 1 else approx

/-- The day number is cut to 32 bits and the year to 16; no subtraction wraps. -/
def tickToDateTime (tick : Nat) : DateTime :=
  let days := tick / ticksInDay % 2 ^ 32
  let year400 := days / daysIn400Years
  let days := days - year400 * daysIn400Years
  let within := yearWithin400 days
  let days := days - daysInYears within
  let years := (year400 * 400 + within + 1) % 2 ^ 16
  let month := monthIndex (isLeapYear years) days
  { year := years
    month := month + 1
    day := days - monthOffset (isLeapYear years) month + 1
    hour := tick / (60 * 60 * 1000000) % 24
    minute := tick / (60 * 1000000) % 60
    second := tick / 1000000 % 60
    microsecond := tick % 1000000 }

def daysInPreviousYears (year : Nat) : Nat :=
  (year * 365 + (year + 3) / 4 - (year + 99) / 100 + (year + 399) / 400 + 2 ^ 32 - 366) % 2 ^ 32

/-- The day number of a date.  A month that does not exist is clamped. -/
def dayNumber (x : DateTime) : Nat :=
  let month := if x.month = 0 then 1 else if 12 < x.month then 12 else x.month
  (daysInPreviousYears x.year + monthOffset (isLeapYear x.year) (month - 1) + x.day + 2 ^ 32 - 1) % 2 ^ 32

def dateTimeToTick (x : DateTime) : Nat :=
  (x.microsecond + x.second * 1000000 + x.minute * 60 * 1000000 + x.hour * 60 * 60 * 1000000
    + dayNumber x * ticksInDay) % 2 ^ 64

inductive Error
  | year
  | month
  | day
  | hour
  | minute
  | second
  | microsecond
  deriving DecidableEq

def checkValid (x : DateTime) : Except Error Unit :=
  if x.year = 0 ∨ 10000 ≤ x.year then .error .year
  else if x.month < 1 ∨ 12 < x.month then .error .month
  else if x.day = 0 ∨ daysInMonth (isLeapYear x.year) (x.month - 1) < x.day then .error .day
  else if 24 ≤ x.hour then .error .hour
  else if 60 ≤ x.minute then .error .minute
  else if 60 ≤ x.second then .error .second
  else if 1000000 ≤ x.microsecond then .error .microsecond
  else .ok ()

/-- `x` is an earlier date and time than `y`: its first field that differs is smaller. -/
def Before (x y : DateTime) : Prop :=
  x.year < y.year ∨ x.year = y.year ∧ (x.month < y.month ∨ x.month = y.month ∧ (x.day < y.day ∨ x.day = y.day ∧
    (x.hour < y.hour ∨ x.hour = y.hour ∧ (x.minute < y.minute ∨ x.minute = y.minute ∧
      (x.second < y.second ∨ x.second = y.second ∧ x.microsecond < y.microsecond)))))

/-- The ticks of the years 1 to 9999 are the ones below it. -/
def tickLimit : Nat := dateTimeToTick ⟨10000, 1, 1, 0, 0, 0, 0⟩

/-- What `checkValid` accepts. -/
structure Valid (x : DateTime) : Prop where
  year : 1 ≤ x.year ∧ x.year < 10000
  month : 1 ≤ x.month ∧ x.month ≤ 12
  day : 1 ≤ x.day ∧ x.day ≤ daysInMonth (isLeapYear x.year) (x.month - 1)
  hour : x.hour < 24
  minute : x.minute < 60
  second : x.second < 60
  microsecond : x.microsecond < 1000000

theorem checkValid_ok {x : DateTime} : checkValid x = .ok () ↔ Valid x := by
  unfold checkValid
  constructor
  · intro h
    split_ifs at h
    constructor <;> omega
  · rintro ⟨_, _, _, _, _, _, _⟩
    repeat rw [if_neg (by omega)]

/-! ## Years -/

theorem yearWithin400_mono {a b : Nat} (h : a ≤ b) : yearWithin400 a ≤ yearWithin400 b := by
  apply Nat.div_le_div_right
  simp only [daysIn4Years, daysIn100Years, daysIn400Years]
  omega

/-- The closed form is right on the first and on the last day of each year of the cycle. -/
theorem yearWithin400_ends : ∀ y < 400, yearWithin400 (daysInYears y) = y ∧
    yearWithin400 (daysInYears (y + 1) - 1) = y := by
  decide +kernel

theorem daysInYears_succ (y : Nat) : daysInYears (y + 1) = daysInYears y + if isLeapYear (y + 1) then 366 else 365 := by
  have h4 : (y + 1) / 4 = y / 4 + if (y + 1) % 4 = 0 then 1 else 0 := by split <;> omega
  have h100 : (y + 1) / 100 = y / 100 + if (y + 1) % 100 = 0 then 1 else 0 := by split <;> omega
  have h400 : (y + 1) / 400 = y / 400 + if (y + 1) % 400 = 0 then 1 else 0 := by split <;> omega
  simp only [daysInYears, isLeapYear, h4, h100, h400, Bool.and_eq_true, Bool.or_eq_true, beq_iff_eq, bne_iff_ne]
  split_ifs <;> omega

theorem daysInYears_mono {a b : Nat} (h : a ≤ b) : daysInYears a ≤ daysInYears b := by
  apply monotone_nat_of_le_succ _ h
  intro y
  rw [daysInYears_succ]
  exact Nat.le_add_right _ _

theorem daysInYears_cycle (q y : Nat) : daysInYears (q * 400 + y) = q * daysIn400Years + daysInYears y := by
  unfold daysInYears daysIn400Years
  omega

/-- Between the two ends the closed form does not move, so it names the year of every day. -/
theorem yearWithin400_year {d : Nat} (h : d < daysIn400Years) :
    yearWithin400 d < 400 ∧ daysInYears (yearWithin400 d) ≤ d ∧ d < daysInYears (yearWithin400 d + 1) := by
  have hlast : yearWithin400 (daysIn400Years - 1) = 399 := (yearWithin400_ends 399 (by decide)).2
  have hy : yearWithin400 d < 400 := by
    have := yearWithin400_mono (show d ≤ daysIn400Years - 1 by omega)
    omega
  refine ⟨hy, ?_, ?_⟩
  · by_contra hlt
    cases hd : yearWithin400 d with
    | zero => exact hlt (hd ▸ Nat.zero_le d)
    | succ y =>
      rw [hd] at hlt hy
      have := yearWithin400_mono (show d ≤ daysInYears (y + 1) - 1 by omega)
      have := (yearWithin400_ends y (by omega)).2
      omega
  · by_contra hge
    rw [Nat.not_lt] at hge
    by_cases h400 : yearWithin400 d + 1 = 400
    · rw [h400] at hge
      exact absurd h (Nat.not_lt.mpr hge)
    · have := yearWithin400_mono hge
      have := (yearWithin400_ends (yearWithin400 d + 1) (by omega)).1
      omega

theorem daysInPreviousYears_eq {year : Nat} (h : 1 ≤ year ∧ year ≤ 10000) :
    daysInPreviousYears year = daysInYears (year - 1) := by
  obtain ⟨y, rfl⟩ : ∃ y, year = y + 1 := ⟨year - 1, by omega⟩
  have h4 : (y + 1 + 3) / 4 = y / 4 + 1 := by omega
  have h100 : (y + 1 + 99) / 100 = y / 100 + 1 := by omega
  have h400 : (y + 1 + 399) / 400 = y / 400 + 1 := by omega
  have hsum : (y + 1) * 365 + (y / 4 + 1) - (y / 100 + 1) + (y / 400 + 1) + 2 ^ 32 - 366 = daysInYears y + 2 ^ 32 := by
    unfold daysInYears
    omega
  have hlt : daysInYears y < 2 ^ 32 := by
    omega
  rw [daysInPreviousYears, h4, h100, h400, hsum, Nat.add_mod_right, Nat.mod_eq_of_lt hlt, Nat.add_sub_cancel]

/-! ## Months -/

theorem monthIndex_month (leap : Bool) : ∀ d < if leap then 366 else 365, monthIndex leap d < 12 ∧
    monthOffset leap (monthIndex leap d) ≤ d ∧
    d < monthOffset leap (monthIndex leap d) + daysInMonth leap (monthIndex leap d) := by
  cases leap <;> decide +kernel

theorem monthOffset_next (leap : Bool) : ∀ m < 12, ∀ n < 12, m < n →
    monthOffset leap m + daysInMonth leap m ≤ monthOffset leap n := by
  cases leap <;> decide

theorem monthOffset_year (leap : Bool) : ∀ m < 12, monthOffset leap m +
    daysInMonth leap m ≤ if leap then 366 else 365 := by
  cases leap <;> decide

/-! ## Day numbers -/

section Valid

variable {x y : DateTime}

theorem Valid.dayNumber_eq (h : Valid x) : dayNumber x =
    daysInYears (x.year - 1) + monthOffset (isLeapYear x.year) (x.month - 1) + (x.day - 1) := by
  have hyear := daysInYears_mono (show x.year - 1 ≤ 9999 by have := h.year; omega)
  have hmonth := monthOffset_year (isLeapYear x.year) (x.month - 1) (by have := h.month; omega)
  have hlimit : daysInYears 9999 = 3652059 := rfl
  obtain ⟨hm, hm'⟩ := h.month
  obtain ⟨hd, hd'⟩ := h.day
  have hleap : (if isLeapYear x.year then 366 else 365) ≤ 366 := by split <;> decide
  rw [dayNumber, daysInPreviousYears_eq (by have := h.year; omega), if_neg (by omega), if_neg (by omega)]
  omega

/-- The day lies in its year. -/
theorem Valid.dayNumber_lt (h : Valid x) : dayNumber x < daysInYears x.year := by
  have hmonth := monthOffset_year (isLeapYear x.year) (x.month - 1) (by have := h.month; omega)
  have hyear := daysInYears_succ (x.year - 1)
  rw [Nat.sub_add_cancel h.year.1] at hyear
  have := h.day
  rw [h.dayNumber_eq, hyear]
  omega

theorem Valid.dayNumber_limit (h : Valid x) : dayNumber x < 3652059 :=
  Nat.lt_of_lt_of_le h.dayNumber_lt (daysInYears_mono (Nat.le_of_lt_succ h.year.2))

theorem Valid.dateTimeToTick_eq (h : Valid x) : dateTimeToTick x =
    dayNumber x * ticksInDay + (x.hour * 3600000000 + x.minute * 60000000 + x.second * 1000000 + x.microsecond) := by
  have := h.dayNumber_limit
  obtain ⟨-, -, -, hh, hm, hs, hu⟩ := h
  unfold dateTimeToTick ticksInDay
  omega

theorem Valid.day_of_tick (h : Valid x) : dateTimeToTick x / ticksInDay = dayNumber x := by
  rw [h.dateTimeToTick_eq]
  obtain ⟨-, -, -, hh, hm, hs, hu⟩ := h
  unfold ticksInDay
  omega

theorem dayNumber_before (hx : Valid x) (hy : Valid y)
    (h : x.year < y.year ∨ x.year = y.year ∧ (x.month < y.month ∨ x.month = y.month ∧ x.day < y.day)) :
    dayNumber x < dayNumber y := by
  rcases h with h | ⟨hyear, h | ⟨hmonth, h⟩⟩
  · have := hx.dayNumber_lt
    have := daysInYears_mono (show x.year ≤ y.year - 1 by omega)
    have := hy.dayNumber_eq
    omega
  · have := hx.month
    have := hy.month
    have hnext := monthOffset_next (isLeapYear x.year) (x.month - 1) (by omega) (y.month - 1) (by omega) (by omega)
    have := hx.day
    rw [hx.dayNumber_eq, hy.dayNumber_eq, ← hyear]
    omega
  · have := hx.day
    rw [hx.dayNumber_eq, hy.dayNumber_eq, ← hyear, ← hmonth]
    omega

theorem dateTimeToTick_before (hx : Valid x) (hy : Valid y) (h : Before x y) : dateTimeToTick x < dateTimeToTick y := by
  have hday := dayNumber_before hx hy
  have hsame : x.year = y.year → x.month = y.month → x.day = y.day → dayNumber x = dayNumber y := by
    intro hyear hmonth hd
    rw [dayNumber, dayNumber, hyear, hmonth, hd]
  rw [hx.dateTimeToTick_eq, hy.dateTimeToTick_eq]
  obtain ⟨-, -, -, hh, hm, hs, hu⟩ := hx
  unfold Before at h
  unfold ticksInDay
  omega

theorem before_total (x y : DateTime) : x = y ∨ Before x y ∨ Before y x := by
  rw [DateTime.ext_iff]
  unfold Before
  omega

theorem Valid.lt_tickLimit (h : Valid x) : dateTimeToTick x < tickLimit := by
  have hday := h.dayNumber_limit
  rw [← h.day_of_tick] at hday
  exact (Nat.div_lt_iff_lt_mul (by decide)).mp hday

end Valid

/-! ## Ticks -/

section Tick

variable {t : Nat}

/-- The date of a tick, by the days before its year, its month and itself. -/
theorem tickToDateTime_date (h : t < tickLimit) : ∃ y m d, y < 9999 ∧ m < 12 ∧
    d < daysInMonth (isLeapYear (y + 1)) m ∧ (tickToDateTime t).year = y + 1 ∧
    (tickToDateTime t).month = m + 1 ∧ (tickToDateTime t).day = d + 1 ∧
    daysInYears y + monthOffset (isLeapYear (y + 1)) m + d = t / ticksInDay := by
  have hdays : t / ticksInDay < daysInYears 9999 := Nat.div_lt_of_lt_mul h
  have hcut : t / ticksInDay % 2 ^ 32 = t / ticksInDay := Nat.mod_eq_of_lt (hdays.trans (by decide))
  generalize hn : t / ticksInDay = n at hdays hcut
  obtain ⟨hw, hlo, hhi⟩ := yearWithin400_year (Nat.mod_lt n (by decide))
  have hr : n - n / daysIn400Years * daysIn400Years = n % daysIn400Years := by rw [Nat.mod_eq_sub_div_mul]
  have hsplit := Nat.div_add_mod' n daysIn400Years
  set q := n / daysIn400Years
  set w := yearWithin400 (n % daysIn400Years)
  have hstart := daysInYears_cycle q w
  have hend := daysInYears_cycle q (w + 1)
  rw [← Nat.add_assoc, daysInYears_succ] at hend
  have hy : q * 400 + w < 9999 := by
    by_contra hge
    have := daysInYears_mono (Nat.le_of_not_lt hge)
    omega
  have hyear : (q * 400 + w + 1) % 2 ^ 16 = q * 400 + w + 1 := Nat.mod_eq_of_lt (Nat.lt_of_le_of_lt hy (by decide))
  obtain ⟨hm, hfrom, hto⟩ := monthIndex_month (isLeapYear (q * 400 + w + 1))
    (n % daysIn400Years - daysInYears w) (by omega)
  refine ⟨q * 400 + w, _, _, hy, hm, Nat.sub_lt_left_of_lt_add hfrom hto, ?_, ?_, ?_, by omega⟩ <;>
    simp only [tickToDateTime, hn, hcut, hr, q, w] at hyear ⊢ <;> rw [hyear]

theorem tickToDateTime_valid (h : t < tickLimit) : Valid (tickToDateTime t) := by
  obtain ⟨y, m, d, hy, hm, hd, hyear, hmonth, hday, -⟩ := tickToDateTime_date h
  constructor
  case day => rw [hday, hyear, hmonth]; exact ⟨by omega, hd⟩
  all_goals first | exact Nat.mod_lt _ (by decide) | omega

theorem dateTimeToTick_tickToDateTime (h : t < tickLimit) : dateTimeToTick (tickToDateTime t) = t := by
  have hv := tickToDateTime_valid h
  obtain ⟨y, m, d, -, -, -, hyear, hmonth, hday, hn⟩ := tickToDateTime_date h
  have hd : dayNumber (tickToDateTime t) = t / ticksInDay := by
    rw [hv.dayNumber_eq, hyear, hmonth, hday]
    exact hn
  rw [hv.dateTimeToTick_eq, hd]
  show t / ticksInDay * ticksInDay + (t / (60 * 60 * 1000000) % 24 * _ + t / (60 * 1000000) % 60 * _
    + t / 1000000 % 60 * _ + t % 1000000) = t
  unfold ticksInDay
  omega

theorem tickToDateTime_dateTimeToTick {x : DateTime} (h : Valid x) : tickToDateTime (dateTimeToTick x) = x := by
  have hv := tickToDateTime_valid h.lt_tickLimit
  have hsame := dateTimeToTick_tickToDateTime h.lt_tickLimit
  rcases before_total (tickToDateTime (dateTimeToTick x)) x with heq | hlt | hlt
  · exact heq
  · exact absurd (dateTimeToTick_before hv h hlt) (by omega)
  · exact absurd (dateTimeToTick_before h hv hlt) (by omega)

theorem tickToDateTime_before {t' : Nat} (h : t < t') (h' : t' < tickLimit) :
    Before (tickToDateTime t) (tickToDateTime t') := by
  have ht := h.trans h'
  have hself := dateTimeToTick_tickToDateTime ht
  have hself' := dateTimeToTick_tickToDateTime h'
  rcases before_total (tickToDateTime t) (tickToDateTime t') with heq | hlt | hlt
  · rw [heq] at hself
    omega
  · exact hlt
  · have := dateTimeToTick_before (tickToDateTime_valid h') (tickToDateTime_valid ht) hlt
    omega

end Tick

/-- Between the ticks of the years 1 to 9999 and the dates and times that are accepted, the conversions are inverse to
each other, and both keep the order. -/
theorem calendar_inverse :
    (∀ t < tickLimit, checkValid (tickToDateTime t) = .ok () ∧ dateTimeToTick (tickToDateTime t) = t) ∧
    (∀ x, checkValid x = .ok () → dateTimeToTick x < tickLimit ∧ tickToDateTime (dateTimeToTick x) = x) ∧
    (∀ t t', t < t' → t' < tickLimit → Before (tickToDateTime t) (tickToDateTime t')) ∧
    (∀ x y, checkValid x = .ok () → checkValid y = .ok () → Before x y → dateTimeToTick x < dateTimeToTick y) := by
  simp only [checkValid_ok]
  exact ⟨fun t h => ⟨tickToDateTime_valid h, dateTimeToTick_tickToDateTime h⟩,
    fun x h => ⟨h.lt_tickLimit, tickToDateTime_dateTimeToTick h⟩, fun t t' => tickToDateTime_before,
    fun x y => dateTimeToTick_before⟩

theorem calendar_inverse_leapDay :
    let x : DateTime := ⟨2024, 2, 29, 23, 59, 59, 999999⟩
    let y : DateTime := ⟨2024, 3, 1, 0, 0, 0, 0⟩
    dateTimeToTick (tickToDateTime 5) = 5 ∧ tickToDateTime (dateTimeToTick x) = x ∧
      Before (tickToDateTime 5) (tickToDateTime 6) ∧ dateTimeToTick x < dateTimeToTick y :=
  ⟨(calendar_inverse.1 _ (by decide)).2, (calendar_inverse.2.1 _ rfl).2,
    calendar_inverse.2.2.1 _ _ (by decide) (by decide), calendar_inverse.2.2.2 _ _ rfl rfl (.inr ⟨rfl, .inl (by decide)⟩)⟩

/-! ## The day of the week -/

def getDayOfWeek (year month day : Int) : Int :=
  let moved := month = 1 ∨ month = 2
  let year := if moved then year - 1 else year
  let month := if moved then month + 12 else month
  ((month * 13 + 8).tdiv 5 + year + year.tdiv 4 - year.tdiv 100 + year.tdiv 400 + day).tmod 7

/-- The days before a month count as the term for the month does, with the year's own days from March on. -/
theorem monthOffset_week (leap : Bool) : ∀ m < 12, monthOffset leap m % 7 =
    (if m < 2 then ((m + 13) * 13 + 8) / 5 else ((m + 1) * 13 + 8) / 5 + if leap then 366 else 365) % 7 := by
  cases leap <;> decide

theorem daysInYears_week (k z d : Nat) :
    ((k : Int) + z + (z : Int).tdiv 4 - (z : Int).tdiv 100 + (z : Int).tdiv 400 + d).tmod 7 =
      ((k + daysInYears z + d) % 7 : Nat) := by
  have h4 : (z : Int).tdiv 4 = (z / 4 : Nat) := rfl
  have h100 : (z : Int).tdiv 100 = (z / 100 : Nat) := rfl
  have h400 : (z : Int).tdiv 400 = (z / 400 : Nat) := rfl
  have hsum : daysInYears z = 364 * z + (z + z / 4 - z / 100 + z / 400) := by
    unfold daysInYears
    omega
  rw [h4, h100, h400, hsum, Int.tmod_eq_emod_of_nonneg (by omega)]
  omega

theorem Valid.getDayOfWeek_eq {x : DateTime} (h : Valid x) :
    getDayOfWeek x.year x.month x.day = ((dayNumber x + 1) % 7 : Nat) := by
  have hweek := monthOffset_week (isLeapYear x.year) (x.month - 1) (by have := h.month; omega)
  have hyear := daysInYears_succ (x.year - 1)
  obtain ⟨hy, -⟩ := h.year
  obtain ⟨hm, -⟩ := h.month
  obtain ⟨hd, -⟩ := h.day
  rw [Nat.sub_add_cancel hy] at hyear
  rw [h.dayNumber_eq, getDayOfWeek]
  by_cases hmoved : (x.month : Int) = 1 ∨ (x.month : Int) = 2
  · rw [if_pos (by omega), show x.month - 1 + 13 = x.month + 12 by omega] at hweek
    have hterm : (((x.month : Int) + 12) * 13 + 8).tdiv 5 = (((x.month + 12) * 13 + 8) / 5 : Nat) := rfl
    have hz : (x.year : Int) - 1 = (x.year - 1 : Nat) := by omega
    simp only [hmoved, if_true, hterm, hz, daysInYears_week]
    omega
  · rw [if_neg (by omega), Nat.sub_add_cancel hm] at hweek
    have hterm : ((x.month : Int) * 13 + 8).tdiv 5 = ((x.month * 13 + 8) / 5 : Nat) := rfl
    simp only [hmoved, if_false, hterm, daysInYears_week]
    omega

/-- The weekday counts the days from `0001-01-01`, so it moves on by one from each day to the next. -/
theorem getDayOfWeek_counts : (∀ x, checkValid x = .ok () →
      getDayOfWeek x.year x.month x.day = ((dateTimeToTick x / ticksInDay + 1) % 7 : Nat)) ∧
    (∀ x y, checkValid x = .ok () → checkValid y = .ok () →
      dateTimeToTick y / ticksInDay = dateTimeToTick x / ticksInDay + 1 →
      getDayOfWeek y.year y.month y.day = (getDayOfWeek x.year x.month x.day + 1) % 7) := by
  simp only [checkValid_ok]
  constructor
  · intro x h
    rw [h.getDayOfWeek_eq, h.day_of_tick]
  · intro x y hx hy hnext
    rw [hx.day_of_tick, hy.day_of_tick] at hnext
    rw [hx.getDayOfWeek_eq, hy.getDayOfWeek_eq, hnext]
    omega

/-- A Thursday and the Friday behind it. -/
theorem getDayOfWeek_counts_leapDay : getDayOfWeek 2024 2 29 = 4 ∧ getDayOfWeek 2024 3 1 = (4 + 1) % 7 :=
  ⟨getDayOfWeek_counts.1 ⟨2024, 2, 29, 0, 0, 0, 0⟩ rfl,
    getDayOfWeek_counts.2 ⟨2024, 2, 29, 0, 0, 0, 0⟩ ⟨2024, 3, 1, 0, 0, 0, 0⟩ rfl rfl (by decide)⟩

/-! ## Months -/

def getTick (x : DateTime) : Option Nat := if 10000 ≤ x.year ∨ x.year = 0 then none else some (dateTimeToTick x)

theorem Valid.getTick_eq {x : DateTime} (h : Valid x) : getTick x = some (dateTimeToTick x) :=
  if_neg (by have := h.year; omega)

/-- `CELL_RTC_ERROR_INVALID_ARG` as a signed number. -/
def invalidArg : Int := 0x80010604 - 2 ^ 32

/-- What is left in `*pTick0`, which held `tick0`: nothing is written where `getTick` fails. -/
def tickAddMonths (tick0 tick1 : Nat) (iAdd : Int) : Nat :=
  let x := tickToDateTime tick1
  let totalMonths := (x.year * 12 + x.month + iAdd - 1).bmod (2 ^ 32)
  let newYear := (totalMonths.tdiv 12 % 2 ^ 16).toNat
  let newMonth := ((totalMonths - newYear * 12 + 1) % 2 ^ 16).toNat
  let monthDays : Int :=
    if newYear = 0 ∨ newMonth < 1 ∨ 12 < newMonth then invalidArg
    else daysInMonth (isLeapYear newYear) (newMonth - 1)
  let day := if monthDays < x.day then (monthDays % 2 ^ 16).toNat else x.day
  (getTick { x with year := newYear, month := newMonth, day }).getD tick0

/-- The year that `iAdd` months after `x` lie in is one of 1 to 9999. -/
def InYears (x : DateTime) (iAdd : Int) : Prop :=
  1 ≤ (x.year * 12 + x.month - 1 + iAdd) / 12 ∧ (x.year * 12 + x.month - 1 + iAdd) / 12 ≤ 9999

/-- `y` is `x` moved by `iAdd` months, on the last day of its month where that is too short. -/
structure Moved (x : DateTime) (iAdd : Int) (y : DateTime) : Prop where
  valid : Valid y
  months : (y.year * 12 + y.month : Int) = x.year * 12 + x.month + iAdd
  day : y.day = min x.day (daysInMonth (isLeapYear y.year) (y.month - 1))
  time : y.hour = x.hour ∧ y.minute = x.minute ∧ y.second = x.second ∧ y.microsecond = x.microsecond

theorem daysInMonth_le (leap : Bool) : ∀ m < 12, 28 ≤ daysInMonth leap m ∧ daysInMonth leap m ≤ 31 := by
  cases leap <;> decide

theorem tickAddMonths_moved {t : Nat} {iAdd : Int} (tick0 : Nat) (ht : t < tickLimit)
    (hin : InYears (tickToDateTime t) iAdd) :
    ∃ y, Moved (tickToDateTime t) iAdd y ∧ tickAddMonths tick0 t iAdd = dateTimeToTick y := by
  have hv := tickToDateTime_valid ht
  generalize hx : tickToDateTime t = x at hin hv
  obtain ⟨n, hn⟩ : ∃ n : Nat, (x.year * 12 + x.month + iAdd - 1 : Int) = n :=
    ⟨(x.year * 12 + x.month + iAdd - 1 : Int).toNat, by unfold InYears at hin; omega⟩
  have hyears : 1 ≤ n / 12 ∧ n / 12 < 10000 := by unfold InYears at hin; omega
  have hmod : ((n : Int).bmod (2 ^ 32)) = n := Int.bmod_eq_of_le (by omega) (by omega)
  have hyear : ((n : Int).tdiv 12 % 2 ^ 16).toNat = n / 12 := by
    rw [Int.tdiv_eq_ediv_of_nonneg (by omega)]
    omega
  have hmonth : (((n : Int) - (n / 12 : Nat) * 12 + 1) % 2 ^ 16).toNat = n % 12 + 1 := by omega
  have hlen := daysInMonth_le (isLeapYear (n / 12)) (n % 12) (by omega)
  generalize hl : daysInMonth (isLeapYear (n / 12)) (n % 12) = len at hlen
  have hday : (if (len : Int) < x.day then ((len : Int) % 2 ^ 16).toNat else x.day) = min x.day len := by
    split <;> omega
  have hvalid : Valid ⟨n / 12, n % 12 + 1, min x.day len, x.hour, x.minute, x.second, x.microsecond⟩ := by
    obtain ⟨-, -, hd, hh, hm, hs, hu⟩ := hv
    refine ⟨hyears, ?_, ?_, hh, hm, hs, hu⟩ <;> simp only [Nat.add_sub_cancel, hl] <;> omega
  refine ⟨_, ⟨hvalid, ?_, hl ▸ rfl, ⟨rfl, rfl, rfl, rfl⟩⟩, ?_⟩
  · show ((n / 12 : Nat) * 12 + (n % 12 + 1 : Nat) : Int) = _
    omega
  · have hthere : ¬(n / 12 = 0 ∨ n % 12 + 1 < 1 ∨ 12 < n % 12 + 1) := by omega
    simp only [tickAddMonths, hx, hn, hmod, hyear, hmonth, Nat.add_sub_cancel, hl, if_neg hthere, hday]
    rw [hvalid.getTick_eq]
    exact Option.getD_some ..

/-- Months add up, and so do the moves of a day that every month has. -/
theorem Moved.trans {x y z w : DateTime} {a b : Int} (hy : Moved x a y) (hz : Moved y b z) (hw : Moved x (a + b) w) :
    z.year = w.year ∧ z.month = w.month ∧ (x.day ≤ 28 → z = w) := by
  have hm := hz.months
  have := hy.months
  have := hw.months
  have := hz.valid.month
  have := hw.valid.month
  have hyear : z.year = w.year ∧ z.month = w.month := by omega
  refine ⟨hyear.1, hyear.2, fun hd => ?_⟩
  have := daysInMonth_le (isLeapYear y.year) (y.month - 1) (by have := hy.valid.month; omega)
  have hday := hz.day
  rw [hyear.1, hyear.2, hy.day] at hday
  have := hw.day
  have := hy.time
  have := hz.time
  have := hw.time
  rw [DateTime.ext_iff]
  omega

/-- The tick of the date that is `iAdd` months away; two moves one after the other end in the month that one move by
their sum ends in, on the same date where every month has its day. -/
theorem tickAddMonths_moves (tick0 : Nat) : (∀ t iAdd, t < tickLimit → InYears (tickToDateTime t) iAdd →
      ∃ y, Moved (tickToDateTime t) iAdd y ∧ tickAddMonths tick0 t iAdd = dateTimeToTick y) ∧
    (∀ t a b, t < tickLimit → InYears (tickToDateTime t) a → InYears (tickToDateTime t) (a + b) →
      let x := tickToDateTime (tickAddMonths tick0 (tickAddMonths tick0 t a) b)
      let y := tickToDateTime (tickAddMonths tick0 t (a + b))
      x.year = y.year ∧ x.month = y.month ∧ ((tickToDateTime t).day ≤ 28 → x = y)) := by
  refine ⟨fun t iAdd => tickAddMonths_moved tick0, fun t a b ht ha hab => ?_⟩
  obtain ⟨y, hy, hyt⟩ := tickAddMonths_moved tick0 ht ha
  obtain ⟨w, hw, hwt⟩ := tickAddMonths_moved tick0 ht hab
  have hself := tickToDateTime_dateTimeToTick hy.valid
  have hb : InYears y b := by
    have := hy.months
    unfold InYears at hab ⊢
    omega
  obtain ⟨z, hz, hzt⟩ := tickAddMonths_moved tick0 hy.valid.lt_tickLimit (hself.symm ▸ hb)
  rw [hself] at hz
  rw [hyt, hzt, hwt, tickToDateTime_dateTimeToTick hz.valid, tickToDateTime_dateTimeToTick hw.valid]
  exact hy.trans hz hw

/-- From the first day of the year 1 to February and on to March. -/
theorem tickAddMonths_moves_first : (∃ y, Moved (tickToDateTime 0) 1 y ∧ tickAddMonths 0 0 1 = dateTimeToTick y) ∧
    tickToDateTime (tickAddMonths 0 (tickAddMonths 0 0 1) 1) = tickToDateTime (tickAddMonths 0 0 2) :=
  have hyears (iAdd : Int) (h : iAdd = 1 ∨ iAdd = 2) : InYears (tickToDateTime 0) iAdd := by
    rcases h with rfl | rfl
    · exact ⟨by decide, by decide⟩
    · exact ⟨by decide, by decide⟩
  ⟨(tickAddMonths_moves 0).1 0 1 (by decide) (hyears 1 (.inl rfl)),
    ((tickAddMonths_moves 0).2 0 1 1 (by decide) (hyears 1 (.inl rfl)) (hyears 2 (.inr rfl))).2.2 (by decide)⟩

end Armsx3.Cell.Rtc
