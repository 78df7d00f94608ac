import FilterQuery.Calendar.Zone

set_option autoImplicit false

/-! # A table of zones

Offsets and transitions of some zones, as a database for readers that are given no other. A zone
with summer time is given by the two days of the year on which its clock changes; its rule is
spelled out year by year up to 2099, and the last offset then stays. -/

namespace FilterQuery.Zone

/-- Seconds since 1970-01-01T00:00:00Z of a UTC date and time. -/
def stamp (year : Int) (month day hour minute second : Nat) : Int :=
  Date.daysOfFields year month day * secondsPerDay + (3600 * hour + 60 * minute + second : Nat)

/-! ## Days of the year -/

/-- The day of the week, Sunday being zero, of a count of days from 1970-01-01, a Thursday. -/
def weekday (days : Int) : Int := (days + 4) % 7

/-- The `n`-th Sunday of a month, `n` counting from one. -/
def sunday (n : Nat) (year : Int) (month : Nat) : Int :=
  let first := Date.daysOfFields year month 1
  first + (7 - weekday first) % 7 + 7 * (n - 1 : Nat)

/-- The last Sunday of a month. -/
def lastSunday (year : Int) (month : Nat) : Int :=
  let last := Date.daysOfFields year month (daysInMonth year month)
  last - weekday last

/-- The last year whose clock changes are spelled out. -/
def lastRuleYear : Nat := 2099

/-- Two clock changes in every year from `first` on. -/
def yearly (first : Nat) (changes : Int → List Transition) : List Transition :=
  (List.range (lastRuleYear + 1 - first)).flatMap fun n => changes (first + n : Nat)

/-- A clock change on a day, `seconds` after midnight UTC. -/
def change (day : Int) (seconds : Nat) (offset : Int) : Transition :=
  ⟨day * secondsPerDay + seconds, offset⟩

/-! ## Zones with summer time -/

/-- From the last Sunday of March to the last Sunday of October, 01:00 UTC, one hour ahead. -/
def oslo : Zone where
  name := "Europe/Oslo"
  initial := 3600
  transitions := yearly 1996 fun year =>
    [change (lastSunday year 3) 3600 7200, change (lastSunday year 10) 3600 3600]

/-- From the second Sunday of March, 07:00 UTC, to the first Sunday of November, 06:00 UTC, one hour
ahead. -/
def newYork : Zone where
  name := "America/New_York"
  initial := -18000
  transitions := yearly 2007 fun year =>
    [change (sunday 2 year 3) (7 * 3600) (-14400), change (sunday 1 year 11) (6 * 3600) (-18000)]

/-- Half an hour ahead in the southern summer, which ends and begins on the local first Sundays of
April and October. -/
def lordHowe : Zone where
  name := "Australia/Lord_Howe"
  initial := 39600
  transitions := yearly 2008 fun year =>
    [change (sunday 1 year 4 - 1) (15 * 3600) 37800,
     change (sunday 1 year 10 - 1) (15 * 3600 + 1800) 39600]

/-! ## Zones with single changes -/

def tokyo : Zone where
  name := "Asia/Tokyo"
  initial := 33539
  transitions :=
    [⟨stamp 1887 12 31 15 0 0, 32400⟩,
     ⟨stamp 1948 5 1 15 0 0, 36000⟩, ⟨stamp 1948 9 11 15 0 0, 32400⟩,
     ⟨stamp 1949 4 2 15 0 0, 36000⟩, ⟨stamp 1949 9 10 15 0 0, 32400⟩,
     ⟨stamp 1950 5 6 15 0 0, 36000⟩, ⟨stamp 1950 9 9 15 0 0, 32400⟩,
     ⟨stamp 1951 5 5 15 0 0, 36000⟩, ⟨stamp 1951 9 8 15 0 0, 32400⟩]

def kolkata : Zone where
  name := "Asia/Kolkata"
  initial := 21208
  transitions :=
    [⟨stamp 1854 6 27 18 6 32, 21200⟩, ⟨stamp 1869 12 31 18 6 40, 19270⟩,
     ⟨stamp 1905 12 31 18 38 50, 19800⟩,
     ⟨stamp 1941 9 30 18 30 0, 23400⟩, ⟨stamp 1942 5 14 17 30 0, 19800⟩,
     ⟨stamp 1942 8 31 18 30 0, 23400⟩, ⟨stamp 1945 10 14 17 30 0, 19800⟩]

def kathmandu : Zone where
  name := "Asia/Kathmandu"
  initial := 20476
  transitions := [⟨stamp 1919 12 31 18 18 44, 19800⟩, ⟨stamp 1985 12 31 18 30 0, 20700⟩]

def apia : Zone where
  name := "Pacific/Apia"
  initial := 45184
  transitions :=
    [⟨stamp 1892 7 4 11 26 56, -41216⟩, ⟨stamp 1911 1 1 11 26 56, -41400⟩,
     ⟨stamp 1950 1 1 11 30 0, -39600⟩,
     ⟨stamp 2010 9 26 11 0 0, -36000⟩, ⟨stamp 2011 4 2 14 0 0, -39600⟩,
     ⟨stamp 2011 9 24 14 0 0, -36000⟩, ⟨stamp 2011 12 30 10 0 0, 50400⟩,
     ⟨stamp 2012 3 31 14 0 0, 46800⟩, ⟨stamp 2012 9 29 14 0 0, 50400⟩,
     ⟨stamp 2013 4 6 14 0 0, 46800⟩, ⟨stamp 2013 9 28 14 0 0, 50400⟩,
     ⟨stamp 2014 4 5 14 0 0, 46800⟩, ⟨stamp 2014 9 27 14 0 0, 50400⟩,
     ⟨stamp 2015 4 4 14 0 0, 46800⟩, ⟨stamp 2015 9 26 14 0 0, 50400⟩,
     ⟨stamp 2016 4 2 14 0 0, 46800⟩, ⟨stamp 2016 9 24 14 0 0, 50400⟩,
     ⟨stamp 2017 4 1 14 0 0, 46800⟩, ⟨stamp 2017 9 23 14 0 0, 50400⟩,
     ⟨stamp 2018 3 31 14 0 0, 46800⟩, ⟨stamp 2018 9 29 14 0 0, 50400⟩,
     ⟨stamp 2019 4 6 14 0 0, 46800⟩, ⟨stamp 2019 9 28 14 0 0, 50400⟩,
     ⟨stamp 2020 4 4 14 0 0, 46800⟩, ⟨stamp 2020 9 26 14 0 0, 50400⟩,
     ⟨stamp 2021 4 3 14 0 0, 46800⟩]

/-- Five hours behind UTC, all year. -/
def gmtPlusFive : Zone := fixed "Etc/GMT+5" (-18000)

def all : List Zone :=
  [utc, gmtPlusFive, oslo, newYork, lordHowe, tokyo, kolkata, kathmandu, apia]

/-- The zone of a name; names match exactly. -/
def named? (name : String) : Option Zone := all.find? fun z => z.name == name

theorem mem_all_of_named? {name : String} {z : Zone} (h : named? name = some z) : z ∈ all :=
  List.mem_of_find?_eq_some h

/-- The table as a database. -/
def known : Database where
  find? := named?
  belowDay h := by
    have hall : ∀ z ∈ all, z.BelowDay := by decide +kernel
    exact hall _ (mem_all_of_named? h)
  unbracketed {name z} h := by
    have hall : ∀ z ∈ all, '[' ∉ z.name.toList := by decide
    have hname : z.name = name := by simpa using List.find?_some h
    exact hname ▸ hall z (mem_all_of_named? h)

end FilterQuery.Zone
